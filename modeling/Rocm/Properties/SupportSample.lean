import Rocm.Support.Machine

/-!
# Eight user processes to run

A machine and the memory that `instantiator_proc` leaves on it. The other modules use them where a
statement is about one particular run of the user processes.
-/

namespace Rocm

open Runs

/-- A machine with sixteen entries in its TLB. It is no instance: only particular runs use it. -/
abbrev sampleUmps : Umps where
  tlbSize := 16
  tlbSize_pos := by decide
  tlbSize_le := by decide
  missIndex := PRESENTFLAG
  missIndex_sign := by decide
  entryloGetPfn lo := lo &&& ENTRYLO_PFN_MASK

/-- The memory at the start, with every byte 0 and entries for the ASID 0 in the TLB. -/
def sampleMem : @Mem sampleUmps :=
  letI := sampleUmps
  .initSupp (fun _ => ⟨0, fun _ => .zero, fun _ => ⟨0, 0, 0⟩, fun _ => ⟨0, 0⟩⟩)
    (fun _ => ⟨0, 0, 0, 0⟩) (fun _ => ⟨0, 0⟩) (fun _ => 0) (fun _ => ⟨READY, 0, 0⟩) fun _ _ _ => 0

theorem sampleMem_initial : letI := sampleUmps; Initial sampleMem := by
  let _ := sampleUmps
  exact ⟨⟨_, _, _, _, _, _, rfl⟩, fun i =>
    show PteEntry.Foreign ⟨0, 0⟩ from ⟨by decide, by decide⟩⟩

variable [Umps]

/-- The steps of some events, if all of them can occur. -/
def System.play (m : System) : List UserEvent → Option (List (System × UserEvent × System) × System)
  | [] => some ([], m)
  | e :: es => do
    let m1 ← m.next e
    let (tr, m') ← m1.play es
    return ((m, e, m1) :: tr, m')

/-- Events that can be played make a run. -/
theorem System.run_of_play {ok : System → UserEvent → Prop} {es : List UserEvent}
    {m m' : System} {tr : List (System × UserEvent × System)} (h : m.play es = some (tr, m'))
    (hok : ∀ x ∈ tr, ok x.1 x.2.1) : Run (UserStep ok) m tr m' := by
  induction es generalizing m tr with
  | nil =>
    obtain ⟨rfl, rfl⟩ := Prod.mk.inj (Option.some.inj h)
    exact .nil
  | cons e es ih =>
    obtain ⟨m1, hm1, h⟩ := Option.bind_eq_some_iff.mp h
    obtain ⟨⟨tr1, m2⟩, h1, h⟩ := Option.bind_eq_some_iff.mp h
    obtain ⟨rfl, rfl⟩ := Prod.mk.inj (Option.some.inj h)
    have hrun := ih h1 fun x hx => hok x (List.mem_cons_of_mem _ hx)
    exact (Run.nil.snoc ⟨hm1, hok _ List.mem_cons_self⟩).trans hrun

/-- A run whose events can be played, with what `P` says of it. -/
theorem System.exists_run_of_play (ok : System → UserEvent → Prop) [∀ m e, Decidable (ok m e)]
    (m : System) (es : List UserEvent) {P : List (System × UserEvent × System) → System → Bool}
    (h : (m.play es).any fun x => (x.1.all fun y => ok y.1 y.2.1) && P x.1 x.2) :
    ∃ tr m', Run (UserStep ok) m tr m' ∧ P tr m' := by
  obtain ⟨⟨tr, m'⟩, hx, h⟩ := (Option.any_eq_true _ _).mp h
  obtain ⟨hok, hP⟩ := (Bool.and_eq_true ..).mp h
  refine ⟨tr, m', run_of_play hx fun y hy => ?_, hP⟩
  exact of_decide_eq_true (List.all_eq_true.mp hok y hy)

/-- A refill of a slot, where the memory behind the page tables is 0. -/
def refillAt (slot : Slot) : Refill := ⟨slot, ⟨0, 0⟩⟩

/-- `p` fetches an instruction at `pc`. -/
def fetchAt (p : Uproc) (pc : Word) (slot : Slot) : UserEvent :=
  .user p pc .other (refillAt slot) .zero

/-- The next command of a handler of `p`. -/
def stepAt (p : Uproc) (slot : Slot) : UserEvent := .step p (refillAt slot) .zero 0

/-- The first instruction of a process: the TLB misses, the entry is not valid, and the pager gets
    as far as the P on `sp_sem`. -/
def firstFault (p : Uproc) (slot : Slot) : List UserEvent :=
  List.replicate 2 (fetchAt p KUSEG slot) ++ List.replicate 2 (stepAt p slot)

/-- The first instruction of a process, with its page brought in from the flash. -/
def bringIn (p : Uproc) (slot : Slot) : List UserEvent :=
  List.replicate 2 (fetchAt p KUSEG slot) ++ List.replicate 7 (stepAt p slot) ++
    [.complete p READY] ++ List.replicate 4 (stepAt p slot)

/-- The same for another page. -/
def bringInPage (p : Uproc) (i : Page) (slot : Slot) : List UserEvent :=
  List.replicate 2 (fetchAt p (pageAddr i) slot) ++ List.replicate 7 (stepAt p slot) ++
    [.complete p READY] ++ List.replicate 4 (stepAt p slot)

/-- The same when the page in the frame must be written back first. -/
def replacePage (p : Uproc) (i : Page) (slot : Slot) : List UserEvent :=
  List.replicate 2 (fetchAt p (pageAddr i) slot) ++ List.replicate 10 (stepAt p slot) ++
    [.complete p READY] ++ List.replicate 5 (stepAt p slot) ++ [.complete p READY] ++
    List.replicate 4 (stepAt p slot)

/-- A process calls SYS2 and gets as far as the load of `sp_asids`. -/
def beginTerminate (p : Uproc) (slot : Slot) : List UserEvent :=
  .user p KUSEG .syscall (refillAt slot) (ProcState.zero.setReg regA0 TERMINATE) ::
    List.replicate 2 (stepAt p slot)

end Rocm
