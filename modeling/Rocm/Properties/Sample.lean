import Rocm.Properties.Steps

/-!
# A machine to run

A link map and a machine at power on, and what a machine looks like after boot. The other modules
use them where a statement is about one particular run.
-/

namespace Rocm

open Prog ProcTable Runs

/-- A link map: the table of the PCBs, then the semaphores. -/
def sampleAddresses : Addresses where
  pcbFreeTable := 0x20002000
  sizeofPcb := 0xD0
  semIt := 0x20004000
  semDisk := 0x20004020
  semFlash := 0x20004040
  semNet := 0x20004060
  semPrinter := 0x20004080
  semTermIn := 0x200040A0
  semTermOut := 0x200040C0
  instantiatorProc := 0x20000400
  ramTop := 0x20040000
  timescale := 1

theorem sampleAddresses_nodup : (KernelSem.all.map sampleAddresses.semAddr).Nodup := by
  decide +kernel

/-- The link map as a layout. It is no instance: only particular runs use it. -/
abbrev sampleLayout : Layout where
  __ := sampleAddresses
  size_pos := by decide
  base_pos := by decide
  no_wrap := by decide
  sem_injective s s' h := List.inj_on_of_nodup_map sampleAddresses_nodup s.mem_all s'.mem_all h
  sem_aligned s := by
    have : ∀ s ∈ KernelSem.all, sampleAddresses.semAddr s &&& 3 = 0 := by decide +kernel
    exact this s s.mem_all

/-- A processor state in kernel mode that makes the system call `number`. -/
def sysState (number arg1 arg2 arg3 : Word) : ProcState where
  entryHi := 0
  cause := EXC_SYS <<< CAUSESHIFT
  status := 0
  pcEpc := 0
  gpr r := if r = regA0 then number else if r = regA1 then arg1 else if r = regA2 then arg2
    else if r = regA3 then arg3 else 0
  hi := 0
  lo := 0

/-- The state of `sysState` is that of a kernel syscall. -/
theorem sysState_call {number : Word} (h : number.slt 0) (a1 a2 a3 : Word) :
    KernelCallOf (sysState number a1 a2 a3) 0 :=
  ⟨show CAUSE_GET_EXCCODE (EXC_SYS <<< CAUSESHIFT) = EXC_SYS by decide, by decide,
    by simpa [sysState, ProcState.number] using h⟩

/-- The machine at power on, with memory 0. -/
def sampleGlobals : Globals where
  pcb _ := ⟨none, .zero, 0, 0, 0, 0, 0, 0⟩
  actProc := none
  sbProcs := 0
  procsCount := 0
  yieldedProc := none
  int _ := 0
  states _ := .zero
  supports _ := ⟨0, fun _ => .zero, fun _ => ⟨0, 0, 0⟩, fun _ => ⟨0, 0⟩⟩
  junk := 0
  biosDataPage := .zero
  cpuStatus := 0
  pending _ := false
  timer := 0
  intervalTimer := 0
  clock := ⟨fun _ => 0, 0⟩
  dev _ := ⟨READY, 0, false, false⟩

theorem sampleGlobals_powerOn : PowerOn sampleGlobals := ⟨fun _ => rfl, fun _ => ⟨rfl, rfl, rfl⟩⟩

/-- A processor state at an interrupt. -/
def intState : ProcState := .zero

/-- The system call `number`, made in kernel mode. -/
def sysEvent (number arg1 arg2 arg3 : Word) : Event :=
  .exception (sysState number arg1 arg2 arg3) 0 (fun _ => false) 0

/-- A CREATEPROCESS of a process of low priority. -/
def createLowEvent : Event := sysEvent CREATEPROCESS 0x20030000 PROCESS_PRIO_LOW NULL

/-- A CREATEPROCESS of a process of low priority with a support structure. -/
def createSupportedEvent : Event := sysEvent CREATEPROCESS 0x20030000 PROCESS_PRIO_LOW 0x20030100

/-- The end of a time slice. -/
def sliceEvent : Event := .exception intState 0 (fun i => i = 1) 0

/-- An address error of the nucleus. -/
def addressErrorEvent : Event :=
  .addressError { ProcState.zero with cause := EXC_ADES <<< CAUSESHIFT } 0 (fun _ => false) 0

/-- Three children do a PASSEREN on a semaphore that is 0; their parent kills the second one and
    does a VERHOGEN. -/
def killedWaiter : List Event :=
  [createLowEvent, createLowEvent, createLowEvent, sliceEvent, sysEvent PASSEREN 0x20030000 0 0,
    sysEvent PASSEREN 0x20030000 0 0, sysEvent PASSEREN 0x20030000 0 0,
    sysEvent TERMPROCESS (sampleAddresses.pcbAddr 2) 0 0, sysEvent VERHOGEN 0x20030000 0 0]

/-- Then the first child does a DOIO on a disk, its parent a PASSEREN, and the disk interrupts. -/
def servedChild : List Event :=
  killedWaiter ++ [sysEvent DOIO (SubDev.dtp 0 0).commandAddr 2 0,
    sysEvent PASSEREN 0x20030004 0 0, .complete (.dtp 0 0) READY,
    .exception intState 0 (fun _ => false) 0]

/-- A child does a DOIO on `d` with an address that is no address of a word, and its support
    structure handles the address error of the nucleus. -/
def misalignedDoio (d : SubDev) : List Event :=
  [createSupportedEvent, sliceEvent, sysEvent DOIO (d.commandAddr + 1) 2 0, addressErrorEvent]

/-- The child becomes ready although it is blocked, and is killed: the descriptor of `d` stays
    active. -/
def lostDescriptor (d : SubDev) : List Event :=
  misalignedDoio d ++ [sliceEvent, sysEvent TERMPROCESS (sampleAddresses.pcbAddr 1) 0 0]

variable [Layout]

/-! ## Playing events -/

instance (k : Kernel View) (s : ProcState) : Decidable (TermOk k s) :=
  inferInstanceAs (Decidable (s.number = TERMPROCESS → _))

instance (k : Kernel View) (junk : Word) (s : ProcState) : Decidable (CallOk k junk s) :=
  decidable_of_iff (TermOk k s ∧
    (s.number = PASSEREN ∨ s.number = VERHOGEN → ¬ Layout.toAddresses.IsSem s.arg1) ∧
    (s.number = DOIO → (∃ d ∈ SubDev.all, s.arg1 = d.commandAddr) ∨
      ¬ Layout.toAddresses.IsSem s.arg1 ∧ (findDevice (deviceFromComdaddr s.arg1) = none →
        ¬ Layout.toAddresses.IsSem (junk - 4))))
    ⟨fun h => ⟨h.1, h.2.1, fun hn => (h.2.2 hn).imp_left fun ⟨d, _, hd⟩ => ⟨d, hd⟩⟩,
      fun h => ⟨h.term, h.sem, fun hn => (h.doio hn).imp_left fun ⟨d, hd⟩ => ⟨d, d.mem_all, hd⟩⟩⟩

instance (g : Globals) (s : ProcState) : Decidable (g.KernelCall s) :=
  inferInstanceAs (Decidable (_ ∧ _ ∧ _))

instance (o : Obs) : DecidablePred (Contract o)
  | .exception _ _ _ _ => inferInstanceAs (Decidable (_ → _))
  | .resume => .isTrue trivial
  | .complete _ _ => .isTrue trivial
  | .store _ _ => .isTrue trivial
  | .storeState _ _ => .isTrue trivial
  | .storeSupport _ _ => .isTrue trivial
  | .addressError _ _ _ _ => inferInstanceAs (Decidable (Unblocked _))

instance (o : Obs) : DecidablePred (SyscallsOk o)
  | .exception _ _ _ _ => inferInstanceAs (Decidable (_ → _))
  | .resume => .isTrue trivial
  | .complete _ _ => .isTrue trivial
  | .store _ _ => .isTrue trivial
  | .storeState _ _ => .isTrue trivial
  | .storeSupport _ _ => .isTrue trivial
  | .addressError _ _ _ _ => .isTrue trivial

instance (o : Obs) : DecidablePred (DoioAligned o)
  | .exception _ _ _ _ => inferInstanceAs (Decidable (_ → _))
  | .resume => .isTrue trivial
  | .complete _ _ => .isTrue trivial
  | .store _ _ => .isTrue trivial
  | .storeState _ _ => .isTrue trivial
  | .storeSupport _ _ => .isTrue trivial
  | .addressError _ _ _ _ => .isTrue trivial

/-- The steps of some events, if all of them can occur. -/
def Mach.play (m : Mach Heap) :
    List Event → Option (List (Mach Heap × Event × Mach Heap) × Mach Heap)
  | [] => some ([], m)
  | ev :: evs => do
    let m1 ← m.next ev
    let (tr, m') ← m1.play evs
    return ((m, ev, m1) :: tr, m')

/-- Events that can be played make a run. -/
theorem Mach.run_of_play {ok : Obs → Event → Prop} {evs : List Event} {m m' : Mach Heap}
    {tr : List (Mach Heap × Event × Mach Heap)} (h : m.play evs = some (tr, m'))
    (hok : ∀ x ∈ tr, ok x.1.obs x.2.1) : Run (Step ok) m tr m' := by
  induction evs generalizing m tr with
  | nil =>
    obtain ⟨rfl, rfl⟩ := Prod.mk.inj (Option.some.inj h)
    exact .nil
  | cons ev evs ih =>
    obtain ⟨m1, hm1, h⟩ := Option.bind_eq_some_iff.mp h
    obtain ⟨⟨tr1, m2⟩, h1, h⟩ := Option.bind_eq_some_iff.mp h
    obtain ⟨rfl, rfl⟩ := Prod.mk.inj (Option.some.inj h)
    have hrun := ih h1 fun x hx => hok x (List.mem_cons_of_mem _ hx)
    exact (Run.nil.snoc ⟨hm1, hok _ List.mem_cons_self⟩).trans hrun

/-- A run whose events can be played, with what `P` says of it. -/
theorem Mach.exists_run_of_play (ok : Obs → Event → Prop) [∀ o, DecidablePred (ok o)]
    (m : Mach Heap) (evs : List Event) {P : List (Mach Heap × Event × Mach Heap) → Mach Heap → Bool}
    (h : (m.play evs).any fun x => (x.1.all fun y => ok y.1.obs y.2.1) && P x.1 x.2) :
    ∃ tr m', Run (Step ok) m tr m' ∧ P tr m' := by
  obtain ⟨⟨tr, m'⟩, hx, h⟩ := (Option.any_eq_true _ _).mp h
  obtain ⟨hok, hP⟩ := (Bool.and_eq_true ..).mp h
  refine ⟨tr, m', run_of_play hx fun y hy => ?_, hP⟩
  exact of_decide_eq_true (List.all_eq_true.mp hok y hy)

/-! ## After boot -/

/-- The first process is alone and runs. -/
structure Booted (o : Obs) : Prop where
  exit : o.exit = .ldst 0
  act : o.k.g.actProc = some 0
  free : o.k.lists.free = (List.finRange MAXPROC).tail
  ready : ∀ q, o.k.lists.ready q = []
  blocked : ∀ s, o.k.lists.blocked s = []
  child : ∀ q, o.k.lists.child q = []
  support : (o.k.g.pcb 0).pSupportStruct = NULL
  prio : (o.k.g.pcb 0).pPrio = PROCESS_PRIO_LOW
  procs : o.k.g.procsCount = 1
  sb : o.k.g.sbProcs = 0
  sems : ∀ s, o.k.g.int (Layout.toAddresses.semAddr s) = 0
  dev : ∀ d, (o.k.g.dev d).status = READY ∧ (o.k.g.dev d).busy = false ∧ (o.k.g.dev d).intr = false

theorem Fresh.booted {k : Kernel View} (h : Fresh k) {e : Exit} {k' : Kernel View}
    (entryPoint : Word) (hd : Dispatch (k.first entryPoint) e k') : Booted ⟨k', e⟩ := by
  have hhigh : (k.first entryPoint).lists.ready .high = [] := h.ready .high
  have hlow : (k.first entryPoint).lists.ready .low = [0] := by
    change k.lists.ready .low ++ [0] = _
    rw [h.ready]
    rfl
  have hy : (Kernel.mk ((k.first entryPoint).lists.popReady .low)
      (k.first entryPoint).g).g.yieldedProc = none := h.yielded
  cases hd with
  | high hq => rw [hhigh] at hq; cases hq
  | halt hq => have := hq .low; rw [hlow] at this; cases this
  | wait hq => have := hq .low; rw [hlow] at this; cases this
  | deadlock hq => have := hq .low; rw [hlow] at this; cases this
  | low _ hq =>
    obtain ⟨rfl, rfl⟩ := List.cons.inj (hlow.symm.trans hq)
    rw [Kernel.load, flushYielded_eq hy]
    refine ⟨rfl, rfl, ?_, fun q => ?_, h.blocked, h.child, ?_, ?_, ?_, h.sb, h.sems, h.dev⟩
    · change k.lists.free.tail = _
      rw [h.free]
    · cases q with
      | high => exact h.ready .high
      | low =>
        change ((k.first entryPoint).lists.ready .low).tail = []
        rw [hlow]
        rfl
    · simp [Globals.load, Kernel.first, firstPcb]
    · simp [Globals.load, Kernel.first, firstPcb]
    · change k.g.procsCount + 1 = 1
      rw [h.procs]
      rfl

theorem boot_booted {g : Globals} (h : PowerOn g) : Booted (boot g : Mach Heap).obs := by
  rw [(boot_sim h).obs]
  obtain ⟨k, hfresh, -, hd⟩ := boot_dispatch h
  exact hfresh.booted _ hd

theorem boot_exit {g : Globals} (h : PowerOn g) : (boot g : Mach Heap).exit = .ldst 0 :=
  (boot_booted h).exit

theorem boot_current {g : Globals} (h : PowerOn g) :
    (boot g : Mach Heap).exit.current = some 0 := by
  rw [boot_exit h]
  rfl

theorem boot_live {g : Globals} (h : PowerOn g) : (boot g : Mach Heap).exit.live := by
  rw [boot_exit h]
  rfl

end Rocm
