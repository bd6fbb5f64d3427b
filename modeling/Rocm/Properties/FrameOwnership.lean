import Rocm.Proofs.Coherence
import Rocm.Properties.SupportSample

/-!
# Frames, page tables and the TLB

Every valid page is in a frame of its own and the TLB agrees with the page tables, as long as no
process loses its bit in `sp_asids`. It can lose it, because `clean_frames` changes the bits of all
processes in a load and a store with the interrupts on.
-/

namespace Rocm

open Runs

variable [Umps]

/-- The process has ended, or runs the handler of its SYS2. -/
def System.Terminating (m : System) (p : Uproc) : Prop :=
  (m.proc p).wait = .dead ∨ (m.proc p).now.isGeneral ∧ (m.mem.genState p).IsTerminate

instance (m : System) (p : Uproc) : Decidable (m.Terminating p) :=
  inferInstanceAs (Decidable (_ ∨ _ ∧ _))

/-- What holds between the page tables, the table of the swap pool and the TLB. -/
structure FramesOwned (m : System) : Prop where
  /-- A valid page is in a frame of the pool, and the entry of the frame is for this page. -/
  owned : ∀ p i, ¬ m.Terminating p → (m.mem.pte (p, i)).valid →
    ∃ f, (m.mem.pte (p, i)).entryLO &&& ENTRYLO_PFN_MASK = frameAddr f ∧
      (m.mem.spTbl f).asid = asid p ∧ (m.mem.spTbl f).pgTblEntry = (p, i)
  /-- No two valid pages are in one frame. -/
  distinct : ∀ p i q j, ¬ m.Terminating p → ¬ m.Terminating q → (m.mem.pte (p, i)).valid →
    (m.mem.pte (q, j)).valid →
    (m.mem.pte (p, i)).entryLO &&& ENTRYLO_PFN_MASK =
      (m.mem.pte (q, j)).entryLO &&& ENTRYLO_PFN_MASK → (p, i) = (q, j)
  /-- What the TLB has for a page is its entry in the page table. -/
  tlb : ∀ p i s, ¬ m.Terminating p → (m.mem.tlb s).hits (pteHi p i) →
    m.mem.tlb s = m.mem.pte (p, i)

/-- What `clean_frames` stores for a process. -/
def Did.stores : Did → Option (Uproc × BitVec 8)
  | .gave p (.act (.storeAsids v)) => some (p, v)
  | _ => none

/-- When `clean_frames` stores, it has loaded every bit of another process that is set now. -/
def BitsKept (m : System) (d : Did) : Prop :=
  ∀ x ∈ d.stores, ∀ q, q ≠ x.1 → Marked m.mem.spAsids q → Marked x.2 q

instance (m : System) (d : Did) : Decidable (BitsKept m d) :=
  Option.decidableForallMem
    (p := fun x : Uproc × BitVec 8 => ∀ q, q ≠ x.1 → Marked m.mem.spAsids q → Marked x.2 q) _

theorem pageSafe_of {m : System} {st : Uproc → Stage} {d : Did} (hin : d.InPages)
    (hkept : BitsKept m d) : PageSafe (m.abs st).paging d := by
  constructor
  · exact hin
  · rintro p v rfl
    exact hkept (p, v) rfl

/-- A process that has told the pager that it ends is in the handler of its SYS2. -/
theorem System.terminating_of_gone {m : System} {st : Uproc → Stage} {p : Uproc} (hf : m.Fits st)
    (hs : (m.abs st).Sane) (h : (m.abs st).Gone p) : m.Terminating p := by
  rcases h with h | ⟨sup, h⟩
  · exact .inl h
  · have hsane := hs p
    have hgen : (st p).gen = some (.cleaned sup) := h
    have htlb : ¬ (st p).tlb.isSome := fun hsome => hsane.not_cleaned hsome sup hgen
    have hnow := (hf p).now
    rw [if_neg htlb, hgen] at hnow
    obtain ⟨c, hc, -⟩ := hnow
    refine .inr ⟨by rw [hc]; rfl, ?_⟩
    have hterm := hsane.cleaned sup hgen
    rw [SupportT.IsTerminate, hsane.gen _ sup hgen rfl] at hterm
    exact hterm

theorem Abs.start_coherent {mem : Mem} (h : Initial mem) : (Abs.start mem).paging.Coherent := by
  obtain ⟨⟨sup, spTbl, tlb, ram, dev, flash, rfl⟩, htlb⟩ := h
  have hlocal : ∀ x, ((Mem.initSupp sup spTbl tlb ram dev flash).pte x).Local := fun x => by
    change ENTRYLO_DIRTY &&& ENTRYLO_GLOBAL = 0
    decide
  refine ⟨Mem.tables (Mem.initSupp sup spTbl tlb ram dev flash) hlocal, ⟨fun s => .inl (htlb s), fun s s' x hs _ => ?_⟩,
    fun x _ hv => ?_, fun q f _ ha => ?_, nofun, nofun⟩
  · refine absurd ?_ ((htlb s).ne_pteHi x.1 x.2)
    exact (congrArg PteEntry.entryHI hs).trans (Mem.pte_hi (Mem.initSupp sup spTbl tlb ram dev flash) _ _)
  · refine absurd hv ?_
    change ¬ decide (ENTRYLO_DIRTY &&& ENTRYLO_VALID ≠ 0) = true
    decide
  · exact absurd ha.symm (asid_ne_free q)

/-- The paging is coherent along a run in which no bit is lost. -/
theorem run_coherent {mem : Mem} {tr : List (System × UserEvent × System)} {m : System}
    (hi : Initial mem)
    (h : Run (UserStep fun m e => (m.did e).InPages ∧ BitsKept m (m.did e)) (.start mem) tr m) :
    ∃ st, m.Fits st ∧ (m.abs st).Disciplined ∧ (m.abs st).paging.Coherent :=
  (run_invariant (I := fun a => a.Disciplined ∧ a.paging.Coherent) h
    ⟨Abs.start_disciplined mem, Abs.start_coherent hi⟩
    fun _ _ _ _ _ hok _ hm hI => ⟨hm.disciplined hI.1,
      (hm.paging hI.1).coherent (pageSafe_of hok.1 hok.2) hI.2⟩).1

omit [Umps] in
theorem frameLo_pfn (f : Frame) : frameLo f &&& ENTRYLO_PFN_MASK = frameAddr f := by
  revert f
  decide

omit [Umps] in
theorem frameAddr_inj {f f' : Frame} (h : frameAddr f = frameAddr f') : f = f' := by
  revert f f'
  decide

/-- In every run in which no process loses its bit in `sp_asids`, at every moment: the valid pages
    of the processes that go on are in frames of their own, and the TLB agrees with the page
    tables. -/
theorem frames_owned {mem : Mem} {tr : List (System × UserEvent × System)} {m : System}
    (hi : Initial mem)
    (h : Run (UserStep fun m e => (m.did e).InPages ∧ BitsKept m (m.did e)) (.start mem) tr m) :
    FramesOwned m := by
  obtain ⟨st, hf, hd, hc⟩ := run_coherent hi h
  have hgone : ∀ {p}, ¬ m.Terminating p → ¬ (m.abs st).Gone p := fun hp hg =>
    hp (System.terminating_of_gone hf hd.sane hg)
  refine ⟨fun p i hp hv => ?_, fun p i q j hp hq hv hv' he => ?_, fun p i s hp hs => ?_⟩
  · obtain ⟨f, hlo, ho⟩ := hc.owned (p, i) (hgone hp) hv
    refine ⟨f, ?_, ho⟩
    rw [← frameLo_pfn, ← hlo]
    rfl
  · obtain ⟨f, hlo, -, ho⟩ := hc.owned (p, i) (hgone hp) hv
    obtain ⟨f', hlo', -, ho'⟩ := hc.owned (q, j) (hgone hq) hv'
    have hlo : (m.mem.pte (p, i)).entryLO = frameLo f := hlo
    have hlo' : (m.mem.pte (q, j)).entryLO = frameLo f' := hlo'
    rw [hlo, hlo', frameLo_pfn, frameLo_pfn] at he
    rw [← ho, ← ho', frameAddr_inj he]
  · rw [← hiOf_pageAddr] at hs
    obtain ⟨j, hj, hs⟩ := hc.mirrors.eq_of_hits hc.tables hs
    rw [hiOf_pageAddr] at hj
    rw [(pteHi_inj hj).2]
    exact hs

omit [Umps] in
/-- Two processes bring in a page, and the first one ends. -/
theorem frames_owned_two :
    letI := sampleUmps
    ∃ tr m, Run (UserStep fun m e => (m.did e).InPages ∧ BitsKept m (m.did e)) (.start sampleMem)
      tr m ∧ (m.proc 0).wait = .dead ∧ (m.mem.pte (1, 0)).valid ∧ FramesOwned m := by
  let _ := sampleUmps
  obtain ⟨tr, m, h, hP⟩ := System.exists_run_of_play
    (fun m e => (m.did e).InPages ∧ BitsKept m (m.did e)) (.start sampleMem)
    (bringInPage 0 0 0 ++ bringInPage 1 0 1 ++ beginTerminate 0 0 ++
      List.replicate 2 (stepAt 0 0))
    (P := fun _ m => (m.proc 0).wait = .dead ∧ (m.mem.pte (1, 0)).valid) (by decide +kernel)
  obtain ⟨hw, hv⟩ := of_decide_eq_true hP
  exact ⟨tr, m, h, hw, hv, frames_owned sampleMem_initial h⟩

omit [Umps] in
/-- The first process ends, and the second one brings in its first page between the load and the
    store of `clean_frames`. Sixteen pages of the third one later, the frame of the second one has
    been given away, though its page is still valid. -/
theorem frame_taken :
    letI := sampleUmps
    ∃ tr m, Run (UserStep fun m e => (m.did e).InPages) (.start sampleMem) tr m ∧
      (m.sem .spSem).up = true ∧ ¬ FramesOwned m := by
  let _ := sampleUmps
  obtain ⟨tr, m, h, hP⟩ := System.exists_run_of_play (fun m e => (m.did e).InPages)
    (.start sampleMem)
    (bringInPage 0 0 0 ++ beginTerminate 0 0 ++ bringInPage 1 0 1 ++
      List.replicate 2 (stepAt 0 0) ++
      (List.finRange 16).flatMap fun i => bringInPage 2 (i.castLE (by decide)) 2)
    (P := fun _ m => (m.sem .spSem).up = true ∧ ¬ m.Terminating 1 ∧ (m.mem.pte (1, 0)).valid ∧
      ∀ f, (m.mem.spTbl f).asid = asid 1 → (m.mem.spTbl f).pgTblEntry ≠ (1, 0))
    (by decide +kernel)
  obtain ⟨hup, hp, hv, hno⟩ := of_decide_eq_true hP
  refine ⟨tr, m, h, hup, fun hc => ?_⟩
  obtain ⟨f, -, ha, hpg⟩ := hc.owned 1 0 hp hv
  exact hno f ha hpg

end Rocm
