import Rocm.Lib.Semaphore
import Rocm.Properties.Sample

/-!
# The law of binary semaphores

From the moment it is 0 or 1 and nobody is blocked on it, a semaphore that processes use only
through PASSEREN and VERHOGEN counts the operations that are complete, and these complete in the
order in which they blocked.
-/

namespace Rocm

open Prog ProcTable Runs Semaphore

/-- The semaphore `s`. -/
def Kernel.sem (k : Kernel View) (s : Word) : Semaphore.State PcbId :=
  ⟨decide (k.g.int s ≠ 0), k.lists.blocked s⟩

/-- The semaphore is 0 or 1. -/
def Kernel.Binary (k : Kernel View) (s : Word) : Prop := k.g.int s = 0 ∨ k.g.int s = 1

/-- The operation on `s` that the running process calls for with the saved state: none where `s` is
    no word, for then the call is an address error. -/
def Globals.semCall [Layout] (g : Globals) (s : Word) : Option (PcbId × Op) :=
  match g.actProc with
  | none => none
  | some act =>
    if g.KernelCall g.biosDataPage ∧ g.biosDataPage.arg1 = s ∧ s &&& 3 = 0 then
      if g.biosDataPage.number = PASSEREN then some (act, .passeren)
      else if g.biosDataPage.number = VERHOGEN then some (act, .verhogen)
      else none
    else none

/-- The operation on `s` that an event is. -/
def Event.semCall [Layout] (o : Obs) (s : Word) : Event → Option (PcbId × Op)
  | .exception saved status pending junk => (o.k.g.enter saved status pending junk).semCall s
  | _ => none

/-- The event does not touch `s` but by a PASSEREN or a VERHOGEN: no store and no DOIO is to it. -/
def OnlyPV [Layout] (s : Word) : Event → Prop
  | .exception saved status _ junk => KernelCallOf saved status → saved.number = DOIO →
      saved.arg1 ≠ s ∧ doIoSem junk saved.arg1 ≠ s
  | .store a _ => a ≠ s
  | _ => True

instance [Layout] (s : Word) : DecidablePred (OnlyPV s)
  | .exception _ _ _ _ => inferInstanceAs (Decidable (_ → _ → _ ∧ _))
  | .store _ _ => inferInstanceAs (Decidable (_ ≠ _))
  | .resume => .isTrue trivial
  | .complete _ _ => .isTrue trivial
  | .storeState _ _ => .isTrue trivial
  | .storeSupport _ _ => .isTrue trivial
  | .addressError _ _ _ _ => .isTrue trivial

section Part

variable {k k' : Kernel View} {s : Word}

theorem sem_congr (h : k'.semPart s = k.semPart s) : k'.sem s = k.sem s := by
  simp only [Kernel.semPart, Prod.mk.injEq] at h
  rw [Kernel.sem, h.1, h.2.1, Kernel.sem]

theorem binary_congr (h : k'.semPart s = k.semPart s) (hb : k.Binary s) : k'.Binary s := by
  simp only [Kernel.semPart, Prod.mk.injEq] at h
  rwa [Kernel.Binary, h.1]

end Part

/-! ## Steps -/

/-- A step that is one of the semaphore `s`. -/
structure SemMoved (s : Word) (call : Option (PcbId × Op)) (k k' : Kernel View) : Prop where
  binary : k'.Binary s
  step : Semaphore.Step (· ∈ k'.lists.free) (k.sem s) call (k'.sem s)

section Moves

variable {k k' k'' : Kernel View} {act : PcbId} {s : Word} {r : EhAct} {e : Exit}
  {call : Option (PcbId × Op)}

theorem SemMoved.trans (h : SemMoved s call k k') (he : k''.semPart s = k'.semPart s) :
    SemMoved s call k k'' := by
  refine ⟨binary_congr he h.binary, ?_⟩
  have hstep := h.step
  rw [← sem_congr he] at hstep
  simp only [Kernel.semPart, Prod.mk.injEq] at he
  rwa [← he.2.2] at hstep

theorem SemMoved.of_semPart (he : k'.semPart s = k.semPart s) (h : SemMoved s call k' k'') :
    SemMoved s call k k'' :=
  ⟨h.binary, sem_congr he ▸ h.step⟩

/-- Some of the queue are killed. -/
theorem SemMoved.kill (hw : k.lists.Wf) (hb : k.Binary s) (S : List PcbId) :
    SemMoved s none k (k.kill S) := by
  refine ⟨hb, ?_⟩
  have hv : Semaphore.Step (· ∈ (k.kill S).lists.free) (k.sem s) none _ := .vanish
  have hq : (k.sem s).queue.filter (fun a => ¬ decide (a ∈ (k.kill S).lists.free)) =
      ((k.kill S).sem s).queue := by
    refine List.filter_congr fun a ha => ?_
    have hfree : a ∉ k.lists.free := fun hf => hw.free_blocked a hf s ha
    change decide (¬ decide (a ∈ S ++ k.lists.free) = true) = decide (a ∉ S)
    simp [hfree]
  rwa [hq] at hv

/-- Nothing happens to the semaphore but that somebody leaves the free list. -/
theorem SemMoved.quiet (hw : k.lists.Wf) (hb : k.Binary s) (hi : k'.g.int s = k.g.int s)
    (hq : k'.lists.blocked s = k.lists.blocked s) (hf : k'.lists.free ⊆ k.lists.free) :
    SemMoved s none k k' := by
  refine ⟨by rwa [Kernel.Binary, hi], ?_⟩
  have hv : Semaphore.Step (· ∈ k'.lists.free) (k.sem s) none _ := .vanish
  have hall : (k.sem s).queue.filter (fun a => ¬ decide (a ∈ k'.lists.free)) = (k.sem s).queue :=
    List.filter_eq_self.mpr fun a ha => by
      have hfree : a ∉ k'.lists.free := fun hm => hw.free_blocked a (hf hm) s ha
      simp [hfree]
  rw [hall] at hv
  have : k'.sem s = k.sem s := by rw [Kernel.sem, hi, hq, Kernel.sem]
  rwa [this]

theorem SemMoved.same (hw : k.lists.Wf) (hb : k.Binary s) (h : k'.semPart s = k.semPart s) :
    SemMoved s none k k' := by
  simp only [Kernel.semPart, Prod.mk.injEq] at h
  exact .quiet hw hb h.1 h.2.1 (h.2.2 ▸ List.Subset.refl _)

/-- The first in the queue is woken, and stays alive. -/
theorem SemMoved.wake (hw : k.lists.Wf) (hb : k.Binary s) {op : Op} {w : PcbId} {ws : List PcbId}
    (hop : (k.sem s).up ≠ op.blocksAt) (hq : k.lists.blocked s = w :: ws) :
    SemMoved s (some (act, op)) k (k.wake s w) := by
  have hqueue : (k.wake s w).lists.blocked s = ws := wake_blocked k hq
  have hfree : w ∉ (k.wake s w).lists.free := by
    change w ∉ ((k.lists.popBlocked s).enqueue w _).free
    rw [View.enqueue_free]
    exact fun hm => hw.free_blocked w hm s (by rw [hq]; exact List.mem_cons_self)
  refine ⟨hb, ?_⟩
  have hs : Semaphore.Step (· ∈ (k.wake s w).lists.free) (k.sem s) (some (act, op)) _ :=
    .wake hop hq (by simpa using hfree)
  rwa [show (k.wake s w).sem s = ⟨(k.sem s).up, ws⟩ by rw [Kernel.sem, hqueue]; rfl]

theorem SemMoved.pass {op : Op} (hop : (k.sem s).up ≠ op.blocksAt) (hq : k.lists.blocked s = [])
    {v : Word} (hv : v = 0 ∧ op = .passeren ∨ v = 1 ∧ op = .verhogen) :
    SemMoved s (some (act, op)) k (k.mapG (·.setInt s v)) := by
  have hint : (k.mapG (·.setInt s v)).g.int s = v := Function.update_self ..
  refine ⟨hv.imp (hint.trans ·.1) (hint.trans ·.1), ?_⟩
  have hs : Semaphore.Step (· ∈ (k.mapG (·.setInt s v)).lists.free) (k.sem s) (some (act, op)) _ :=
    .pass hop hq
  have hsem : (k.mapG (·.setInt s v)).sem s = ⟨op.blocksAt, []⟩ := by
    refine congrArg₂ Semaphore.State.mk ?_ hq
    rw [hint]
    rcases hv with ⟨rfl, rfl⟩ | ⟨rfl, rfl⟩ <;> decide
  rwa [hsem]

theorem SemMoved.block {op : Op} (hb : k.Binary s) (hop : (k.sem s).up = op.blocksAt) :
    SemMoved s (some (act, op)) k (k.block s act) := by
  refine ⟨hb, ?_⟩
  have hs : Semaphore.Step (· ∈ (k.block s act).lists.free) (k.sem s) (some (act, op)) _ :=
    .block hop
  have hsem : (k.block s act).sem s = ⟨(k.sem s).up, (k.sem s).queue ++ [act]⟩ :=
    congrArg₂ Semaphore.State.mk rfl (Function.update_self ..)
  rwa [hsem]

theorem up_ne_of_int_ne_zero (h : k.g.int s ≠ 0) : (k.sem s).up ≠ Op.passeren.blocksAt := by
  rw [Kernel.sem, decide_eq_true h]
  exact Bool.noConfusion

theorem up_ne_of_int_ne_one (hb : k.Binary s) (h : k.g.int s ≠ 1) :
    (k.sem s).up ≠ Op.verhogen.blocksAt := by
  simp [Kernel.sem, hb.resolve_right h, Op.blocksAt]

/-- A P of the running process. -/
theorem PStep.semMoved (hw : k.lists.Wf) (hb : k.Binary s) (hp : PStep s act k r k') :
    SemMoved s (some (act, .passeren)) k k' := by
  cases hp with
  | block hz => exact .block hb (by simp [Kernel.sem, hz, Op.blocksAt])
  | wake hne hq => exact .wake hw hb (up_ne_of_int_ne_zero hne) hq
  | take hne hq => exact .pass (up_ne_of_int_ne_zero hne) hq (.inl ⟨rfl, rfl⟩)

/-- A V of the running process. -/
theorem VStep.semMoved {w : Option PcbId} (hw : k.lists.Wf) (hb : k.Binary s)
    (hact : k.g.actProc = some act) (hv : VStep s k w k') :
    SemMoved s (some (act, .verhogen)) k k' := by
  cases hv with
  | idle _ hn => rw [hact] at hn; cases hn
  | block hone ha =>
    obtain rfl : act = _ := Option.some.inj (hact.symm.trans ha)
    exact .block hb (by simp [Kernel.sem, hone, Op.blocksAt])
  | wake hne hq => exact .wake hw hb (up_ne_of_int_ne_one hb hne) hq
  | give hne hq => exact .pass (up_ne_of_int_ne_one hb hne) hq (.inr ⟨rfl, rfl⟩)

variable [Layout]

theorem semCall_none {g : Globals} (h : ¬ g.KernelCall g.biosDataPage ∨
      (g.biosDataPage.number ≠ PASSEREN ∧ g.biosDataPage.number ≠ VERHOGEN) ∨
      ¬ (g.biosDataPage.arg1 = s ∧ s &&& 3 = 0)) : g.semCall s = Option.none := by
  unfold Globals.semCall
  split
  · rfl
  · rcases h with h | ⟨hp, hv⟩ | h
    · rw [if_neg fun hc => h hc.1]
    · rw [if_neg hp, if_neg hv, ite_self]
    · rw [if_neg fun hc => h hc.2]

theorem semCall_some {g : Globals} (hact : g.actProc = some act)
    (hcall : g.KernelCall g.biosDataPage) (ha : g.biosDataPage.arg1 = s) (hal : s &&& 3 = 0) :
    (g.biosDataPage.number = PASSEREN → g.semCall s = some (act, .passeren)) ∧
      (g.biosDataPage.number = VERHOGEN → g.semCall s = some (act, .verhogen)) := by
  unfold Globals.semCall
  rw [hact]
  dsimp only
  rw [if_pos ⟨hcall, ha, hal⟩]
  refine ⟨fun hn => if_pos hn, fun hn => ?_⟩
  rw [hn, if_neg (by decide), if_pos rfl]

/-- The calls of the running process on `s`. -/
theorem SysOutcome.semMoved (hw : k.lists.Wf) (hb : k.Binary s)
    (hs : ¬ Layout.toAddresses.IsSem s) (hact : k.g.actProc = some act)
    (hcall : k.g.KernelCall k.g.biosDataPage)
    (hdo : k.g.biosDataPage.number = DOIO → k.g.biosDataPage.arg1 ≠ s ∧
      doIoSem k.g.junk k.g.biosDataPage.arg1 ≠ s)
    (ho : SysOutcome k act k.g.biosDataPage r k') : SemMoved s (k.g.semCall s) k k' := by
  have hno : ∀ n, k.g.biosDataPage.number = n → n ≠ PASSEREN ∧ n ≠ VERHOGEN →
      k.g.semCall s = Option.none := fun n hn hne => semCall_none (.inr (.inl (hn ▸ hne)))
  cases ho with
  | @value v hv =>
    have hnone : k.g.semCall s = Option.none := by
      refine semCall_none (.inr (.inl ?_))
      constructor <;> rintro e <;>
        rw [Globals.sysResult, e, if_neg (by decide), if_neg (by decide), if_neg (by decide)] at hv <;>
        cases hv
    rw [hnone]
    exact .same hw hb rfl
  | full hn =>
    rw [hno _ hn (by decide)]
    exact .same hw hb rfl
  | create hn hf =>
    rw [hno _ hn (by decide)]
    refine .quiet hw hb rfl ?_ ?_
    · exact congrFun View.enqueue_blocked s
    · change (((k.lists.popFree).pushChild _ _).enqueue _ _).free ⊆ _
      rw [View.enqueue_free]
      exact List.tail_subset _
  | terminate hn =>
    rw [hno _ hn (by decide)]
    exact .kill hw hb _
  | passeren hn hal _ hp =>
    by_cases ha : k.g.biosDataPage.arg1 = s
    · rw [(semCall_some hact hcall ha (ha ▸ hal)).1 hn]
      exact (ha ▸ hp).semMoved hw hb
    · rw [semCall_none (.inr (.inr fun h => ha h.1))]
      exact .same hw hb (hp.semPart (Ne.symm ha))
  | verhogen hn hal _ hv =>
    by_cases ha : k.g.biosDataPage.arg1 = s
    · rw [(semCall_some hact hcall ha (ha ▸ hal)).2 hn]
      exact (ha ▸ hv).semMoved hw hb hact
    · rw [semCall_none (.inr (.inr fun h => ha h.1))]
      exact .same hw hb (hv.semPart (Ne.symm ha))
  | doio hn _ _ _ _ hp =>
    obtain ⟨ha, hsem⟩ := hdo hn
    rw [hno _ hn (by decide)]
    refine .same hw hb (Eq.trans ?_ (hp.semPart (Ne.symm hsem)))
    refine congrArg₂ Prod.mk ?_ rfl
    change (Globals.storeWord _ _ _).int s = _
    unfold Globals.storeWord
    split
    · rfl
    · exact setInt_int_ne (Ne.symm ha)
  | clockwait hn hp =>
    rw [hno _ hn (by decide)]
    exact .same hw hb (hp.semPart fun e => hs (e ▸ Layout.toAddresses.isSem_semAddr .it))
  | yield hn =>
    rw [hno _ hn (by decide)]
    exact .same hw hb rfl
  | unknown hn =>
    have hnone : k.g.semCall s = Option.none := by
      refine semCall_none (.inr (.inl ?_))
      constructor <;> rintro e <;> exact hn (by rw [e]; decide)
    rw [hnone]
    exact .kill hw hb _

/-- What the handler of an exception does to `s`. -/
theorem Outcome.semMoved (hw : k.lists.Wf) (hb : k.Binary s) (hs : ¬ Layout.toAddresses.IsSem s)
    (hdo : k.g.KernelCall k.g.biosDataPage → k.g.biosDataPage.number = DOIO →
      k.g.biosDataPage.arg1 ≠ s ∧ doIoSem k.g.junk k.g.biosDataPage.arg1 ≠ s)
    (ho : Outcome k r k') : SemMoved s (k.g.semCall s) k k' := by
  have hint : k.g.IntTaken → k.g.semCall s = Option.none := fun hi =>
    semCall_none (.inl fun hc => not_intTaken hc hi)
  have htrap : k.g.TrapTaken → k.g.semCall s = Option.none := fun ht => semCall_none (.inl ht.2)
  have hne : ∀ sem, s ≠ Layout.toAddresses.semAddr sem := fun sem =>
    (ne_of_not_isSem hs sem).symm
  cases ho with
  | slice hi =>
    rw [hint hi]
    exact .same hw hb rfl
  | tick hi =>
    rw [hint hi]
    refine .same hw hb (Eq.trans ?_ (wakeAll_semPart (hne .it) (k.lists.blocked
      (Layout.toAddresses.semAddr .it)) (k := k.mapG fun g => { g with intervalTimer := PSECOND })))
    exact congrArg₂ Prod.mk ((setInt_int_ne (hne .it)).trans (setInt_int_ne (hne .it))) rfl
  | @served d w k1 hi _ hv =>
    rw [hint hi]
    refine .same hw hb (Eq.trans ?_ (hv.semPart (hne (.dev d))))
    exact congrArg₂ Prod.mk (congrFun (deliver_int _ _ _) s) rfl
  | unserved hi =>
    rw [hint hi]
    exact .same hw hb rfl
  | spurious h =>
    rw [h.elim (fun h => hint h.1) fun h => htrap h.1]
    exact .same hw hb rfl
  | sys hact hcall ho => exact (ho.semMoved hw hb hs hact hcall (hdo hcall)).trans rfl
  | @die act f S ht =>
    rw [htrap ht]
    have hk := SemMoved.kill (k := k.mapG (·.setPS act f)) hw hb S
    exact ⟨hk.binary, hk.step⟩

/-- An exception that is not answered does nothing to `s`. -/
theorem EarlyExit.semMoved (hw : k.lists.Wf) (hb : k.Binary s)
    (hdo : k.g.KernelCall k.g.biosDataPage → k.g.biosDataPage.number = DOIO →
      k.g.biosDataPage.arg1 ≠ s ∧ doIoSem k.g.junk k.g.biosDataPage.arg1 ≠ s)
    (he : EarlyExit k e k') : SemMoved s (k.g.semCall s) k k' := by
  have htrap : k.g.TrapTaken → k.g.semCall s = Option.none := fun ht => semCall_none (.inl ht.2)
  cases he with
  | trap ht =>
    rw [htrap ht]
    exact .same hw hb rfl
  | user ht =>
    rw [htrap ht]
    exact .same hw hb rfl
  | sys _ hcall he =>
    cases he with
    | passUp hn =>
      rw [semCall_none (.inr (.inl ⟨fun e => hn (by rw [e]; decide), fun e =>
        hn (by rw [e]; decide)⟩))]
      exact .same hw hb rfl
    | rangeP hn hz ho =>
      rw [semCall_none (.inr (.inr fun h => by
        rw [h.1] at hz ho
        exact hb.elim hz ho))]
      exact .same hw hb rfl
    | rangeV hn hz ho =>
      rw [semCall_none (.inr (.inr fun h => by
        rw [h.1] at hz ho
        exact hb.elim hz ho))]
      exact .same hw hb rfl
    | doIoNull hn =>
      rw [semCall_none (.inr (.inl (hn ▸ by decide)))]
      exact .same hw hb rfl
    | sem _ hmis =>
      rw [semCall_none (.inr (.inr fun h => hmis (h.1 ▸ h.2)))]
      exact .same hw hb rfl
    | doioSem hn =>
      rw [semCall_none (.inr (.inl (hn ▸ by decide)))]
      exact .same hw hb rfl
    | doio hn _ _ hp =>
      rw [semCall_none (.inr (.inl (hn ▸ by decide)))]
      exact .same hw hb (hp.semPart (Ne.symm (hdo hcall hn).2))

end Moves

/-! ## Runs -/

section Runs

variable [Layout] {m m' m0 : Mach Heap} {tr tr0 : List (Mach Heap × Event × Mach Heap)} {s : Word}
  {ev : Event}

/-- What the steps have done to `s`. -/
def semHistory (s : Word) (tr : List (Mach Heap × Event × Mach Heap)) : History PcbId :=
  tr.foldl (fun h x => h.observe (x.2.2.obs.k.lists.blocked s)
    (fun p => decide (p ∈ x.2.2.obs.k.lists.free)) (x.2.1.semCall x.1.obs s)) .empty

theorem caught_semCall (k : Kernel View) (saved : ProcState) (status junk : Word)
    (pending : Fin 3 → Bool) : (k.caught saved status pending junk).g.semCall s =
      (k.g.enter saved status pending junk).semCall s := by
  rw [Kernel.caught, mapG_g, save_eq]
  rfl

theorem Handled.semMoved {k k' : Kernel View} {e : Exit} {saved : ProcState} {status junk : Word}
    {pending : Fin 3 → Bool} (hw : k.lists.Wf) (hb : k.Binary s) (hns : ¬ Layout.toAddresses.IsSem s)
    (hdo : (k.g.enter saved status pending junk).KernelCall saved → saved.number = DOIO →
      saved.arg1 ≠ s ∧ doIoSem junk saved.arg1 ≠ s)
    (hh : Handled (k.mapG (·.enter saved status pending junk)) e k') :
    SemMoved s ((k.g.enter saved status pending junk).semCall s) k k' := by
  have hb' : (k.caught saved status pending junk).Binary s := by rwa [Kernel.Binary, caught_int]
  have hpart : (k.caught saved status pending junk).semPart s = k.semPart s :=
    congrArg₂ Prod.mk (congrFun caught_int s) rfl
  have hdo' : (k.caught saved status pending junk).g.KernelCall
      (k.caught saved status pending junk).g.biosDataPage →
      (k.caught saved status pending junk).g.biosDataPage.number = DOIO →
      (k.caught saved status pending junk).g.biosDataPage.arg1 ≠ s ∧
        doIoSem (k.caught saved status pending junk).g.junk
          (k.caught saved status pending junk).g.biosDataPage.arg1 ≠ s := by
    rw [caught_biosDataPage, caught_junk]
    intro hcall
    refine hdo ⟨hcall.1, ?_, hcall.2.2⟩
    have hkup := hcall.2.1
    rwa [Kernel.caught, mapG_g, save_cpuStatus] at hkup
  rw [← caught_semCall]
  refine SemMoved.of_semPart hpart ?_
  cases hh with
  | exit he => exact EarlyExit.semMoved (k := k.caught saved status pending junk) hw hb' hdo' he
  | finish ho hfin =>
    exact (Outcome.semMoved (k := k.caught saved status pending junk) hw hb' hns hdo' ho).trans
      hfin.semPart

/-- A step is one of the semaphore, and a caller is not in its queue. -/
theorem Reached.semMoved (hr : Reached m) (hs : Step Contract m ev m')
    (hns : ¬ Layout.toAddresses.IsSem s) (hpv : OnlyPV s ev) (hb : m.obs.k.Binary s) :
    SemMoved s (ev.semCall m.obs s) m.obs.k m'.obs.k := by
  have hnext := (hr.next hs).1
  have hw := (hnext.poised hr.good hs.2).wf
  generalize hm : m.obs = o at hb hnext hw
  generalize hm' : m'.obs = o' at hnext
  cases hnext with
  | exception _ hh => exact hh.semMoved hw hb hns hpv
  | resume _ hd => exact .same hw hb hd.semPart
  | complete => exact .same hw hb rfl
  | store => exact .same hw hb (setInt_semPart hpv.symm _)
  | storeState => exact .same hw hb rfl
  | storeSupport => exact .same hw hb rfl
  | @addressError saved status pending junk _ _ _ herr hh =>
    have hmove := hh.semMoved hw hb hns fun hcall => absurd hcall herr.not_kernelCall
    rwa [semCall_none (.inl herr.not_kernelCall)] at hmove

/-- Whoever calls for an operation is not in the queue. -/
theorem Reached.notMem_queue (hr : Reached m) (hs : Step Contract m ev m') {p : PcbId} {op : Op}
    (hc : ev.semCall m.obs s = some (p, op)) : p ∉ m.obs.k.lists.blocked s := by
  cases ev with
  | exception saved status pending junk =>
    change (m.obs.k.g.enter saved status pending junk).semCall s = _ at hc
    unfold Globals.semCall at hc
    split at hc
    · cases hc
    · next act hact =>
      obtain rfl : act = p := by
        split at hc
        · split at hc
          · exact (Prod.mk.inj (Option.some.inj hc)).1
          · split at hc
            · exact (Prod.mk.inj (Option.some.inj hc)).1
            · cases hc
        · cases hc
      exact (((hr.next hs).1.poised hr.good hs.2).loose act hact).2.2 s
  | _ => cases hc

/-- From a moment at which `s` is 0 or 1 and nobody is blocked on it, and as long as it is used
    only through PASSEREN and VERHOGEN: it stays 0 or 1, obeys the law of binary semaphores, and
    a step wakes at most one of those blocked on it. -/
theorem binary_semaphore_law {g : Globals} (hg : PowerOn g) (h0 : Execution g tr0 m0)
    (hns : ¬ Layout.toAddresses.IsSem s) (hb : m0.obs.k.Binary s)
    (hq : m0.obs.k.lists.blocked s = []) (h : Run (Step Contract) m0 tr m)
    (hpv : ∀ x ∈ tr, OnlyPV s x.2.1) :
    m.obs.k.Binary s ∧ Law (m0.obs.k.sem s).up (m.obs.k.sem s) (semHistory s tr) ∧
      ∀ ev m', Step Contract m ev m' → OnlyPV s ev →
        ((semHistory s tr).wakes (m'.obs.k.lists.blocked s)
          fun p => decide (p ∈ m'.obs.k.lists.free)).length ≤ 1 := by
  have hr : ∀ {tr m}, Run (Step Contract) m0 tr m → Reached m := fun h =>
    h.invariant (h0.reached hg) fun ha hs => (ha.next hs).2
  suffices hlaw : m.obs.k.Binary s ∧ Law (m0.obs.k.sem s).up (m.obs.k.sem s) (semHistory s tr) by
    refine ⟨hlaw.1, hlaw.2, fun ev m' hs hpv' => ?_⟩
    exact hlaw.2.wakes_le ((hr h).semMoved hs hns hpv' hlaw.1).step
  induction h with
  | nil => exact ⟨hb, .start hq⟩
  | @snoc tr m ev m' hrun hs ih =>
    simp only [List.mem_append, List.mem_singleton, or_imp, forall_and, forall_eq] at hpv
    obtain ⟨hbin, hlaw⟩ := ih hpv.1
    have hmove := (hr hrun).semMoved hs hns hpv.2 hbin
    refine ⟨hmove.binary, ?_⟩
    rw [semHistory, List.foldl_append]
    have hpoised := ((hr hrun).next hs).1.poised (hr hrun).good hs.2
    exact hlaw.step (hpoised.wf.blocked_nodup s) (fun a op hc => (hr hrun).notMem_queue hs hc)
      hmove.step

end Runs

theorem binary_semaphore_law_killedWaiter :
    letI := sampleLayout
    ∃ tr m, Execution sampleGlobals tr m ∧
      ((semHistory 0x20030000 tr).woken.map (·.who) = [1] ∧
        (semHistory 0x20030000 tr).pending.map (·.who) = [3] ∧ 2 ∈ m.obs.k.lists.free) ∧
      m.obs.k.Binary 0x20030000 ∧
      Law ((boot sampleGlobals : Mach Heap).obs.k.sem 0x20030000).up (m.obs.k.sem 0x20030000)
        (semHistory 0x20030000 tr) ∧
      ∀ ev m', Step Contract m ev m' → OnlyPV 0x20030000 ev →
        ((semHistory 0x20030000 tr).wakes (m'.obs.k.lists.blocked 0x20030000)
          fun p => decide (p ∈ m'.obs.k.lists.free)).length ≤ 1 := by
  let _ := sampleLayout
  have hb : (boot sampleGlobals : Mach Heap).k.g.int 0x20030000 = 0 := by decide +kernel
  have hs : ¬ sampleAddresses.IsSem 0x20030000 := by decide +kernel
  obtain ⟨tr, m, htr, hP⟩ := Mach.exists_run_of_play Contract (boot sampleGlobals) killedWaiter
    (P := fun tr m => decide ((∀ x ∈ tr, OnlyPV 0x20030000 x.2.1) ∧
      (semHistory 0x20030000 tr).woken.map (·.who) = [1] ∧
      (semHistory 0x20030000 tr).pending.map (·.who) = [3] ∧ 2 ∈ m.obs.k.lists.free))
    (by decide +kernel)
  obtain ⟨hpv, hhist⟩ := of_decide_eq_true hP
  exact ⟨tr, m, htr, hhist, binary_semaphore_law sampleGlobals_powerOn .nil hs (.inl hb)
    ((boot_booted sampleGlobals_powerOn).blocked _) htr hpv⟩

/-- A child is killed while the descriptor of a disk names it; the next child, in the same PCB, does a
    PASSEREN on a semaphore that is 0, its parent a DOIO on the disk, and the disk interrupts. -/
def stolenWaiter : List Event :=
  lostDescriptor (.dtp 0 0) ++ [createLowEvent, sliceEvent, sysEvent PASSEREN 0x20030000 0 0,
    sysEvent DOIO (SubDev.dtp 0 0).commandAddr 2 0, .complete (.dtp 0 0) READY,
    .exception intState 0 (fun _ => false) 0]

/-- The interrupt completes the PASSEREN, and nobody has done a VERHOGEN. -/
theorem passeren_without_verhogen :
    letI := sampleLayout
    ∃ tr, ∃ m : Mach Heap, Run (Step SyscallsOk) (boot sampleGlobals) tr m ∧
      (∀ x ∈ tr, OnlyPV 0x20030000 x.2.1) ∧
      (boot sampleGlobals : Mach Heap).obs.k.Binary 0x20030000 ∧
      (boot sampleGlobals : Mach Heap).obs.k.lists.blocked 0x20030000 = [] ∧ m.exit = .ldst 1 ∧
      (semHistory 0x20030000 tr).completed .passeren = 1 ∧
      (semHistory 0x20030000 tr).completed .verhogen = 0 ∧
      ¬ Law ((boot sampleGlobals : Mach Heap).obs.k.sem 0x20030000).up (m.obs.k.sem 0x20030000)
        (semHistory 0x20030000 tr) := by
  let _ := sampleLayout
  have hb : (boot sampleGlobals : Mach Heap).k.g.int 0x20030000 = 0 := by decide +kernel
  obtain ⟨tr, m, hrun, hP⟩ := Mach.exists_run_of_play SyscallsOk (boot sampleGlobals) stolenWaiter
    (P := fun tr m => decide ((∀ x ∈ tr, OnlyPV 0x20030000 x.2.1) ∧ m.exit = .ldst 1 ∧
      (semHistory 0x20030000 tr).completed .passeren = 1 ∧
      (semHistory 0x20030000 tr).completed .verhogen = 0 ∧
      ((boot sampleGlobals : Mach Heap).obs.k.sem 0x20030000).up = false)) (by decide +kernel)
  obtain ⟨hpv, he, hpass, hver, hdown⟩ := of_decide_eq_true hP
  refine ⟨tr, m, hrun, hpv, .inl hb, (boot_booted sampleGlobals_powerOn).blocked _, he, hpass, hver,
    fun hlaw => ?_⟩
  have hcount := hlaw.count
  rw [hpass, hver, hdown] at hcount
  exact absurd hcount (Nat.succ_ne_zero _)

end Rocm
