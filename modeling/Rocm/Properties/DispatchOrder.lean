import Rocm.Properties.Scheduler
import Rocm.Refine.Logged

/-!
# The order of dispatching

`scheduler_next` takes from the low queue only when the high queue is empty, and from each queue the
process that was inserted the longest ago. A process that calls YIELD lets another one go first and is
inserted behind all that are ready.
-/

namespace Rocm

open Prog ProcTable Runs

/-- `p` has been dispatched in its turn, with `log` the insertions into the ready queues so far: it
    was the first in its queue, and the one whose last insertion is the oldest. -/
def InTurn (k : Kernel View) (log : List (Queue × PcbId)) (p : PcbId) : Prop :=
  ∃ q ps, k.lists.ready q = p :: ps ∧ (q = .low → k.lists.ready .high = []) ∧
    ∀ p' ∈ ps, since log (q, p) < since log (q, p')

/-- `y`, which ran in `o`, has yielded the processor. -/
structure Yields (y : PcbId) (o o' : Obs) : Prop where
  /-- Another process is dispatched if one is ready. -/
  other : (∃ q, o.k.lists.ready q ≠ []) → ∃ p, o'.exit = .ldst p ∧ p ≠ y
  /-- It re-enters its own queue behind all that are ready. -/
  behind : ∀ p, o'.exit = .ldst p → ∃ q : Queue, (o.k.g.pcb y).pPrio = q.prio ∧
    o'.k.lists.ready q = (o.k.lists.ready q).erase p ++ [y]

variable [Layout]

section Turn

variable {k k' : Kernel View} {p : PcbId} {log : List (Queue × PcbId)}

theorem Dispatch.inTurn (hd : Dispatch k (.ldst p) k') (ho : InOrder k.lists.ready log) :
    InTurn k log p := by
  have hfirst : ∀ {q ps}, k.lists.ready q = p :: ps →
      ∀ p' ∈ ps, since log (q, p) < since log (q, p') := by
    intro q ps hq
    have hord := ho q
    rw [hq] at hord
    exact (List.pairwise_cons.mp hord).1
  cases hd with
  | high hq => exact ⟨_, _, hq, nofun, hfirst hq⟩
  | low hh hq => exact ⟨_, _, hq, fun _ => hh, hfirst hq⟩

/-- The process that has yielded goes behind all that are ready. -/
theorem ready_load {y : PcbId} {q q' : Queue} {ps : List PcbId} (hw : k.lists.Wf)
    (hy : k.g.yieldedProc = some y) (hprio : (k.g.pcb y).pPrio = q'.prio)
    (hq : k.lists.ready q = p :: ps) :
    (Kernel.load ⟨k.lists.popReady q, k.g⟩ p).lists.ready q' =
      (k.lists.ready q').erase p ++ [y] := by
  have hmem : p ∈ k.lists.ready q := by rw [hq]; exact List.mem_cons_self
  have hpop : (k.lists.popReady q).ready q' = (k.lists.ready q').erase p := by
    change Function.update k.lists.ready q (k.lists.ready q).tail q' = _
    rw [Function.update_apply]
    split
    · next e => rw [e, hq, List.erase_cons_head, List.tail_cons]
    · next e =>
      rw [List.erase_of_not_mem fun h => e (hw.ready_unique p q' q h hmem)]
  change (Kernel.flushYielded ⟨k.lists.popReady q, k.g⟩).lists.ready q' = _
  unfold Kernel.flushYielded
  rw [show (Kernel.mk (k.lists.popReady q) k.g).g.yieldedProc = some y from hy]
  dsimp only
  rw [View.enqueue_ready, if_pos hprio, hpop]

theorem Dispatch.yields {y : PcbId} {o : Obs} {e : Exit} (hd : Dispatch k e k') (hw : k.lists.Wf)
    (hloose : k.lists.Loose y) (hy : k.g.yieldedProc = some y) (hl : k.lists = o.k.lists)
    (hprio : (k.g.pcb y).pPrio = (o.k.g.pcb y).pPrio)
    (hq : ∃ q : Queue, (o.k.g.pcb y).pPrio = q.prio) : Yields y o ⟨k', e⟩ := by
  obtain ⟨q', hq'⟩ := hq
  have hne : ∀ {q p ps}, k.lists.ready q = p :: ps → p ≠ y := by
    rintro q p ps hq rfl
    exact hloose.2.1 q (by rw [hq]; exact List.mem_cons_self)
  have hempty : (∀ q, k.lists.ready q = []) → (∃ q, o.k.lists.ready q ≠ []) → False :=
    fun hall ⟨q, hq⟩ => hq (hl ▸ hall q)
  have hload : ∀ {q p ps}, k.lists.ready q = p :: ps →
      Yields y o ⟨Kernel.load ⟨k.lists.popReady q, k.g⟩ p, .ldst p⟩ := by
    intro q p ps hq
    refine ⟨fun _ => ⟨p, rfl, hne hq⟩, fun p' he => ⟨q', hq', ?_⟩⟩
    obtain rfl : p = p' := by cases he; rfl
    rw [← hl]
    exact ready_load hw hy (hprio.trans hq') hq
  cases hd with
  | high hq => exact hload hq
  | low _ hq => exact hload hq
  | halt hall => exact ⟨fun h => (hempty hall h).elim, nofun⟩
  | wait hall => exact ⟨fun h => (hempty hall h).elim, nofun⟩
  | deadlock hall => exact ⟨fun h => (hempty hall h).elim, nofun⟩

/-- What a YIELD does. -/
theorem SysOutcome.of_yield {s : ProcState} {r : EhAct} (h : SysOutcome k p s r k')
    (hn : s.number = YIELD) :
    r = .nothing ∧ k' = k.mapG fun g => { g with yieldedProc := some p } := by
  cases h with
  | value hv =>
    rw [Globals.sysResult, hn, if_neg (by decide), if_neg (by decide), if_neg (by decide)] at hv
    cases hv
  | full h | create h | terminate h | passeren h | verhogen h | doio h | clockwait h =>
    exact absurd (h.symm.trans hn) (by decide)
  | yield => exact ⟨rfl, rfl⟩
  | unknown h => exact absurd (by rw [hn]; decide) h

/-- The process whose exception is a YIELD yields. -/
theorem Reached.yields {m : Mach Heap} (hr : Reached m) (hact : ActPrio m.obs.k) {y : PcbId}
    (hy : m.exit.current = some y) {saved : ProcState} {status : Word}
    (hcall : KernelCallOf saved status) (hn : saved.number = YIELD) (pending : Fin 3 → Bool)
    (junk : Word) : ∃ m', m.next (.exception saved status pending junk) = some m' ∧
      Yields y m.obs m'.obs := by
  have hne : ∀ {w}, saved.number = w → w ≠ YIELD → False := fun h hw => hw (h ▸ hn)
  have hok : CallOk m.obs.k junk saved :=
    ⟨fun h => (hne h (by decide)).elim,
      fun h => h.elim (fun h => (hne h (by decide)).elim) fun h => (hne h (by decide)).elim,
      fun h => (hne h (by decide)).elim⟩
  have hst := hr.good.stable (live_of_current hy)
  have hcur : m.obs.k.g.actProc = some y := hst.current.trans hy
  obtain ⟨m', hm', -, hx | ⟨r, k1, hs, hf⟩⟩ := hr.kernelCall hy hcall pending hok
  · have hnum := hx.number
    rw [hn] at hnum
    exact absurd hnum (by decide)
  · obtain ⟨rfl, rfl⟩ := hs.of_yield hn
    refine ⟨m', hm', ?_⟩
    have hcaught : (m.obs.k.caught saved status pending junk).g.actProc = some y := by
      rw [caught_actProc, hcur]
    cases hf with
    | none ha => exact absurd (ha.symm.trans hcaught) (by simp)
    | @nothing p _ _ _ ha _ _ hd =>
      obtain rfl : y = p := Option.some.inj (hcaught.symm.trans ha)
      refine hd.yields hst.wf (hst.loose y hcur) rfl rfl ?_ (hact y hcur)
      rw [mapG_g, age_prio, mapG_g, setPS_prio]
      exact caught_sameTags.prio y

end Turn

/-! ## Every run has a log -/

section Log

variable {D : Type} [ProcTable D]

omit [Layout] in
theorem erased_abs {k : Kernel (Logged D)} {k' : Kernel D} (h : Erased k k') : k.abs = k'.abs := by
  rw [← h]
  rfl

omit [Layout] in
theorem erased_obs {m : Mach (Logged D)} {m' : Mach D} (h : MRel Erased m m') : m.obs = m'.obs :=
  congrArg₂ Mach.mk (erased_abs h.sim) h.exit

theorem erased_init : Same (Erased (D := D)) initDataStructures initDataStructures :=
  .bind (erased_lift _) fun _ => .bind (erased_lift _) fun _ =>
    .bind (.bind (same_modifyG _) fun _ => .bind (erased_lift _) fun _ => erased_lift _)
      fun _ => .bind (same_modifyG _) fun _ => same_modifyG _

theorem erased_mainPrefix : Same (Erased (D := D)) mainPrefix mainPrefix :=
  .bind erased_init fun _ => same_startFirst

omit [Layout] in
theorem erased_uninit (g : Globals) : Erased (⟨uninit, g⟩ : Kernel (Logged D)) ⟨uninit, g⟩ := rfl

theorem erased_boot {g : Globals} (hex : (boot g : Mach D).exit ≠ .misuse) :
    MRel Erased (boot g : Mach (Logged D)) (boot g : Mach D) := by
  have hmain : Same (Erased (D := D)) main main := by
    rw [main_eq, main_eq]
    exact .bind erased_mainPrefix fun _ => .bind same_schedulerNext fun _ => same_PANIC _
  rw [boot] at hex ⊢
  rw [boot]
  exact runTo_sim hmain (erased_uninit g) hex

/-- Every run of the nucleus is a run of the nucleus with a log. -/
theorem Execution.logged {g : Globals} (hg : PowerOn g)
    {tr : List (Mach Heap × Event × Mach Heap)} {m : Mach Heap} (h : Execution g tr m) :
    ∃ tr' m', Run (Step Contract) (boot g : Mach (Logged Heap)) tr' m' ∧ MRel Erased m' m := by
  obtain ⟨tr', m', hrun, hR, -⟩ := h.simulate (Step Contract)
    (R := fun m m' => Reached m ∧ MRel Erased m' m) ⟨boot_reached hg, erased_boot (boot_reached hg).good.not_misuse⟩ (by
      rintro a e b a' ⟨hr, hR⟩ hs
      have hr' := (hr.next hs).2
      obtain ⟨b', hb', hR'⟩ := hR.next hr'.good hs.1
      exact ⟨b', ⟨hb', (erased_obs hR).symm ▸ hs.2⟩, hr', hR'⟩)
  exact ⟨tr', m', hrun, hR.2⟩

omit [Layout] [ProcTable D] in
/-- A program that returns does so with a log. -/
theorem Same.logged {α : Type} {m : KM (Logged D) α} {m' : KM D α} (h : Same Erased m m')
    {k : Kernel (Logged D)} {k' t : Kernel D} (hk : Erased k k') {a : α} (ht : m' k' = .ok a t) :
    ∃ log, m k = .ok a (t.withLog log) := by
  have h := h k k' hk
  rw [ht] at h
  obtain ⟨s, hs, rfl⟩ := h
  exact ⟨s.lists.log, hs⟩

theorem SchedulerCall.logged {g : Globals} (hg : PowerOn g) {k : Kernel Heap}
    (h : SchedulerCall g k) : ∃ log, SchedulerCall g (k.withLog log) := by
  cases h with
  | boot hk =>
    obtain ⟨log, hlog⟩ := Same.logged erased_mainPrefix (k := ⟨uninit, g⟩) rfl hk
    exact ⟨log, .boot hlog⟩
  | @resume tr m hrun he =>
    obtain ⟨tr', m', hrun', hR⟩ := Execution.logged hg hrun
    have hk : m'.k = m.k.withLog m'.k.lists.log := by
      rw [← show m'.k.erase = m.k from hR.sim]
      rfl
    exact ⟨m'.k.lists.log, hk ▸ .resume hrun' (hR.exit.trans he)⟩
  | @exception tr m k saved status pending junk hrun hcan hc hk =>
    obtain ⟨tr', m', hrun', hR⟩ := Execution.logged hg hrun
    obtain ⟨log, hlog⟩ := Same.logged same_handlerPrefix
      (KillRel.mapG hR.sim (·.enter saved status pending junk)) hk
    exact ⟨log, .exception hrun' (hR.exit ▸ hcan) (erased_obs hR ▸ hc) hlog⟩
  | @addressError tr m k saved status pending junk hrun he herr hc hk =>
    obtain ⟨tr', m', hrun', hR⟩ := Execution.logged hg hrun
    obtain ⟨log, hlog⟩ := Same.logged same_handlerPrefix
      (KillRel.mapG hR.sim (·.enter saved status pending junk)) hk
    exact ⟨log, .addressError hrun' (hR.exit.trans he) herr (erased_obs hR ▸ hc) hlog⟩

end Log

/-- In a run that keeps the contract, whenever `scheduler_next` dispatches a process it is its turn,
    in the order of the insertions into the ready queues that the run has made; and whenever a
    process calls YIELD it yields. -/
theorem dispatched_in_turn {g : Globals} (hg : PowerOn g) :
    (∀ (k : Kernel Heap) p, SchedulerCall g k → (runTo schedulerNext k).exit = .ldst p →
      (∃ log, SchedulerCall g (k.withLog log)) ∧
        ∀ log, SchedulerCall g (k.withLog log) → InTurn k.abs log p) ∧
    ∀ tr (m : Mach Heap) y saved status pending junk, Execution g tr m →
      m.exit.current = some y → KernelCallOf saved status → saved.number = YIELD →
      ∃ m', m.next (.exception saved status pending junk) = some m' ∧ Yields y m.obs m'.obs := by
  refine ⟨fun k p h he => ⟨h.logged hg, fun log hlog => ?_⟩,
    fun tr m y saved status pending junk h hy hcall hn => ?_⟩
  · obtain ⟨l, ⟨hs, ho⟩, hc⟩ := hlog.callable (R := Ordered Sim) hg
    have hs' : Sim k l := hs
    obtain ⟨hd, -⟩ := rel_dispatch hs' hc.toSettled
    rw [he] at hd
    have ho' : InOrder k.abs.lists.ready log := by
      rw [hs'.abs]
      exact ho
    exact hd.inTurn ho'
  · exact (h.reached hg).yields (h.actPrio hg (.inl (live_of_current hy))) hy hcall hn pending junk

omit [Layout] in
/-- The first process creates a child and calls YIELD: the child is dispatched. -/
theorem yield_child_call :
    letI := sampleLayout
    ∃ tr, ∃ m : Mach Heap, ∃ k : Kernel Heap, Execution sampleGlobals tr m ∧
      m.exit.current = some 0 ∧ SchedulerCall sampleGlobals k ∧
      (runTo schedulerNext k).exit = .ldst 1 := by
  let _ := sampleLayout
  obtain ⟨tr, m, htr, hP⟩ := Mach.exists_run_of_play Contract (boot sampleGlobals) [createLowEvent]
    (P := fun _ m => decide (m.exit.current = some 0) &&
      match handlerPrefix (m.k.mapG (·.enter (sysState YIELD 0 0 0) 0 (fun _ => false) 0)) with
      | .ok _ k => decide ((runTo schedulerNext k).exit = .ldst 1)
      | .error _ _ => false) (by decide +kernel)
  obtain ⟨hcur, hP⟩ := Bool.and_eq_true_iff.mp hP
  have hcur := of_decide_eq_true hcur
  split at hP
  · next k hk =>
    refine ⟨tr, m, k, htr, hcur, .exception htr (canTake_of_current hcur) (fun _ => ?_) hk,
      of_decide_eq_true hP⟩
    exact ⟨nofun, by decide, fun h => absurd h (by decide)⟩
  · cases hP

omit [Layout] in
theorem dispatched_in_turn_yield :
    letI := sampleLayout
    (∃ k : Kernel Heap, (∃ log, SchedulerCall sampleGlobals (k.withLog log)) ∧
      ∀ log, SchedulerCall sampleGlobals (k.withLog log) → InTurn k.abs log 1) ∧
    ∃ tr, ∃ m m' : Mach Heap, Execution sampleGlobals tr m ∧
      m.next (sysEvent YIELD 0 0 0) = some m' ∧ Yields 0 m.obs m'.obs := by
  let _ := sampleLayout
  obtain ⟨tr, m, k, htr, hcur, hk, he⟩ := yield_child_call
  obtain ⟨hturn, hyield⟩ := dispatched_in_turn sampleGlobals_powerOn
  have hneg : YIELD.slt 0 := by decide
  obtain ⟨m', hm', hy⟩ := hyield tr m 0 _ _ _ _ htr hcur (sysState_call hneg 0 0 0) rfl
  exact ⟨⟨k, hturn k 1 hk he⟩, tr, m, m', htr, hm', hy⟩

/-- A process runs although it is blocked, and is woken by the interrupt of a disk that served one
    that was killed. Then the interrupt of another disk wakes the first process. -/
def wokenRunning : List Event :=
  [createLowEvent, createSupportedEvent, sysEvent DOIO (SubDev.dtp 0 1).commandAddr 2 0,
    sysEvent DOIO (SubDev.dtp 0 0).commandAddr 2 0,
    sysEvent TERMPROCESS (sampleAddresses.pcbAddr 1) 0 0,
    sysEvent DOIO ((SubDev.dtp 0 0).commandAddr + 1) 2 0, addressErrorEvent,
    .complete (.dtp 0 0) READY, .exception intState 0 (fun _ => false) 0,
    .complete (.dtp 0 1) READY, .exception intState 0 (fun _ => false) 0]

/-- Processes raise the semaphore of a disk to 1. The interrupt of the disk blocks the process that
    runs, and it becomes ready as well. Another one is blocked behind it. -/
def readyBlocked : List Event :=
  [createLowEvent, createLowEvent, sliceEvent, sysEvent DOIO (SubDev.dtp 0 0).commandAddr 2 0,
    sysEvent VERHOGEN (sampleAddresses.semAddr (.dev (.dtp 0 0))) 0 0,
    sysEvent VERHOGEN (sampleAddresses.semAddr (.dev (.dtp 0 0))) 0 0,
    .complete (.dtp 0 0) READY, .exception intState 0 (fun _ => false) 0, sliceEvent, sliceEvent,
    sysEvent VERHOGEN (sampleAddresses.semAddr (.dev (.dtp 0 0))) 0 0, sliceEvent]

omit [Layout] in
/-- A YIELD dispatches its caller, which was in front of the first process in the ready queue; and
    the end of a slice dispatches a process that is blocked. -/
theorem dispatched_out_of_turn :
    letI := sampleLayout
    (∃ tr, ∃ m m' : Mach Heap, Run (Step SyscallsOk) (boot sampleGlobals) tr m ∧
      m.exit.current = some 2 ∧ 0 ∈ m.obs.k.lists.ready .low ∧
      m.next (sysEvent YIELD 0 0 0) = some m' ∧ m'.exit = .ldst 2 ∧ ¬ Yields 2 m.obs m'.obs) ∧
    ∃ tr, ∃ m : Mach Heap, Run (Step fun _ _ => True) (boot sampleGlobals) tr m ∧
      m.exit = .ldst 0 ∧ (m.k.g.pcb 0).pSemAdd ≠ NULL := by
  let _ := sampleLayout
  constructor
  · obtain ⟨tr, m, hrun, hP⟩ := Mach.exists_run_of_play SyscallsOk (boot sampleGlobals) wokenRunning
      (P := fun _ m => decide (m.exit.current = some 2 ∧ 0 ∈ m.obs.k.lists.ready .low ∧
        (m.next (sysEvent YIELD 0 0 0)).any fun m' => m'.exit = .ldst 2)) (by decide +kernel)
    obtain ⟨hcur, hready, hnext⟩ := of_decide_eq_true hP
    obtain ⟨m', hm', he⟩ := (Option.any_eq_true _ _).mp hnext
    have he : m'.exit = .ldst 2 := of_decide_eq_true he
    refine ⟨tr, m, m', hrun, hcur, hready, hm', he, fun hy => ?_⟩
    obtain ⟨p, hp, hne⟩ := hy.other ⟨.low, List.ne_nil_of_mem hready⟩
    exact hne (Exit.ldst.inj (hp.symm.trans he))
  · obtain ⟨tr, m, hrun, hP⟩ := Mach.exists_run_of_play (fun _ _ => True) (boot sampleGlobals)
      readyBlocked (P := fun _ m => decide (m.exit = .ldst 0 ∧ (m.k.g.pcb 0).pSemAdd ≠ NULL))
      (by decide +kernel)
    exact ⟨tr, m, hrun, of_decide_eq_true hP⟩

end Rocm
