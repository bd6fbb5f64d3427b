import Rocm.Properties.Links
import Rocm.Properties.Waiting

/-!
# The verdicts of the scheduler

`SchedulerCall` are the states in which `scheduler_next` is called. There it halts, waits or
reports a deadlock as it should, unless the only process that could run is the one that yielded.
-/

namespace Rocm

open Prog ProcTable Runs

section Calls

variable {D : Type} [ProcTable D] [Layout]

/-- `main` between `init_data_structures` and `scheduler_next`. -/
def startFirst : KM D PUnit := do
  LDIT PSECOND
  modifyG fun g => { g with
    cpuStatus := (g.cpuStatus ||| STATUS_IEc ||| STATUS_TE ||| STATUS_IM_MASK) ^^^ STATUS_TE }
  createInitProc Layout.toAddresses.instantiatorProc

/-- `main` up to its call of `scheduler_next`. -/
def mainPrefix : KM D PUnit := do
  initDataStructures
  startFirst

/-- `exception_handler` up to its call of `scheduler_next`. -/
def handlerPrefix : KM D PUnit := do
  let reenqueue ← handleException
  updateAge
  dispose reenqueue

theorem exceptionHandler_eq :
    (exceptionHandler : KM D PUnit) = handlerPrefix >>= fun _ => schedulerNext := by
  simp only [exceptionHandler, handlerPrefix, bind_assoc]

theorem main_eq : (main : KM D PUnit) =
    mainPrefix >>= fun _ => schedulerNext >>= fun _ => PANIC .mainEnd := by
  simp only [main, mainPrefix, startFirst, bind_assoc]

/-- `scheduler_next` is called in the state `k`, in a run that keeps the contract. -/
inductive SchedulerCall (g : Globals) : Kernel D → Prop where
  | boot {k} : mainPrefix ⟨uninit, g⟩ = .ok ⟨⟩ k → SchedulerCall g k
  | resume {tr m} : Run (Step Contract) (boot g : Mach D) tr m → m.exit = .wait →
      SchedulerCall g m.k
  | exception {tr m k saved status pending junk} : Run (Step Contract) (Rocm.boot g : Mach D) tr m →
      m.exit.canTake saved → Contract m.obs (.exception saved status pending junk) →
      handlerPrefix (m.k.mapG (·.enter saved status pending junk)) = .ok ⟨⟩ k → SchedulerCall g k
  | addressError {tr m k saved status pending junk} :
      Run (Step Contract) (Rocm.boot g : Mach D) tr m → m.exit = .fault → saved.IsAddressError →
      Contract m.obs (.addressError saved status pending junk) →
      handlerPrefix (m.k.mapG (·.enter saved status pending junk)) = .ok ⟨⟩ k → SchedulerCall g k

end Calls

variable [Layout]

/-- What `scheduler_next` can rely on when it is called. -/
structure Callable (k : Kernel View) : Prop extends Settled k where
  yieldedPrio : ∀ y, k.g.yieldedProc = some y → ∃ q : Queue, (k.g.pcb y).pPrio = q.prio

/-- Whoever is put aside by the handler of an exception was running. -/
theorem Disposed.callable {k k1 k' : Kernel View} {r : EhAct} (hact : ActPrio k)
    (hset : Settled k1) (hpl : Placed k r k1)
    (hprio : ∀ p, k.g.actProc = some p → (k1.g.pcb p).pPrio = (k.g.pcb p).pPrio)
    (hd : Disposed k1 r k') : Callable k' := by
  refine ⟨hd.settled hset (fun hr => hpl.loose_act (.inr hr)) fun y hy => (hpl.yielded y hy).1,
    fun y hy => ?_⟩
  have hsame : k'.g.yieldedProc = k1.g.yieldedProc ∧ (k'.g.pcb y).pPrio = (k1.g.pcb y).pPrio := by
    cases hd with
    | none => exact ⟨rfl, rfl⟩
    | renqueue => exact ⟨rfl, age_prio⟩
    | nothing => exact ⟨rfl, age_prio⟩
  rw [hsame.1] at hy
  obtain ⟨-, hy, -⟩ := hpl.yielded y hy
  rw [hsame.2, hprio y hy]
  exact hact y hy

theorem handlerPrefix_spec {k : Kernel Lists} (h : Ready k.abs) (hs : SemsInv k.abs)
    (hc : k.g.KernelCall k.g.biosDataPage → CallOk k.abs k.g.junk k.g.biosDataPage)
    (hact : ActPrio k.abs) :
    wp handlerPrefix (fun _ k' => Callable k'.abs) (fun e k' => Handled k.abs e k'.abs) k := by
  rw [handlerPrefix, wp_bind, handleException, wp_bind, wp_getG, wp_bind, wp_saveState]
  have hcause := handleCause_spec (k := k.mapG (·.save)) h.save (saved_save k.g)
  rw [mapG_g, save_biosDataPage] at hcause
  refine wp_mono (fun r k1 ho => ?_) (fun e k' he => .exit he) hcause
  obtain ⟨hset, hpl⟩ := Outcome.settled h hs hc ho
  refine wp_mono (fun _ k2 hd => ?_) (fun e k2 hd => ?_)
    (dispose_spec (fun hr => hpl.loose_act (.inr hr)) hset.yielded)
  · have hsave : ActPrio (k.abs.mapG (·.save)) :=
      hact.congr (save_actProc _) fun p _ => (sameTags_save k.g).prio p
    exact hd.callable hsave hset hpl fun p hp =>
      ho.prio (h.save.toEntered.loose p hp).1
  · obtain ⟨p, hact, hr, he, hk2⟩ := hd
    rw [he, hk2]
    exact .finish ho (hr ▸ .continue hact)

theorem Fresh.initial {g : Globals} (h : PowerOn g) :
    Fresh (⟨Lists.allFree, g.initial⟩ : Kernel Lists).abs := by
  rcases wp_elim (initDataStructures_spec h) with ⟨a, k, hk, hf⟩ | ⟨_, _, _, hf⟩
  · have heq := Lists.initDataStructures_eq g
    unfold wp at heq
    rw [hk] at heq
    rwa [← show k = _ from heq]
  · exact hf.elim

theorem startFirst_spec {l : Kernel Lists} (h : Fresh l.abs) :
    wp startFirst (fun _ l' => Callable l'.abs) (fun e _ => ¬ isMisuse e) l := by
  simp only [startFirst, wp_bind, wp_LDIT, wp_modifyG]
  generalize hj : (⟨l.lists, _⟩ : Kernel Lists) = j
  have hfresh : Fresh j.abs := by subst hj; exact { h with }
  refine wp_mono (fun _ l' hl' => ?_) (fun _ _ hf => hf.elim) (createInitProc_spec hfresh _)
  rw [hl']
  refine ⟨hfresh.first j.lists.view_wf _, fun y hy => ?_⟩
  rw [show (j.abs.first _).g.yieldedProc = none from hfresh.yielded] at hy
  cases hy

-- The loops over the tables are never evaluated.
attribute [local irreducible] initDataStructures

section Same

variable {D D' : Type} [ProcTable D] [ProcTable D'] {R : Kernel D → Kernel D' → Prop} [TableRel R]

/-- The nucleus goes the same way on related tables. -/
theorem same_handlerPrefix : Same R handlerPrefix handlerPrefix :=
  .bind (.bind same_getG fun _ => .bind same_saveState fun _ => same_handleCause _) fun _ =>
    .bind same_updateAge fun _ => same_dispose _

theorem same_startFirst : Same R startFirst startFirst :=
  .bind (same_LDIT _) fun _ => .bind (same_modifyG _) fun _ => same_createInitProc _

end Same

section Refined

variable {D : Type} [ProcTable D] {R : Kernel D → Kernel Lists → Prop} [Refines R]

theorem mainPrefix_spec {g : Globals} (h : PowerOn g) {k : Kernel D}
    (hk : mainPrefix ⟨uninit, g⟩ = .ok ⟨⟩ k) : ∃ l : Kernel Lists, R k l ∧ Callable l.abs := by
  rcases wp_elim (Refines.init (R := R) g) with ⟨_, k0, hk0, hs⟩ | ⟨_, _, _, hf⟩
  · have hstart : startFirst k0 = .ok ⟨⟩ k := by
      rw [← hk, mainPrefix]
      change _ = EStateM.bind _ _ _
      simp only [EStateM.bind, hk0]
    exact same_startFirst.of_ok hs hstart (startFirst_spec (Fresh.initial h))
  · exact hf.elim

theorem boot_actPrio (R : Kernel D → Kernel Lists → Prop) [Refines R] {g : Globals}
    (h : PowerOn g) : ActPrio (boot g : Mach D).obs.k := by
  rw [(boot_rel h : MRel R _ _).obs]
  obtain ⟨k, hfresh, -, hd⟩ := boot_dispatch h
  have hb := hfresh.booted _ hd
  intro p hp
  obtain rfl : 0 = p := Option.some.inj (hb.act.symm.trans hp)
  exact ⟨.low, hb.prio⟩

/-- The invariant holds where an exception has been handled. -/
theorem callable_of_prefix {k : Kernel D} {k0 : Kernel D} {l0 : Kernel Lists} (hs : R k0 l0)
    (hready : Ready l0.abs) (hsems : SemsInv l0.abs)
    (hc : l0.g.KernelCall l0.g.biosDataPage → CallOk l0.abs l0.g.junk l0.g.biosDataPage)
    (hact : ActPrio l0.abs) (hk : handlerPrefix k0 = .ok ⟨⟩ k) :
    ∃ l : Kernel Lists, R k l ∧ Callable l.abs := by
  refine same_handlerPrefix.of_ok (Q := fun _ l => Callable l.abs) hs hk ?_
  refine wp_mono (fun _ _ hk => hk) (fun e k' hh hbad => ?_)
    (handlerPrefix_spec hready hsems hc hact)
  exact (hh.good hready hsems hc).not_misuse hbad

/-- Wherever `scheduler_next` is called the invariant holds. -/
theorem SchedulerCall.callable {g : Globals} (hg : PowerOn g) {k : Kernel D}
    (h : SchedulerCall g k) : ∃ l : Kernel Lists, R k l ∧ Callable l.abs := by
  have hrun : ∀ {tr : List (Mach D × Event × Mach D)} {m},
      Run (Step Contract) (Rocm.boot g) tr m → Refined R m ∧ (m.exit.ongoing → ActPrio m.obs.k) :=
    fun h => h.invariant (I := fun m => Refined R m ∧ (m.exit.ongoing → ActPrio m.obs.k))
      ⟨boot_refined hg, fun _ => boot_actPrio R hg⟩
      fun ha hs => ⟨(ha.1.next hs).2, (ha.1.next hs).1.actPrio ha.1.good hs.2 ha.2⟩
  cases h with
  | boot hk => exact mainPrefix_spec hg hk
  | @resume tr m hr he =>
    obtain ⟨⟨hgood, l, hsim⟩, -⟩ := hrun hr
    rw [hsim.obs] at hgood
    have hst := hgood.stable (by rw [← hsim.obs, Mach.obs_exit, he]; rfl)
    refine ⟨l.k, hsim.sim, hst.settled, fun y hy => ?_⟩
    rw [show l.k.abs.g.yieldedProc = none from hst.yielded] at hy
    cases hy
  | @exception tr m k saved status pending junk hr hcan hc hk =>
    obtain ⟨⟨hgood, l, hsim⟩, hact⟩ := hrun hr
    have hact := hact (.inl (live_of_canTake hcan))
    rw [hsim.obs] at hgood hc hact
    have hst := hgood.stable (live_of_canTake (hsim.exit ▸ hcan))
    have hready := hst.ready (hsim.exit ▸ hcan) hc
    have hsim' : R (m.k.mapG (·.enter saved status pending junk))
        (l.k.mapG (·.enter saved status pending junk)) := KillRel.mapG hsim.sim _
    have hsems : SemsInv (l.k.mapG (·.enter saved status pending junk)).abs :=
      ⟨hst.it, fun d => (hst.dev d).mapG (f := (·.enter saved status pending junk)) rfl rfl⟩
    exact callable_of_prefix hsim' hready hsems hc.callOk hact hk
  | @addressError tr m k saved status pending junk hr he herr hc hk =>
    obtain ⟨⟨hgood, l, hsim⟩, hact⟩ := hrun hr
    have hact := hact (.inr he)
    rw [hsim.obs] at hgood hc hact
    have hp := (hgood.fault (hsim.exit ▸ he) hc).1
    have hready : Ready (l.obs.k.mapG (·.enter saved status pending junk)) :=
      hgood.ready_fault (hsim.exit ▸ he) hc herr
    have hsim' : R (m.k.mapG (·.enter saved status pending junk))
        (l.k.mapG (·.enter saved status pending junk)) := KillRel.mapG hsim.sim _
    have hsems : SemsInv (l.k.mapG (·.enter saved status pending junk)).abs :=
      ⟨hp.it, fun d => (hp.dev d).mapG (f := (·.enter saved status pending junk)) rfl rfl⟩
    exact callable_of_prefix hsim' hready hsems (fun hcall => absurd hcall herr.not_kernelCall)
      hact hk

/-- What `scheduler_next` does. -/
theorem rel_dispatch {k : Kernel D} {l : Kernel Lists} (hs : R k l) (h : Settled l.abs) :
    Dispatch k.abs (runTo schedulerNext k).exit (runTo schedulerNext k).k.abs ∧
      MRel R (runTo schedulerNext k) (runTo schedulerNext l) := by
  have hd : Dispatch l.abs (runTo schedulerNext l).exit (runTo schedulerNext l).k.abs :=
    runTo_spec (E := fun e k' => Dispatch l.abs e k'.abs) (schedulerNext_spec h.yielded)
  have hsim := runTo_sim same_schedulerNext hs (hd.good h).not_misuse
  rw [Refines.abs hs, hsim.exit, Refines.abs hsim.sim]
  exact ⟨hd, hsim⟩

end Refined

/-- Who has the processor has one of the two priorities. -/
theorem Execution.actPrio {g : Globals} (hg : PowerOn g)
    {tr : List (Mach Heap × Event × Mach Heap)} {m : Mach Heap} (h : Execution g tr m) :
    m.exit.ongoing → ActPrio m.obs.k :=
  (h.invariant (I := fun m => Reached m ∧ (m.exit.ongoing → ActPrio m.obs.k))
    ⟨boot_reached hg, fun _ => boot_actPrio Sim hg⟩
    fun ha hs => ⟨(ha.1.next hs).2, (ha.1.next hs).1.actPrio ha.1.good hs.2 ha.2⟩).2

theorem SchedulerCall.settled {g : Globals} (hg : PowerOn g) {k : Kernel Heap}
    (h : SchedulerCall g k) : ∃ l : Kernel Lists, Sim k l ∧ Settled l.abs := by
  obtain ⟨l, hs, hc⟩ := h.callable (R := Sim) hg
  exact ⟨l, hs, hc.toSettled⟩

/-! ## The verdict -/

/-- What `scheduler_next`, called in `k`, may conclude. -/
structure Verdict (k : Kernel View) (e : Exit) : Prop where
  halt : e = .halt ↔ ∀ p, p ∈ k.lists.free
  wait : e = .wait → (∀ q, k.lists.ready q = []) ∧ k.g.yieldedProc = none ∧
    ∃ s p, p ∈ k.lists.blocked s
  panic : ∀ at_, e = .panic at_ → (∃ p, p ∉ k.lists.free) ∧ (∀ s, k.lists.blocked s = []) ∧
    (∀ q, k.lists.ready q = []) ∧ k.g.yieldedProc = none

section Verdict

variable {k k' : Kernel View} {e : Exit}

theorem KInv.procsCount_eq_zero (h : KInv k) : k.g.procsCount = 0 ↔ ∀ p, p ∈ k.lists.free := by
  have hcard := toNat_card k.lists.alive
  rw [h.procs, ← BitVec.toNat_inj, hcard]
  change k.lists.alive.card = 0 ↔ _
  rw [Finset.card_eq_zero, Finset.eq_empty_iff_forall_notMem]
  simp

theorem KInv.sbProcs_eq_zero (h : KInv k) : k.g.sbProcs = 0 ↔ ∀ s, k.lists.blocked s = [] := by
  have hcard := toNat_card k.g.waiting
  rw [h.sb, ← BitVec.toNat_inj, hcard]
  change k.g.waiting.card = 0 ↔ _
  rw [Finset.card_eq_zero, Finset.eq_empty_iff_forall_notMem]
  constructor
  · intro hw s
    refine List.eq_nil_iff_forall_not_mem.mpr fun p hp => hw p ?_
    obtain ⟨rfl, hne⟩ := (h.blocked p s).mp hp
    exact mem_waiting.mpr hne
  · intro hb p hp
    have hmem := (h.blocked p _).mpr ⟨rfl, mem_waiting.mp hp⟩
    rw [hb] at hmem
    cases hmem

/-- The verdict is right unless only the process that yielded could run. -/
theorem Dispatch.verdict_iff (h : Settled k) (hd : Dispatch k e k') :
    Verdict k e ↔ k.g.yieldedProc = none ∨ ∃ q, k.lists.ready q ≠ [] := by
  have hhalt := h.inv.procsCount_eq_zero
  have hsb := h.inv.sbProcs_eq_zero
  have hdispatched : ∀ {p ps q}, k.lists.ready q = p :: ps → Verdict k (.ldst p) := by
    intro p ps q hq
    refine ⟨⟨nofun, fun hall => ?_⟩, nofun, nofun⟩
    exact absurd (by rw [hq]; exact List.mem_cons_self) (h.wf.free_ready p (hall p) q)
  constructor
  · intro hv
    by_contra hn
    push Not at hn
    obtain ⟨hy, hempty⟩ := hn
    obtain ⟨y, hy⟩ := Option.ne_none_iff_exists'.mp hy
    cases hd with
    | high hq => rw [hempty] at hq; cases hq
    | low _ hq => rw [hempty] at hq; cases hq
    | halt _ hz => exact (h.yielded y hy).1 (hhalt.mp hz y)
    | wait => exact absurd ((hv.wait rfl).2.1.symm.trans hy) (by simp)
    | deadlock => exact absurd ((hv.panic _ rfl).2.2.2.symm.trans hy) (by simp)
  · intro hor
    cases hd with
    | high hq => exact hdispatched hq
    | low _ hq => exact hdispatched hq
    | halt _ hz => exact ⟨⟨fun _ => hhalt.mp hz, fun _ => rfl⟩, nofun, nofun⟩
    | wait hempty hne hb =>
      have hy := hor.resolve_right fun ⟨q, hq⟩ => hq (hempty q)
      refine ⟨⟨nofun, fun hall => absurd (hhalt.mpr hall) hne⟩, fun _ => ⟨hempty, hy, ?_⟩, nofun⟩
      rw [ne_eq, hsb] at hb
      push Not at hb
      obtain ⟨s, hs⟩ := hb
      exact ⟨s, List.exists_mem_of_ne_nil _ hs⟩
    | deadlock hempty hne hb =>
      have hy := hor.resolve_right fun ⟨q, hq⟩ => hq (hempty q)
      refine ⟨⟨nofun, fun hall => absurd (hhalt.mpr hall) hne⟩, nofun, fun _ _ => ⟨?_, ?_⟩⟩
      · rw [ne_eq, hhalt] at hne
        push Not at hne
        exact hne
      · exact ⟨hsb.mp hb, hempty, hy⟩

end Verdict

variable {k : Kernel Heap}

/-- In every state in which `scheduler_next` is called, its verdict is right if and only if no
    process is pending after a YIELD while nobody else is ready. -/
theorem scheduler_verdict_iff {g : Globals} (hg : PowerOn g) (h : SchedulerCall g k) :
    Verdict k.abs (runTo schedulerNext k).exit ↔
      k.g.yieldedProc = none ∨ ∃ q, k.abs.lists.ready q ≠ [] := by
  obtain ⟨l, hs, hset⟩ := h.settled hg
  rw [← hs.abs] at hset
  exact (rel_dispatch hs (by rwa [← hs.abs])).1.verdict_iff hset

omit [Layout] in
/-- The first process calls YIELD. -/
theorem yield_call :
    letI := sampleLayout
    ∃ k : Kernel Heap, SchedulerCall sampleGlobals k ∧ k.g.yieldedProc = some 0 ∧
      (runTo schedulerNext k).exit = .panic .deadlock := by
  let _ := sampleLayout
  have heval : (match handlerPrefix ((boot sampleGlobals : Mach Heap).k.mapG
      (·.enter (sysState YIELD 0 0 0) 0 (fun _ => false) 0)) with
    | .ok _ k => decide (k.g.yieldedProc = some 0 ∧
        (runTo schedulerNext k).exit = .panic .deadlock)
    | .error _ _ => false) = true := by decide +kernel
  split at heval
  · next k hk =>
    obtain ⟨hy, he⟩ := of_decide_eq_true heval
    exact ⟨k, .exception .nil (canTake_of_current (boot_current sampleGlobals_powerOn))
      (by decide +kernel) hk, hy, he⟩
  · cases heval

omit [Layout] in
theorem scheduler_verdict_iff_yield :
    letI := sampleLayout
    ∃ k : Kernel Heap, SchedulerCall sampleGlobals k ∧
      (Verdict k.abs (runTo schedulerNext k).exit ↔
        k.g.yieldedProc = none ∨ ∃ q, k.abs.lists.ready q ≠ []) := by
  let _ := sampleLayout
  obtain ⟨k, hk, -⟩ := yield_call
  exact ⟨k, hk, scheduler_verdict_iff sampleGlobals_powerOn hk⟩

omit [Layout] in
/-- The first process, alone, calls YIELD: the nucleus reports a deadlock. -/
theorem yield_deadlock :
    letI := sampleLayout
    ∃ k : Kernel Heap, SchedulerCall sampleGlobals k ∧
      ¬ Verdict k.abs (runTo schedulerNext k).exit := by
  let _ := sampleLayout
  obtain ⟨k, hk, hy, he⟩ := yield_call
  refine ⟨k, hk, fun hv => ?_⟩
  exact absurd ((hv.panic _ he).2.2.2.symm.trans hy) (by simp)

end Rocm
