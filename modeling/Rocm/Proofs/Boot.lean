import Rocm.Proofs.Stability

/-!
# The nucleus on the abstract lists, from boot

The steps of the nucleus on `Lists` are steps of the specification, and boot ends in a good
state.
-/

namespace Rocm

open Prog ProcTable

variable [Layout]

omit [Layout] in
theorem runTo_spec {m : KM Lists PUnit} {k : Kernel Lists} {E : Exit → Kernel Lists → Prop}
    (h : wp m noReturn E k) : E (runTo m k).exit (runTo m k).k := by
  rcases wp_elim h with ⟨a, k', _, hf⟩ | ⟨e, k', he, hE⟩
  · exact hf.elim
  · rw [runTo, he]
    exact hE

/-- Every step of the nucleus on the abstract lists is one the specification allows. -/
theorem next_spec {m m' : Mach Lists} {ev : Event} (h : Good m.obs) (hc : Contract m.obs ev)
    (hn : m.next ev = some m') : Next m.obs ev m'.obs := by
  cases ev with
  | exception saved status pending junk =>
    simp only [Mach.next, Option.ite_none_right_eq_some, Option.some.injEq] at hn
    obtain ⟨hcan, rfl⟩ := hn
    have hlive : m.obs.exit.live := by
      revert hcan
      change m.exit.canTake saved = true → m.exit.live = true
      unfold Exit.canTake Exit.live
      split <;> simp
    have hready := (h.stable hlive).ready hcan hc
    exact .exception hcan (runTo_spec (exceptionHandler_spec
      (k := m.k.mapG (·.enter saved status pending junk)) hready))
  | resume =>
    simp only [Mach.next, Option.ite_none_right_eq_some, Option.some.injEq] at hn
    obtain ⟨he, rfl⟩ := hn
    have hst := h.stable (show m.exit.live by rw [he]; rfl)
    refine .resume he (runTo_spec (schedulerNext_spec fun y hy => ?_))
    rw [show m.k.g.yieldedProc = none from hst.yielded] at hy
    cases hy
  | complete d status =>
    simp only [Mach.next, Option.ite_none_right_eq_some, Option.some.injEq] at hn
    obtain ⟨hl, rfl⟩ := hn
    exact .complete hl
  | store a v =>
    simp only [Mach.next, Option.ite_none_right_eq_some, Option.some.injEq] at hn
    obtain ⟨⟨hr, ha⟩, rfl⟩ := hn
    exact .store hr ha
  | storeState a s =>
    simp only [Mach.next, Option.ite_none_right_eq_some, Option.some.injEq] at hn
    obtain ⟨hr, rfl⟩ := hn
    exact .storeState hr
  | storeSupport a s =>
    simp only [Mach.next, Option.ite_none_right_eq_some, Option.some.injEq] at hn
    obtain ⟨hr, rfl⟩ := hn
    exact .storeSupport hr
  | addressError saved status pending junk =>
    simp only [Mach.next, Option.ite_none_right_eq_some, Option.some.injEq] at hn
    obtain ⟨⟨he, herr⟩, rfl⟩ := hn
    exact .addressError he herr (runTo_spec (exceptionHandler_spec
      (k := m.k.mapG (·.enter saved status pending junk)) (h.ready_fault he hc herr)))

/-! ## Boot -/

omit [Layout] in
/-- The assignments of a list of zeros. -/
theorem foldl_setInt (f : KernelSem → Word) (ss : List KernelSem) (g : Globals) :
    ∃ int, ss.foldl (fun g s => g.setInt (f s) 0) g = { g with int := int } ∧
      (∀ s ∈ ss, int (f s) = 0) ∧ ∀ a, g.int a = 0 → int a = 0 := by
  induction ss generalizing g with
  | nil => exact ⟨g.int, rfl, by simp, fun _ => id⟩
  | cons s ss ih =>
    obtain ⟨int, h, hin, hout⟩ := ih (g.setInt (f s) 0)
    have hset : ∀ a, g.int a = 0 ∨ a = f s → (g.setInt (f s) 0).int a = 0 := by
      intro a ha
      rw [setInt_int]
      split
      · rfl
      · next e => exact ha.resolve_right e
    refine ⟨int, h, fun s' hs' => ?_, fun a ha => hout a (hset a (.inl ha))⟩
    rcases List.mem_cons.mp hs' with rfl | hs'
    · exact hout _ (hset _ (.inr rfl))
    · exact hin s' hs'

/-- The state `init_data_structures` leaves. -/
structure Fresh (k : Kernel View) : Prop where
  free : k.lists.free = List.finRange MAXPROC
  ready : ∀ q, k.lists.ready q = []
  blocked : ∀ s, k.lists.blocked s = []
  child : ∀ q, k.lists.child q = []
  semAdd : ∀ p, (k.g.pcb p).pSemAdd = NULL
  pid : ∀ p, (k.g.pcb p).pPid = 0
  sems : ∀ s, k.g.int (Layout.toAddresses.semAddr s) = 0
  dev : ∀ d, (k.g.dev d).status = READY ∧ (k.g.dev d).busy = false ∧ (k.g.dev d).intr = false
  procs : k.g.procsCount = 0
  sb : k.g.sbProcs = 0
  act : k.g.actProc = none
  yielded : k.g.yieldedProc = none

theorem initDataStructures_spec {g : Globals} (h : PowerOn g) :
    wp initDataStructures (fun _ k' => Fresh k'.abs) noExit (⟨uninit, g⟩ : Kernel Lists) := by
  simp only [initDataStructures, initScheduler, initDevSem, wp_bind, wp_modifyG, Lists.wp_initPcbs,
    Lists.wp_initAsl, Lists.wp_mkEmptyProcQ]
  change Fresh ⟨Lists.allFree.view, _⟩
  obtain ⟨int, hg, hin, hout⟩ := foldl_setInt (Layout.toAddresses.semAddr ·)
    (SubDev.all.map KernelSem.dev)
    (Globals.setInt { g with
      pcb := fun p => { g.pcb p with pSemAdd := NULL }, procsCount := 0, sbProcs := 0,
      actProc := none } (Layout.toAddresses.semAddr .it) 0)
  rw [hg]
  refine ⟨rfl, fun _ => rfl, fun _ => rfl, fun _ => rfl, fun _ => rfl, h.pid, fun s => ?_, h.dev,
    rfl, rfl, rfl, rfl⟩
  cases s with
  | it => exact hout _ (Function.update_self ..)
  | dev d => exact hin _ (List.mem_map_of_mem d.mem_all)

theorem Fresh.inv {k : Kernel View} (h : Fresh k) : KInv k := by
  have hfree : ∀ p, p ∈ k.lists.free := fun p => by rw [h.free]; exact List.mem_finRange p
  have halive : k.lists.alive = ∅ := by ext p; simp [hfree]
  have hwait : k.g.waiting = ∅ := by ext p; simp [h.semAdd]
  refine ⟨⟨⟨fun p s => ?_, fun q p hp => ?_, fun p hp => absurd (hfree p) hp,
    ⟨fun _ => 0, fun p q hp => ?_⟩⟩, fun p hp => absurd (hfree p) hp, fun p => .inl (h.pid p)⟩,
    ?_, ?_⟩
  · rw [h.blocked, h.semAdd]
    refine ⟨fun hc => absurd hc List.not_mem_nil, fun hc => absurd hc.1.symm hc.2⟩
  · rw [h.ready] at hp; cases hp
  · rw [h.child] at hp; cases hp
  · rw [h.procs, halive]; rfl
  · rw [h.sb, hwait]; rfl

theorem Fresh.settled {k : Kernel View} (h : Fresh k) (hw : k.lists.Wf) : Settled k := by
  refine ⟨⟨h.inv, hw⟩, ⟨h.sems .it, fun d => ?_⟩, fun y hy => ?_⟩
  · obtain ⟨hst, hbusy, hintr⟩ := h.dev d
    refine ⟨.inl (h.sems _), fun _ => h.sems _, by simp [hbusy], fun _ => h.blocked _, ?_⟩
    rw [hst]
    exact fun _ hok => absurd hok (by decide)
  · rw [h.yielded] at hy
    cases hy

/-- The PCB of the first process. -/
def firstPcb (entryPoint : Word) : Pcb where
  pParent := none
  pS := ({ ProcState.zero.setReg regT9 entryPoint with
    pcEpc := entryPoint
    status := STATUS_TE ||| STATUS_IM_MASK ||| STATUS_KUc ||| STATUS_IEp }).setReg regSp
      Layout.toAddresses.ramTop
  pTime := 0
  pTmUpdt := 0
  pSemAdd := NULL
  pSupportStruct := NULL
  pPrio := PROCESS_PRIO_LOW
  pPid := Layout.toAddresses.pcbAddr 0

/-- The first process is the only one, and it is ready. -/
def Kernel.first (k : Kernel View) (entryPoint : Word) : Kernel View :=
  ⟨k.lists.popFree.pushReady .low 0,
    { k.g.setPcb 0 fun _ => firstPcb entryPoint with procsCount := k.g.procsCount + 1 }⟩

theorem createInitProc_spec {k : Kernel Lists} (h : Fresh k.abs) (entryPoint : Word) :
    wp (createInitProc entryPoint) (fun _ k' => k'.abs = k.abs.first entryPoint) noExit k := by
  have hfree : k.lists.free = 0 :: (List.finRange MAXPROC).tail := h.free
  have hocc : k.lists.popFree.occ 0 = 0 :=
    Lists.occ_eq_zero.mpr (k.lists.view_wf.loose_popFree hfree)
  simp only [createInitProc, wp_bind]
  rw [Lists.wp_allocPcb_cons hfree]
  simp only [wp_bind, wp_modifyG]
  rw [Lists.wp_insertProcQ (k := ⟨k.lists.popFree, _⟩) hocc]
  refine congrArg₂ Kernel.mk (Lists.view_pushReady hocc) ?_
  simp only [Globals.setPS, Globals.setPcb, Function.update_self, Function.update_idem]
  rfl

theorem Fresh.first {k : Kernel View} (h : Fresh k) (hw : k.lists.Wf) (entryPoint : Word) :
    Settled (k.first entryPoint) := by
  have hs := h.settled hw
  have hfree : k.lists.free = 0 :: (List.finRange MAXPROC).tail := h.free
  have hcore : KCore ⟨k.lists.popFree, k.g.setPcb 0 fun _ => firstPcb entryPoint⟩ :=
    KCore.popFree hs.inv.toKCore hw hfree rfl rfl rfl
  have hready := KCore.pushReady hcore (q := .low) (p := 0) (by rw [setPcb_pcb, if_pos rfl]; rfl)
  refine ⟨⟨⟨hready.congr (.of_pcb rfl), ?_, ?_⟩, ?_⟩, hs.toSemsInv.frame rfl rfl fun _ => id,
    fun y hy => ?_⟩
  · change k.g.procsCount + 1 = BitVec.ofNat 32 k.lists.popFree.alive.card
    rw [alive_popFree hw hfree, ofNat_add_one, hs.inv.procs]
  · change k.g.sbProcs =
      BitVec.ofNat 32 (k.g.setPcb 0 fun _ => firstPcb entryPoint).waiting.card
    rw [waiting_setPcb (h.semAdd 0).symm, hs.inv.sb]
  · exact hw.popFree.enqueue (hw.loose_popFree hfree) PROCESS_PRIO_LOW
  · exact absurd (h.yielded.symm.trans hy) (by simp)

/-- Boot makes the first process and dispatches. -/
theorem boot_dispatch {g : Globals} (h : PowerOn g) : ∃ k : Kernel View, Fresh k ∧ k.lists.Wf ∧
    Dispatch (k.first Layout.toAddresses.instantiatorProc) (boot g : Mach Lists).exit
      (boot g : Mach Lists).k.abs := by
  unfold boot
  refine runTo_spec (E := fun e k' => ∃ k : Kernel View, Fresh k ∧ k.lists.Wf ∧
    Dispatch (k.first Layout.toAddresses.instantiatorProc) e k'.abs) ?_
  rw [main]
  refine wp_seq (initDataStructures_spec h) fun _ k hk => ?_
  simp only [wp_bind, wp_LDIT, wp_modifyG]
  generalize hj : (⟨k.lists, _⟩ : Kernel Lists) = j
  have hfresh : Fresh j.abs := by subst hj; exact { hk with }
  refine wp_mono (fun _ k1 hk1 => ?_) (fun _ _ hf => hf.elim) (createInitProc_spec hfresh _)
  have hset : Settled k1.abs := by rw [hk1]; exact hfresh.first j.lists.view_wf _
  refine wp_mono (fun _ _ hf => hf.elim) (fun _ _ hd => ?_) (schedulerNext_spec hset.yielded)
  rw [hk1] at hd
  exact ⟨j.abs, hfresh, j.lists.view_wf, hd⟩

/-- Boot ends in a good state. -/
theorem boot_good {g : Globals} (h : PowerOn g) : Good (boot g : Mach Lists).obs := by
  obtain ⟨k, hfresh, hw, hd⟩ := boot_dispatch h
  exact hd.good (hfresh.first hw _)

end Rocm
