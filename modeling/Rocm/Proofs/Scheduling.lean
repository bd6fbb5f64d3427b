import Rocm.Proofs.Actions

/-!
# The scheduler on the abstract lists

`load_proc`, `scheduler_next` and the end of `exception_handler` do what `Dispatch` and `Finish`
say.
-/

namespace Rocm

open Prog ProcTable

variable {k : Kernel Lists} {p : PcbId}

/-- No return. -/
def noReturn {D α : Type} : α → Kernel D → Prop := fun _ _ => False

theorem abs_eq {k : Kernel Lists} {j : Kernel View} (h : k.abs = j) :
    k.lists.view = j.lists ∧ k.g = j.g :=
  ⟨congrArg Kernel.lists h, congrArg Kernel.g h⟩

theorem enqueueProc_spec (prio : Word) (h : k.lists.view.Loose p) :
    wp (enqueueProc p prio) (fun _ k' => k'.abs = ⟨k.lists.view.enqueue p prio, k.g⟩)
      noExit k := by
  have hocc := Lists.occ_eq_zero.mpr h
  unfold enqueueProc View.enqueue
  split
  · rw [Lists.wp_insertProcQ hocc]; rfl
  · split
    · rw [Lists.wp_insertProcQ hocc]; rfl
    · rfl

theorem enqueueYielded_spec (hy : ∀ y, k.g.yieldedProc = some y → k.lists.view.Loose y) :
    wp enqueueYielded (fun _ k' => k'.abs = k.abs.flushYielded) noExit k := by
  simp only [enqueueYielded, wp_bind, wp_getG]
  cases h : k.g.yieldedProc with
  | none =>
    change k.abs = k.abs.flushYielded
    have h' : k.abs.g.yieldedProc = none := h
    simp only [Kernel.flushYielded, h']
  | some y =>
    refine wp_seq (enqueueProc_spec _ (hy y h)) fun _ k' hk' => ?_
    obtain ⟨hv, hg⟩ := abs_eq hk'
    have h' : k.abs.g.yieldedProc = some y := h
    simp only [wp_modifyG, abs_mk, hv, hg, Kernel.flushYielded, h']
    rfl

variable [Layout]

theorem loadProc_spec (hy : ∀ y, k.g.yieldedProc = some y → k.lists.view.Loose y) :
    wp (loadProc (some p)) noReturn (fun e k' => e = .ldst p ∧ k'.abs = k.abs.load p) k := by
  rw [loadProc]
  refine wp_seq (enqueueYielded_spec hy) fun _ k' hk' => ?_
  obtain ⟨hv, hg⟩ := abs_eq hk'
  simp only [wp_bind, wp_modifyG, wp_setTIMER, wp_STCK, wp_throw, abs_mk, hv, hg, true_and]
  refine congrArg (Kernel.mk _) ?_
  simp only [Globals.load, Globals.setPS, Globals.setPcb, Globals.tickClock, Function.update_self,
    Function.update_idem]

theorem loadProc_dispatch {q : Queue}
    (hy : ∀ y, k.g.yieldedProc = some y → k.lists.view.Loose y) {ps : List PcbId}
    (hq : k.lists.ready q = p :: ps) :
    wp (dequeueProc q.prio >>= loadProc) noReturn (fun e k' => e = .ldst p ∧
      k'.abs = Kernel.load ⟨k.lists.view.popReady q, k.g⟩ p) k := by
  have hdeq : (dequeueProc q.prio : KM Lists (Option PcbId)) = removeProcQ q := by
    cases q <;> rfl
  rw [hdeq, wp_bind, Lists.wp_removeProcQ_cons hq]
  exact loadProc_spec fun y hy' => (hy y hy').popReady

theorem schedulerNext_spec (hy : ∀ y, k.g.yieldedProc = some y → k.lists.view.Loose y) :
    wp schedulerNext noReturn (fun e k' => Dispatch k.abs e k'.abs) k := by
  simp only [schedulerNext, wp_bind, Lists.wp_emptyProcQ]
  cases hh : k.lists.ready .high with
  | cons p ps =>
    simp only [List.isEmpty_cons, Bool.not_false, if_true]
    refine wp_mono (fun _ _ hf => hf) (fun e k' ⟨he, hk'⟩ => ?_) (loadProc_dispatch (q := .high) hy hh)
    rw [he, hk']
    exact .high hh
  | nil =>
    simp only [List.isEmpty_nil, Bool.not_true, Bool.false_eq_true, if_false, wp_bind,
      Lists.wp_emptyProcQ]
    cases hl : k.lists.ready .low with
    | cons p ps =>
      simp only [List.isEmpty_cons, Bool.not_false, if_true]
      refine wp_mono (fun _ _ hf => hf) (fun e k' ⟨he, hk'⟩ => ?_) (loadProc_dispatch (q := .low) hy hl)
      rw [he, hk']
      exact .low hh hl
    | nil =>
      have hempty : ∀ q, k.abs.lists.ready q = [] := by
        intro q; cases q
        exacts [hh, hl]
      simp only [List.isEmpty_nil, Bool.not_true, Bool.false_eq_true, if_false, wp_bind, wp_getG]
      by_cases hp : k.g.procsCount = 0
      · rw [if_pos hp, wp_throw]
        exact .halt hempty hp
      · have hpos : 0 < k.g.procsCount := by bv_omega
        rw [if_neg hp]
        by_cases hsb : k.g.sbProcs = 0
        · rw [hsb, if_neg (fun hc => absurd hc.2 (by decide)), if_pos ⟨hpos, rfl⟩, wp_PANIC]
          exact .deadlock hempty hp hsb
        · have hpos' : 0 < k.g.sbProcs := by bv_omega
          rw [if_pos ⟨hpos, hpos'⟩]
          refine wp_seq (enqueueYielded_spec hy) fun _ k' hk' => ?_
          obtain ⟨hv, hg⟩ := abs_eq hk'
          simp only [wp_bind, wp_modifyG, wp_setTIMER, wp_throw, abs_mk, hv, hg]
          exact .wait hempty hp hsb

/-- Unless the running process goes on, `scheduler_next` is called. -/
theorem dispose_spec {r : EhAct} (hr : r = .renqueue → ∀ p, k.g.actProc = some p →
      k.lists.view.Loose p)
    (hy : ∀ y, k.g.yieldedProc = some y → k.lists.view.Loose y) :
    wp (do updateAge; dispose r : KM Lists PUnit) (fun _ k' => Disposed k.abs r k'.abs)
      (fun e k' => ∃ p, k.g.actProc = some p ∧ r = .continue ∧ e = .ldst p ∧
        k'.abs = (k.abs.mapG (·.age p)).load p) k := by
  rw [wp_bind]
  simp only [updateAge, wp_bind, wp_getG]
  cases hact : k.g.actProc with
  | none =>
    simp only [wp_pure, dispose, wp_bind, wp_getG, hact]
    exact .none hact
  | some p =>
    simp only [wp_bind, wp_STCK, wp_modifyG]
    change wp (dispose r) _ _ ⟨k.lists, k.g.age p⟩
    have hact' : (k.g.age p).actProc = some p := hact
    simp only [dispose, wp_bind, wp_getG, hact']
    by_cases hc : r = .continue
    · rw [if_pos hc]
      refine wp_mono (fun _ _ hf => hf.elim) (fun e k' ⟨he, hk'⟩ => ?_)
        (loadProc_spec (k := ⟨k.lists, k.g.age p⟩) hy)
      exact ⟨p, rfl, hc, he, hk'⟩
    · rw [if_neg hc]
      by_cases hrq : r = .renqueue
      · rw [if_pos hrq, wp_bind, wp_getG]
        refine wp_mono (fun _ k1 hk1 => ?_) (fun _ _ hf => hf.elim)
          (enqueueProc_spec (k := ⟨k.lists, k.g.age p⟩) _ (hr hrq p hact))
        have hprio : ((k.g.age p).pcb p).pPrio = (k.g.pcb p).pPrio := (sameTags_age k.g p).prio p
        rw [hprio] at hk1
        rw [hk1, hrq]
        exact .renqueue hact
      · rw [if_neg hrq, wp_pure]
        exact .nothing hact hc hrq

omit [Layout] in
theorem Disposed.yielded {k k1 : Kernel View} {r : EhAct} (h : Disposed k r k1)
    (hr : r = .renqueue → ∀ p, k.g.actProc = some p → k.g.yieldedProc = Option.none)
    (hy : ∀ y, k.g.yieldedProc = some y → k.lists.Loose y) :
    ∀ y, k1.g.yieldedProc = some y → k1.lists.Loose y := by
  cases h with
  | none => exact hy
  | renqueue hact =>
    intro y hy'
    have hn : k.g.yieldedProc = Option.none := hr rfl _ hact
    exact absurd (hn.symm.trans hy') (by simp)
  | nothing => exact hy

theorem Disposed.finish {k k1 k' : Kernel View} {r : EhAct} {e : Exit} (h : Disposed k r k1)
    (hd : Dispatch k1 e k') : Finish k r e k' := by
  cases h with
  | none hact => exact .none hact hd
  | renqueue hact => exact .renqueue hact hd
  | nothing hact hc hr => exact .nothing hact hc hr hd

/-- `exception_handler` after the handler of the exception has returned `r`. -/
theorem finish_spec {r : EhAct}
    (hr : r = .renqueue → ∀ p, k.g.actProc = some p →
      k.lists.view.Loose p ∧ k.g.yieldedProc = none)
    (hy : ∀ y, k.g.yieldedProc = some y → k.lists.view.Loose y) :
    wp (do updateAge; dispose r; schedulerNext : KM Lists PUnit) noReturn
      (fun e k' => Finish k.abs r e k'.abs) k := by
  have hdis := dispose_spec (r := r) (fun h p hp => (hr h p hp).1) hy
  rw [wp_bind] at hdis ⊢
  refine wp_mono (fun _ k1 h1 => ?_) (fun e k1 h1 => ?_) hdis
  · rw [wp_bind]
    refine wp_mono (fun _ k2 h2 => ?_) (fun e k2 ⟨p, hact, hc, he, hk⟩ => ?_) h1
    · refine wp_mono (fun _ _ hf => hf) (fun e k' hd => h2.finish hd) (schedulerNext_spec ?_)
      exact h2.yielded (fun h p hp => (hr h p hp).2) hy
    · rw [hc, he, hk]
      exact .continue hact
  · obtain ⟨p, hact, hc, he, hk⟩ := h1
    rw [hc, he, hk]
    exact .continue hact

end Rocm
