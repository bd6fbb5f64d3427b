import Rocm.Proofs.Scheduling

/-!
# The semaphores on the abstract lists

`passeren`, `verhogen` and the loop of the clock interrupt do what `PStep`, `VStep` and
`wakeAll` say.
-/

namespace Rocm

open Prog ProcTable

variable {k : Kernel Lists} {p : PcbId} {s : Word}

theorem wp_loadInt {Q : Word → Kernel Lists → Prop} {E : Exit → Kernel Lists → Prop}
    (hs : s &&& 3 = 0) : wp (loadInt s) Q E k = Q (k.g.int s) k := by
  simp only [loadInt, hs, ne_eq, not_true_eq_false, if_false, wp_bind, wp_pure, wp_getG]

theorem abs_block (hocc : k.lists.occ p = 0) :
    Kernel.abs ⟨k.lists.pushBlocked s p hocc,
      { k.g.setPcb p fun c => { c with pSemAdd := s } with sbProcs := k.g.sbProcs + 1 }⟩ =
      k.abs.block s p := by
  rw [abs_mk, Lists.view_pushBlocked]
  rfl

variable [Layout]

/-- After `remove_blocked` has found `w`, `enqueue_proc` puts it in its ready queue. -/
theorem enqueueWoken_spec (h : KCore k.abs) {w : PcbId} {ws : List PcbId}
    (hs : k.lists.asl.get s = w :: ws) (hne) :
    wp (enqueueProc w (k.g.pcb w).pPrio) (fun _ k' =>
      Kernel.abs ⟨k'.lists, { k'.g with sbProcs := k'.g.sbProcs - 1 }⟩ = k.abs.wake s w) noExit
      ⟨k.lists.popBlocked s hne, k.g.setPcb w fun c => { c with pSemAdd := NULL }⟩ := by
  have hl : (k.lists.popBlocked s hne).view.Loose w := by
    rw [Lists.view_popBlocked]
    exact h.loose_popBlocked k.lists.view_wf hs
  refine wp_mono (fun _ k' hk' => ?_) (fun _ _ hf => hf) (enqueueProc_spec (k := ⟨_, _⟩) _ hl)
  obtain ⟨hv, hg⟩ := abs_eq hk'
  rw [abs_mk, hv, hg, Lists.view_popBlocked]
  rfl

theorem passeren_spec (h : KCore k.abs) (hs : s &&& 3 = 0) (hact : k.g.actProc = some p)
    (hp : k.lists.view.Loose p) :
    wp (passeren s) (fun r k' => PStep s p k.abs r k'.abs) noExit k := by
  simp only [passeren, wp_bind, wp_loadInt hs]
  by_cases hz : k.g.int s = 0
  · have hocc := Lists.occ_eq_zero.mpr hp
    rw [if_pos hz]
    simp only [wp_bind, wp_derefActProc hact, Lists.wp_unlinkProc hocc,
      Lists.wp_insertBlocked hocc, Bool.false_eq_true, if_false, wp_modifyG, wp_pure]
    have hb : PStep s p k.abs .nothing (k.abs.block s p) := .block hz
    rw [← abs_block hocc] at hb
    exact hb
  · rw [if_neg hz, wp_bind]
    cases hq : k.lists.asl.get s with
    | nil =>
      rw [Lists.wp_removeBlocked_nil hq]
      exact .take hz hq
    | cons w ws =>
      rw [Lists.wp_removeBlocked_cons hq]
      simp only [wp_bind, wp_getG, setPcb_pcb, if_true]
      refine wp_mono (fun _ k' hk' => ?_) (fun _ _ hf => hf.elim) (enqueueWoken_spec h hq _)
      simp only [wp_modifyG, wp_pure, hk']
      exact .wake hz hq

theorem verhogen_spec (h : KCore k.abs) (hs : s &&& 3 = 0)
    (hact : ∀ p, k.g.actProc = some p → k.lists.view.Loose p) :
    wp (verhogen s) (fun r k' => VStep s k.abs r k'.abs) noExit k := by
  simp only [verhogen, wp_bind, wp_loadInt hs]
  by_cases hz : k.g.int s = 1
  · rw [if_pos hz, wp_bind, wp_getG]
    cases ha : k.g.actProc with
    | none => exact .idle hz ha
    | some p =>
      have hocc := Lists.occ_eq_zero.mpr (hact p ha)
      simp only [wp_bind, Lists.wp_unlinkProc hocc, Lists.wp_insertBlocked hocc,
        Bool.false_eq_true, if_false, wp_modifyG, wp_pure]
      have hb : VStep s k.abs none (k.abs.block s p) := .block hz ha
      rw [← abs_block hocc] at hb
      exact hb
  · rw [if_neg hz, wp_bind]
    cases hq : k.lists.asl.get s with
    | nil =>
      rw [Lists.wp_removeBlocked_nil hq]
      exact .give hz hq
    | cons w ws =>
      rw [Lists.wp_removeBlocked_cons hq]
      simp only [wp_bind, wp_getG, setPcb_pcb, if_true]
      refine wp_mono (fun _ k' hk' => ?_) (fun _ _ hf => hf.elim) (enqueueWoken_spec h hq _)
      simp only [wp_modifyG, wp_pure, hk']
      exact .wake hz hq

/-! ## The clock -/

/-- The loop of the clock interrupt wakes the whole queue, one process a round. -/
theorem tickLoop_spec (ws : List PcbId) : ∀ {k : Kernel Lists} {fuel : Nat}, KInv k.abs →
    k.g.int Layout.toAddresses.semIt = 0 →
    (∀ p, k.g.actProc = some p → k.lists.view.Loose p) →
    k.lists.asl.get Layout.toAddresses.semIt = ws → ws.length + 2 ≤ fuel →
    wp (tickLoop fuel) (fun _ k' => k'.abs =
      (k.abs.wakeAll Layout.toAddresses.semIt ws).mapG
        (·.setInt Layout.toAddresses.semIt 1)) noExit k := by
  have hal : Layout.toAddresses.semIt &&& 3 = 0 := Layout.sem_aligned .it
  induction ws with
  | nil =>
    intro k fuel h hit hact hq hfuel
    obtain ⟨fuel, rfl⟩ : ∃ n, fuel = n + 2 := ⟨fuel - 2, by simp at hfuel; omega⟩
    rw [tickLoop, wp_bind, wp_getG, hit, if_pos (by decide)]
    rw [wp_bind, wp_discard]
    refine wp_mono (fun r k' hv => ?_) (fun _ _ hf => hf.elim) (verhogen_spec h.toKCore hal hact)
    generalize hk' : k'.abs = j at hv
    cases hv with
    | idle hone => rw [show k.abs.g.int _ = 0 from hit] at hone; cases hone
    | block hone => rw [show k.abs.g.int _ = 0 from hit] at hone; cases hone
    | wake _ hcons => rw [show k.abs.lists.blocked _ = [] from hq] at hcons; cases hcons
    | give =>
      have hone : k'.g.int Layout.toAddresses.semIt = 1 := by
        rw [(abs_eq hk').2]
        simp
      rw [tickLoop, wp_bind, wp_getG, hone, if_neg (by decide), wp_pure]
      exact hk'
  | cons w ws ih =>
    intro k fuel h hit hact hq hfuel
    obtain ⟨fuel, rfl⟩ : ∃ n, fuel = n + 1 := ⟨fuel - 1, by simp at hfuel; omega⟩
    rw [tickLoop, wp_bind, wp_getG, hit, if_pos (by decide)]
    rw [wp_bind, wp_discard]
    refine wp_mono (fun r k' hv => ?_) (fun _ _ hf => hf.elim) (verhogen_spec h.toKCore hal hact)
    generalize hk' : k'.abs = j at hv
    cases hv with
    | idle hone => rw [show k.abs.g.int _ = 0 from hit] at hone; cases hone
    | block hone => rw [show k.abs.g.int _ = 0 from hit] at hone; cases hone
    | give _ hnil => rw [show k.abs.lists.blocked _ = w :: ws from hq] at hnil; cases hnil
    | @wake w' ws' _ hcons =>
      obtain ⟨rfl, rfl⟩ := List.cons.inj (hcons.symm.trans hq)
      obtain ⟨hl, hg⟩ := abs_eq hk'
      have hmem : w' ∈ k.abs.lists.blocked Layout.toAddresses.semIt := by
        rw [hcons]; exact List.mem_cons_self
      rw [Kernel.wakeAll, ← hk']
      refine ih (by rw [hk']; exact h.wake k.lists.view_wf hcons) (by rw [hg]; exact hit) ?_ ?_ ?_
      · intro p hp
        rw [hg] at hp
        rw [hl]
        exact (hact p hp).wake fun e => (hact p hp).2.2 _ (e ▸ hmem)
      · change k'.lists.view.blocked _ = _
        rw [hl, wake_blocked _ hcons]
      · rw [List.length_cons] at hfuel
        omega

end Rocm
