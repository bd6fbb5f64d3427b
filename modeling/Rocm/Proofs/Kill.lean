import Mathlib.Data.BitVec
import Rocm.Proofs.Invariant

/-!
# Killing a process and its progeny

`kill_proc` on a leaf of the process tree is `Kernel.kill` of one PCB; the recursion adds up to
`Kernel.kill` of the whole subtree, in fewer rounds than it has PCBs.
-/

namespace Rocm

open Prog ProcTable Relation

@[simp] theorem abs_mk (a : Lists) (g : Globals) : Kernel.abs ⟨a, g⟩ = ⟨a.view, g⟩ := rfl

theorem abs_mapG (k : Kernel Lists) (f : Globals → Globals) :
    (k.mapG f).abs = k.abs.mapG f := rfl

theorem setPcb_eq_self {g : Globals} {p : PcbId} {f : Pcb → Pcb} (h : f (g.pcb p) = g.pcb p) :
    g.setPcb p f = g := by
  simp only [Globals.setPcb, h, Function.update_eq_self]

/-! ## Killing several PCBs -/

theorem filter_of_notMem {l : List PcbId} {p : PcbId} (h : p ∉ l) : l.filter (· ∉ [p]) = l := by
  refine List.filter_eq_self.mpr fun r hr => ?_
  have : r ≠ p := fun e => h (e ▸ hr)
  simpa using this

theorem erase_eq_filter {l : List PcbId} {p : PcbId} (h : l.Nodup) :
    l.erase p = l.filter (· ∉ [p]) := by
  rw [h.erase_eq_filter]
  exact List.filter_congr fun r _ => by simp [bne, Bool.beq_eq_decide_eq]

namespace View

variable {v : View} {p c r : PcbId} {S T : List PcbId}

theorem remove_remove : (v.remove S).remove T = v.remove (T ++ S) := by
  refine View.ext (List.append_assoc T S v.free).symm ?_ ?_ ?_
  · funext q
    simp [remove, List.filter_filter]
  · funext s
    simp [remove, List.filter_filter]
  · funext q
    change (if q ∈ T then [] else (if q ∈ S then [] else _).filter _) = if q ∈ T ++ S then _ else _
    by_cases hT : q ∈ T
    · simp [hT]
    · by_cases hS : q ∈ S
      · simp [hT, hS]
      · simp [hT, hS, List.filter_filter]

theorem remove_eraseChild (hw : v.Wf) (hc : c ∈ S) : (v.eraseChild c).remove S = v.remove S := by
  refine View.ext rfl rfl rfl (funext fun q => ?_)
  change (if q ∈ S then [] else ((v.child q).erase c).filter (· ∉ S)) = if q ∈ S then [] else _
  split
  · rfl
  · rw [(hw.siblings q).erase_eq_filter, List.filter_filter]
    refine List.filter_congr fun r _ => ?_
    by_cases hr : r = c <;> simp [hr, hc]

theorem Subtree.closed (h : v.Subtree p S) : v.Closed S := fun q hq r hr =>
  (h.mem_iff r).mpr (((h.mem_iff q).mp hq).tail hr)

/-- The descendants that a process keeps when `S` is removed. -/
theorem desc_remove (hS : v.Closed S) (hp : p ∉ S) :
    (v.remove S).Desc p r ↔ v.Desc p r ∧ r ∉ S := by
  have step : ∀ a b, a ∉ S → (b ∈ (v.remove S).child a ↔ b ∈ v.child a ∧ b ∉ S) := by
    intro a b ha
    change b ∈ (if a ∈ S then [] else (v.child a).filter (· ∉ S)) ↔ _
    simp [ha]
  constructor
  · intro h
    induction h with
    | refl => exact ⟨.refl, hp⟩
    | tail _ hb ih =>
      have hb := (step _ _ ih.2).mp hb
      exact ⟨ih.1.tail hb.1, hb.2⟩
  · rintro ⟨h, hr⟩
    induction h with
    | refl => exact .refl
    | @tail a b _ hb ih =>
      have ha : a ∉ S := fun ha => hr (hS a ha b hb)
      exact (ih ha).tail ((step a b ha).mpr ⟨hb, hr⟩)

/-- Taking `c` from its parent does not change what is below `c`. -/
theorem desc_eraseChild {rank : PcbId → Nat} (hrank : ∀ p q, p ∈ v.child q → rank q < rank p) :
    (v.eraseChild c).Desc c r ↔ v.Desc c r := by
  constructor
  · intro h
    exact ReflTransGen.mono (fun a b (hb : b ∈ (v.child a).erase c) => List.mem_of_mem_erase hb) _ _ h
  · intro h
    suffices hs : (v.eraseChild c).Desc c r ∧ rank c ≤ rank r from hs.1
    induction h with
    | refl => exact ⟨.refl, le_rfl⟩
    | @tail a b _ hb ih =>
      have hlt := hrank b a hb
      have hne : b ≠ c := fun e => by
        subst e
        exact absurd ih.2 (by omega)
      exact ⟨ih.1.tail ((List.mem_erase_of_ne hne).mpr hb), by omega⟩

theorem rank_le_of_desc {rank : PcbId → Nat} (hrank : ∀ p q, p ∈ v.child q → rank q < rank p)
    (h : v.Desc p r) : rank p ≤ rank r := by
  induction h with
  | refl => exact le_rfl
  | @tail a b _ hb ih =>
    have := hrank b a hb
    omega

theorem subtree_leaf (h : v.child p = []) : v.Subtree p [p] where
  nodup := List.nodup_singleton p
  mem_iff r := by
    rw [List.mem_singleton]
    constructor
    · rintro rfl; exact .refl
    · intro hr
      rcases ReflTransGen.cases_head hr with e | ⟨c, hc, -⟩
      · exact e.symm
      · rw [h] at hc; cases hc

/-- The subtree of a child and what is left below the parent make up the subtree. -/
theorem Subtree.append (hT : v.Subtree c T) (hc : c ∈ v.child p) (hp : p ∉ T)
    (hS : (v.remove T).Subtree p S) : v.Subtree p (S ++ T) := by
  have hmem : ∀ r, r ∈ S ↔ v.Desc p r ∧ r ∉ T := fun r => by
    rw [hS.mem_iff, desc_remove hT.closed hp]
  refine ⟨List.nodup_append'.mpr ⟨hS.nodup, hT.nodup, fun r hr => ((hmem r).mp hr).2⟩, fun r => ?_⟩
  rw [List.mem_append, hmem, hT.mem_iff]
  constructor
  · rintro (hr | hr)
    · exact hr.1
    · exact .head hc hr
  · intro hr
    by_cases ht : v.Desc c r
    · exact .inr ht
    · exact .inl ⟨hr, ht⟩

/-- The processes of a subtree are alive when its root is. -/
theorem Subtree.alive (hw : v.Wf) (hS : v.Subtree p S) (hp : p ∉ v.free) : ∀ r ∈ S, r ∉ v.free := by
  intro r hr
  have hr := (hS.mem_iff r).mp hr
  induction hr with
  | refl => exact hp
  | @tail a b _ hb _ => exact fun hf => (hw.leaf b hf).2 a hb

end View

section Globals

variable {g : Globals} {c : PcbId} {S T : List PcbId}

theorem kill_kill (h : ∀ p ∈ T, p ∉ S) : (g.kill S).kill T = g.kill (T ++ S) := by
  have hcount : (T.countP fun p => decide (((g.kill S).pcb p).pSemAdd ≠ NULL)) =
      T.countP fun p => decide ((g.pcb p).pSemAdd ≠ NULL) := by
    refine List.countP_congr fun p hp => ?_
    simp only [Globals.kill, h p hp, if_false]
  have hpcb : ∀ p, ((g.kill S).kill T).pcb p = (g.kill (T ++ S)).pcb p := by
    intro p
    change (if p ∈ T then _ else if p ∈ S then _ else _) = if p ∈ T ++ S then _ else _
    by_cases hT : p ∈ T
    · simp [hT, Globals.kill, h p hT]
    · simp [hT]
  have hsb : ((g.kill S).kill T).sbProcs = (g.kill (T ++ S)).sbProcs := by
    change g.sbProcs - _ - BitVec.ofNat 32 _ = g.sbProcs - BitVec.ofNat 32 _
    rw [hcount, List.countP_append, Nat.add_comm, BitVec.ofNat_add, sub_sub]
  have hprocs : ((g.kill S).kill T).procsCount = (g.kill (T ++ S)).procsCount := by
    change g.procsCount - _ - BitVec.ofNat 32 _ = g.procsCount - BitVec.ofNat 32 _
    rw [List.length_append, Nat.add_comm, BitVec.ofNat_add, sub_sub]
  have hall : (g.kill S).kill T = { g with
      pcb := ((g.kill S).kill T).pcb, sbProcs := ((g.kill S).kill T).sbProcs
      procsCount := ((g.kill S).kill T).procsCount } := rfl
  rw [hall, hsb, hprocs, funext hpcb]
  rfl

theorem kill_setPcb (hc : c ∈ S) :
    (g.setPcb c fun d => { d with pParent := none }).kill S = g.kill S := by
  have hsem : ∀ p, ((g.setPcb c fun d => { d with pParent := none }).pcb p).pSemAdd =
      (g.pcb p).pSemAdd := by
    intro p
    rw [setPcb_pcb]
    split
    · next e => rw [e]
    · rfl
  have hpcb : ∀ p, ((g.setPcb c fun d => { d with pParent := none }).kill S).pcb p =
      (g.kill S).pcb p := by
    intro p
    simp only [Globals.kill, setPcb_pcb]
    by_cases e : p = c
    · subst e; simp [hc]
    · simp [e]
  have hall : (g.setPcb c fun d => { d with pParent := none }).kill S = { g with
      pcb := ((g.setPcb c fun d => { d with pParent := none }).kill S).pcb
      procsCount := g.procsCount - BitVec.ofNat 32 S.length
      sbProcs := g.sbProcs - BitVec.ofNat 32 (S.countP fun p =>
        ((g.setPcb c fun d => { d with pParent := none }).pcb p).pSemAdd ≠ NULL) } := rfl
  rw [hall, funext hpcb]
  simp only [hsem]
  rfl

theorem kill_singleton (g : Globals) (p : PcbId) : g.kill [p] = { g with
    pcb := Function.update g.pcb p { g.pcb p with pParent := none, pSemAdd := NULL }
    procsCount := g.procsCount - 1
    sbProcs := if (g.pcb p).pSemAdd ≠ NULL then g.sbProcs - 1 else g.sbProcs } := by
  have hpcb : (g.kill [p]).pcb =
      Function.update g.pcb p { g.pcb p with pParent := none, pSemAdd := NULL } := by
    funext r
    by_cases e : r = p
    · subst e; simp [Globals.kill]
    · simp [Globals.kill, e]
  have hsb : (g.kill [p]).sbProcs =
      if (g.pcb p).pSemAdd ≠ NULL then g.sbProcs - 1 else g.sbProcs := by
    by_cases e : (g.pcb p).pSemAdd = NULL <;> simp [Globals.kill, e]
  rw [← hpcb, ← hsb]
  rfl

end Globals

/-! ## `kill_proc` -/

section Leave

variable {k : Kernel Lists} {p : PcbId}

theorem outReady_spec (h : ∀ q, p ∈ k.lists.ready q → (k.g.pcb p).pPrio = q.prio) {q : Queue}
    (hq : (k.g.pcb p).pPrio = q.prio) :
    wp (discard (outProcQ q p) : KM Lists PUnit) (fun _ k' => k'.g = k.g ∧ k'.lists.view =
      { k.lists.view with ready := fun q => (k.lists.view.ready q).filter (· ∉ [p]) })
      noExit k := by
  have hw := k.lists.view_wf
  have hmine : ∀ q', p ∈ k.lists.view.ready q' → q' = q := by
    intro q' hmem
    have := (h q' hmem).symm.trans hq
    cases q <;> cases q' <;> first | rfl | exact absurd this (by decide)
  rw [wp_discard, Lists.wp_outProcQ]
  split
  · simp only [Lists.view_eraseReady]
    refine ⟨trivial, View.ext rfl (funext fun q' => ?_) rfl rfl⟩
    change Function.update k.lists.view.ready q _ q' = _
    by_cases e : q' = q
    · subst e
      rw [Function.update_self, erase_eq_filter (hw.ready_nodup _)]
    · rw [Function.update_of_ne e]
      exact (filter_of_notMem fun hmem => e (hmine q' hmem)).symm
  · next hnot =>
    refine ⟨rfl, View.ext rfl (funext fun q' => ?_) rfl rfl⟩
    exact (filter_of_notMem fun hmem => hnot (hmine q' hmem ▸ hmem)).symm

theorem leaveReady_spec (h : ∀ q, p ∈ k.lists.ready q → (k.g.pcb p).pPrio = q.prio) :
    wp (leaveReady p) (fun _ k' => k'.g = k.g ∧ k'.lists.view =
      { k.lists.view with ready := fun q => (k.lists.view.ready q).filter (· ∉ [p]) })
      noExit k := by
  simp only [leaveReady, wp_bind, wp_getG]
  by_cases hhigh : (k.g.pcb p).pPrio = PROCESS_PRIO_HIGH
  · rw [if_pos hhigh]
    exact outReady_spec h (q := .high) hhigh
  · rw [if_neg hhigh, wp_bind, wp_getG]
    by_cases hlow : (k.g.pcb p).pPrio = PROCESS_PRIO_LOW
    · rw [if_pos hlow]
      exact outReady_spec h (q := .low) hlow
    · rw [if_neg hlow, wp_pure]
      refine ⟨rfl, View.ext rfl (funext fun q => (filter_of_notMem fun hmem => ?_).symm) rfl rfl⟩
      have := h q hmem
      cases q
      exacts [hhigh this, hlow this]

end Leave

/-! ## The invariant -/

theorem alive_remove {v : View} {S : List PcbId} (hn : S.Nodup) (hS : ∀ p ∈ S, p ∉ v.free) :
    (v.remove S).alive.card + S.length = v.alive.card := by
  have halive : (v.remove S).alive = v.alive \ S.toFinset := by
    ext p
    simp [View.remove, and_comm]
  have hsub : S.toFinset ⊆ v.alive := fun p hp => by
    simpa using hS p (List.mem_toFinset.mp hp)
  rw [halive, ← List.toFinset_card_of_nodup hn, Finset.card_sdiff_add_card_eq_card hsub]

theorem waiting_kill {g : Globals} {S : List PcbId} (hn : S.Nodup) :
    (g.kill S).waiting.card + S.countP (fun p => (g.pcb p).pSemAdd ≠ NULL) = g.waiting.card := by
  have hwaiting : (g.kill S).waiting =
      g.waiting \ (S.filter fun p => (g.pcb p).pSemAdd ≠ NULL).toFinset := by
    ext p
    by_cases hp : p ∈ S <;> simp [Globals.kill, hp]
  have hsub : (S.filter fun p => (g.pcb p).pSemAdd ≠ NULL).toFinset ⊆ g.waiting := fun p hp => by
    have := (List.mem_filter.mp (List.mem_toFinset.mp hp)).2
    simpa using this
  rw [hwaiting, List.countP_eq_length_filter, ← List.toFinset_card_of_nodup (hn.filter _),
    Finset.card_sdiff_add_card_eq_card hsub]

theorem KTags.kill {k : Kernel View} {S : List PcbId} (h : KTags k) (hS : k.lists.Closed S) :
    KTags (k.kill S) where
  blocked p s := by
    change p ∈ (k.lists.blocked s).filter (· ∉ S) ↔
      (if p ∈ S then _ else _ : Pcb).pSemAdd = s ∧ s ≠ NULL
    by_cases hp : p ∈ S
    · have : ¬ (NULL = s ∧ s ≠ NULL) := fun hc => hc.2 hc.1.symm
      simp [hp, this]
    · simp [hp, h.blocked p s]
  prio q p hp := by
    change (if p ∈ S then _ else _ : Pcb).pPrio = q.prio
    have hp := h.prio q p (List.mem_of_mem_filter hp)
    split <;> exact hp
  parent p hp q := by
    have hp' : p ∉ S ∧ p ∉ k.lists.free := by simpa [Kernel.kill, View.remove] using hp
    change (if p ∈ S then _ else _ : Pcb).pParent = some q ↔
      p ∈ if q ∈ S then [] else (k.lists.child q).filter (· ∉ S)
    rw [if_neg hp'.1, h.parent p hp'.2 q]
    by_cases hq : q ∈ S
    · simpa [hq] using fun hc => hp'.1 (hS q hq p hc)
    · simp [hq, hp'.1]
  rank := by
    obtain ⟨rk, hrk⟩ := h.rank
    refine ⟨rk, fun p q hp => hrk p q ?_⟩
    change p ∈ (if q ∈ S then [] else (k.lists.child q).filter (· ∉ S)) at hp
    split at hp
    · cases hp
    · exact List.mem_of_mem_filter hp

/-! ## The first two parts of `kill_proc`, and all of it -/

section Leave

variable {k : Kernel Lists} {p : PcbId}

theorem leaveParent_spec (h : KTags k.abs) (hp : p ∉ k.lists.free) :
    wp (leaveParent p) (fun _ k' => k'.lists.view = k.lists.view.eraseChild p ∧
      k'.g = k.g.setPcb p fun c => { c with pParent := none }) noExit k := by
  simp only [leaveParent, wp_bind, wp_getG]
  by_cases hpar : (k.g.pcb p).pParent = none
  · have hnot : ∀ q, p ∉ k.lists.view.child q := fun q hq => by
      have := (h.parent p hp q).mpr hq
      rw [show (k.abs.g.pcb p).pParent = none from hpar] at this
      cases this
    simp only [hpar, ne_eq, not_true_eq_false, if_false, wp_pure]
    rw [View.eraseChild_of_notMem hnot, setPcb_eq_self (by rw [← hpar])]
    trivial
  · obtain ⟨q, hq⟩ := Option.ne_none_iff_exists'.mp hpar
    have hmem : ∃ q, p ∈ k.lists.child q := ⟨q, (h.parent p hp q).mp hq⟩
    simp only [hpar, ne_eq, not_false_eq_true, if_true, wp_bind, Lists.wp_outChild hpar hmem,
      not_true_eq_false, if_false, wp_pure]
    exact ⟨rfl, trivial⟩

theorem leaveSemaphore_spec (h : KTags k.abs) :
    wp (leaveSemaphore p) (fun _ k' =>
      k'.lists.view = { k.lists.view with
        blocked := fun s => (k.lists.view.blocked s).filter (· ∉ [p]) } ∧
      k'.g = { k.g.setPcb p fun c => { c with pSemAdd := NULL } with
        sbProcs := if (k.g.pcb p).pSemAdd ≠ NULL then k.g.sbProcs - 1 else k.g.sbProcs })
      noExit k := by
  have hw := k.lists.view_wf
  simp only [leaveSemaphore, wp_bind, wp_getG]
  by_cases hsem : (k.g.pcb p).pSemAdd = NULL
  · have hnot : ∀ s, p ∉ k.lists.view.blocked s := fun s hs => by
      have := (h.blocked p s).mp hs
      exact this.2 (this.1.symm.trans hsem)
    simp only [hsem, ne_eq, not_true_eq_false, if_false, wp_pure]
    refine ⟨View.ext rfl rfl (funext fun s => (filter_of_notMem (hnot s)).symm) rfl, ?_⟩
    rw [setPcb_eq_self (by rw [← hsem])]
  · have hmem : p ∈ k.lists.asl.get (k.g.pcb p).pSemAdd := (h.blocked p _).mpr ⟨rfl, hsem⟩
    have hout := fun Q => Lists.wp_outBlocked (E := noExit) (Q := Q)
      (k := ⟨k.lists, { k.g with sbProcs := k.g.sbProcs - 1 }⟩) hsem hmem
    simp only [hsem, ne_eq, not_false_eq_true, if_true, wp_bind, wp_modifyG]
    rw [hout]
    simp only [reduceCtorEq, if_false, wp_pure, Lists.view_eraseBlocked]
    refine ⟨View.ext rfl rfl (funext fun s => ?_) rfl, rfl⟩
    change Function.update k.lists.view.blocked _ _ s = _
    by_cases hs : s = (k.g.pcb p).pSemAdd
    · subst hs
      rw [Function.update_self, erase_eq_filter (hw.blocked_nodup _)]
    · rw [Function.update_of_ne hs]
      exact (filter_of_notMem fun hr => hs ((h.blocked p s).mp hr).1.symm).symm

/-- `kill_proc` on a process without children. -/
theorem killProc_spec (h : KTags k.abs) (hp : p ∉ k.lists.free) (hleaf : k.lists.child p = []) :
    wp (killProc p) (fun _ k' => k'.abs = k.abs.kill [p]) noExit k := by
  simp only [killProc, wp_bind, wp_modifyG]
  have h1 : KTags (Kernel.abs ⟨k.lists, { k.g with procsCount := k.g.procsCount - 1 }⟩) :=
    h.congr (.of_pcb rfl)
  refine wp_mono (fun _ k1 ⟨hv1, hg1⟩ => ?_) (fun _ _ hf => hf) (leaveParent_spec h1 hp)
  have h2 : KTags k1.abs := by
    change KTags ⟨k1.lists.view, k1.g⟩
    rw [hv1, hg1]
    exact h1.eraseChild k.lists.view_wf
  refine wp_mono (fun _ k2 ⟨hv2, hg2⟩ => ?_) (fun _ _ hf => hf) (leaveSemaphore_spec h2)
  have hprio : ∀ q, p ∈ k2.lists.view.ready q → (k2.g.pcb p).pPrio = q.prio := by
    intro q hq
    rw [hv2] at hq
    rw [hg2, ← h2.prio q p hq]
    change ((k1.g.setPcb p fun c => { c with pSemAdd := NULL }).pcb p).pPrio = _
    rw [setPcb_pcb, if_pos rfl]
    rfl
  refine wp_mono (fun _ k3 ⟨hg3, hv3⟩ => ?_) (fun _ _ hf => hf) (leaveReady_spec hprio)
  have hview : k3.lists.view = ⟨k.lists.free, fun q => (k.lists.view.ready q).filter (· ∉ [p]),
      fun s => (k.lists.view.blocked s).filter (· ∉ [p]), fun q => (k.lists.child q).erase p⟩ := by
    rw [hv3, hv2, hv1]
    rfl
  have hchild : ∀ q, k3.lists.child q = (k.lists.child q).erase p := fun q =>
    congrFun (congrArg View.child hview) q
  have hocc : k3.lists.occ p = 0 := by
    refine Lists.occ_eq_zero.mpr ?_
    rw [hview]
    exact ⟨hp, fun q => by simp, fun s => by simp⟩
  have hleaf3 : k3.lists.child p = [] := by rw [hchild, hleaf]; rfl
  have horphan : ∀ q, p ∉ k3.lists.child q := fun q => by
    rw [hchild]
    exact (k.lists.siblings q).not_mem_erase
  rw [Lists.wp_freePcb hocc hleaf3 horphan]
  simp only [abs_mk, Lists.view_pushFree, hview]
  refine congrArg₂ Kernel.mk (View.ext rfl rfl rfl (funext fun q => ?_)) ?_
  · change (k.lists.child q).erase p = if q ∈ [p] then [] else (k.lists.child q).filter (· ∉ [p])
    by_cases e : q = p
    · subst e; simp [hleaf]
    · rw [if_neg (by simpa using e), erase_eq_filter (k.lists.siblings q)]
  · rw [hg3, hg2, hg1]
    change _ = k.g.kill [p]
    simp only [kill_singleton, Globals.setPcb, Function.update_self, Function.update_idem]

end Leave

/-! ## The recursion -/

open Classical in
/-- Removing children one after the other and killing what is below them first ends, and kills
    exactly the subtree: every round leaves fewer descendants. -/
theorem killParentAndProgeny_spec (fuel : Nat) :
    ∀ {k : Kernel Lists} {p : PcbId}, KTags k.abs → p ∉ k.lists.free →
      (Finset.univ.filter fun r => k.lists.view.Desc p r).card ≤ fuel →
      wp (killParentAndProgeny fuel p) (fun _ k' => ∃ S,
        k.lists.view.Subtree p S ∧ k'.abs = k.abs.kill S) noExit k := by
  induction fuel with
  | zero =>
    intro k p h hp hfuel
    have hself : p ∈ Finset.univ.filter fun r => k.lists.view.Desc p r :=
      Finset.mem_filter.mpr ⟨Finset.mem_univ p, .refl⟩
    rw [Nat.le_zero, Finset.card_eq_zero] at hfuel
    rw [hfuel] at hself
    cases hself
  | succ fuel ih =>
    intro k p h hp hfuel
    have hw := k.lists.view_wf
    rw [killParentAndProgeny, wp_bind]
    cases hc : k.lists.child p with
    | nil =>
      rw [Lists.wp_removeChild_nil hp hc]
      exact wp_mono (fun _ k' hk' => ⟨[p], View.subtree_leaf hc, hk'⟩) (fun _ _ hf => hf)
        (killProc_spec h hp hc)
    | cons c cs =>
      have hcp : c ∈ k.lists.view.child p := by
        change c ∈ k.lists.child p
        rw [hc]
        exact List.mem_cons_self
      have hcf : c ∉ k.lists.free := fun hf => (hw.leaf c hf).2 p hcp
      obtain ⟨rank, hrank⟩ := h.rank
      have hlt := hrank c p hcp
      have hnot : ¬ k.lists.view.Desc c p := fun hd => by
        have := View.rank_le_of_desc hrank hd
        omega
      rw [Lists.wp_removeChild_cons hp hc]
      simp only [wp_bind]
      have h1 : KTags (Kernel.abs ⟨k.lists.eraseChild c,
          k.g.setPcb c fun d => { d with pParent := none }⟩) := h.eraseChild hw
      have hdesc : ∀ r, (k.lists.eraseChild c).view.Desc c r ↔ k.lists.view.Desc c r := fun r =>
        View.desc_eraseChild hrank
      -- the subtree of `c` does not contain `p`
      have hfuel1 : (Finset.univ.filter fun r => k.lists.view.Desc c r).card ≤ fuel := by
        refine Nat.lt_succ_iff.mp (Nat.lt_of_lt_of_le (Finset.card_lt_card ?_) hfuel)
        refine (Finset.ssubset_iff_of_subset fun r hr => ?_).mpr ⟨p, ?_, ?_⟩
        · exact Finset.mem_filter.mpr ⟨Finset.mem_univ r, .head hcp (Finset.mem_filter.mp hr).2⟩
        · exact Finset.mem_filter.mpr ⟨Finset.mem_univ p, .refl⟩
        · exact fun hr => hnot (Finset.mem_filter.mp hr).2
      refine wp_mono (fun _ k2 ⟨T, hT, hk2⟩ => ?_) (fun _ _ hf => hf)
        (ih h1 hcf (by simpa only [hdesc] using hfuel1))
      have hT : k.lists.view.Subtree c T := ⟨hT.nodup, fun r => by rw [hT.mem_iff, hdesc]⟩
      have hcT : c ∈ T := (hT.mem_iff c).mpr .refl
      have hpT : p ∉ T := fun hm => hnot ((hT.mem_iff p).mp hm)
      have hk2 : k2.abs = k.abs.kill T := by
        rw [hk2]
        exact congrArg₂ Kernel.mk (View.remove_eraseChild hw hcT) (kill_setPcb hcT)
      obtain ⟨hv2, hg2⟩ := Kernel.mk.inj hk2
      change k2.lists.view = k.lists.view.remove T at hv2
      have hp2 : p ∉ k2.lists.view.free := by
        rw [hv2]
        exact fun hm => (List.mem_append.mp hm).elim hpT hp
      -- what is left below `p` does not contain `c`
      have hfuel2 : (Finset.univ.filter fun r => k2.lists.view.Desc p r).card ≤ fuel := by
        rw [hv2]
        refine Nat.lt_succ_iff.mp (Nat.lt_of_lt_of_le (Finset.card_lt_card ?_) hfuel)
        refine (Finset.ssubset_iff_of_subset fun r hr => ?_).mpr ⟨c, ?_, ?_⟩
        · have hr := (View.desc_remove hT.closed hpT).mp (Finset.mem_filter.mp hr).2
          exact Finset.mem_filter.mpr ⟨Finset.mem_univ r, hr.1⟩
        · exact Finset.mem_filter.mpr ⟨Finset.mem_univ c, .single hcp⟩
        · exact fun hr => ((View.desc_remove hT.closed hpT).mp (Finset.mem_filter.mp hr).2).2 hcT
      have h2 : KTags k2.abs := by rw [hk2]; exact h.kill hT.closed
      refine wp_mono (fun _ k3 ⟨S, hS, hk3⟩ => ⟨S ++ T, ?_, ?_⟩) (fun _ _ hf => hf)
        (ih h2 hp2 hfuel2)
      · rw [hv2] at hS
        exact hT.append hcp hpT hS
      · rw [hk3, hk2]
        have hdisj : ∀ r ∈ S, r ∉ T := fun r hr => by
          rw [hv2] at hS
          exact ((View.desc_remove hT.closed hpT).mp ((hS.mem_iff r).mp hr)).2
        exact congrArg₂ Kernel.mk View.remove_remove (kill_kill hdisj)

theorem killTree_spec {k : Kernel Lists} {p : PcbId} (h : KTags k.abs) (hp : p ∉ k.lists.free) :
    wp (killParentAndProgeny killFuel p) (fun _ k' => ∃ S,
      k.lists.view.Subtree p S ∧ k'.abs = k.abs.kill S) noExit k := by
  classical
  refine killParentAndProgeny_spec killFuel h hp (le_trans (Finset.card_le_univ _) ?_)
  rw [Fintype.card_fin]
  decide

/-! ## The invariant -/

variable [Layout]

theorem KCore.kill {k : Kernel View} {S : List PcbId} (h : KCore k) (hS : k.lists.Closed S) :
    KCore (k.kill S) where
  toKTags := h.toKTags.kill hS
  pidLive p hp := by
    have hp' : p ∉ S ∧ p ∉ k.lists.free := by simpa [Kernel.kill, View.remove] using hp
    change (if p ∈ S then _ else _ : Pcb).pPid = _
    rw [if_neg hp'.1]
    exact h.pidLive p hp'.2
  pidFree p := by
    change (if p ∈ S then _ else _ : Pcb).pPid = _ ∨ (if p ∈ S then _ else _ : Pcb).pPid = _
    split <;> exact h.pidFree p

/-- The invariant after the death of live processes with all their progeny. -/
theorem KInv.kill {k : Kernel View} {S : List PcbId} (h : KInv k) (hn : S.Nodup)
    (hc : k.lists.Closed S) (hS : ∀ p ∈ S, p ∉ k.lists.free) : KInv (k.kill S) where
  toKCore := h.toKCore.kill hc
  procs := by
    change k.g.procsCount - _ = BitVec.ofNat 32 (k.lists.remove S).alive.card
    rw [h.procs, ← alive_remove hn hS, BitVec.ofNat_add, add_sub_cancel_right]
  sb := by
    change k.g.sbProcs - _ = BitVec.ofNat 32 (k.g.kill S).waiting.card
    rw [h.sb, ← waiting_kill hn, BitVec.ofNat_add, add_sub_cancel_right]

end Rocm
