import Rocm.Proofs.Actions
import Rocm.Refine.Queues

/-!
# The process tree and the free list on well-formed links (`pcb.c`)

The children are a family of lists with a head in every PCB that has been allocated once.
-/

namespace Rocm

open Ring Prog

namespace Heap

variable {k : Kernel Heap} {E : Exit → Kernel Heap → Prop} {T : PcbId → Option (List PcbId)}
  {p q : PcbId} {cs xs ys : List PcbId}

/-- `l'` is `l` with other lists of children, which are `T'`; no head outside `T` has changed. -/
structure TreeTo (l l' : Links (Node PcbId PcbId)) (T T' : PcbId → Option (List PcbId)) :
    Prop where
  family : Family l' T'
  head : ∀ r, T' r = none → T r = none ∧ l'.next (.head r) = l.next (.head r)

theorem none_of_update {r : PcbId} (h : Function.update T q (some xs) r = none) :
    T r = none ∧ r ≠ q := by
  rw [Function.update_apply] at h
  split at h
  · cases h
  · next e => exact ⟨h, e⟩

theorem insertChild_spec (hf : Family k.lists.tree T) (hT : T q = some cs) (hp : Absent T p) :
    wp (insertChild q p) (fun _ k' => ∃ l,
      k' = (k.mapG (·.setPcb p fun c => { c with pParent := some q })).setTree l ∧
      TreeTo k.lists.tree l T (Function.update T q (some (p :: cs)))) E k := by
  rw [insertChild, wp_bind, wp_modifyG_mapG, wp_treeM (k := k.mapG _) (listAdd_eq (hf.ring hT))]
  refine ⟨_, rfl, hf.push_front hT hp, fun r hr => ?_⟩
  obtain ⟨hr, hrq⟩ := none_of_update hr
  exact ⟨hr, by rw [splice_next, if_neg (by simpa using hrq), if_neg (by simp)]; rfl⟩

/-- A child is unlinked. -/
theorem unlinkChild_eq (hf : Family k.lists.tree T) (hT : T q = some (xs ++ p :: ys)) :
    ∃ l, listDel (.elem p) k.lists.tree = some l ∧
      TreeTo k.lists.tree l T (Function.update T q (some (xs ++ ys))) := by
  have hring := hf.ring hT
  rw [List.map_append, List.map_cons] at hring
  refine ⟨_, listDel_eq hring, hf.remove hT, fun r hr => ?_⟩
  obtain ⟨hr, hrq⟩ := none_of_update hr
  refine ⟨hr, ?_⟩
  rw [bypass_next, if_neg]
  rcases getLastD_map q xs with e | ⟨y, -, e⟩ <;> rw [e]
  · simpa using hrq
  · simp

theorem removeChild_spec (hf : Family k.lists.tree T) (hT : T q = some cs) :
    wp (removeChild q) (fun r k' => r = cs.head? ∧ (cs = [] → k' = k) ∧
      ∀ p ps, cs = p :: ps → ∃ l,
        k' = (k.setTree l).mapG (·.setPcb p fun c => { c with pParent := none }) ∧
        TreeTo k.lists.tree l T (Function.update T q (some ps))) E k := by
  have hring := hf.ring hT
  have hempty := listEmpty_eq hring
  rw [List.isEmpty_map] at hempty
  simp only [removeChild, wp_bind, wp_get, hempty]
  cases cs with
  | nil => exact ⟨rfl, fun _ => rfl, by simp⟩
  | cons c cs =>
    have hnext := hring.path.next_first
    have hfirst : T q = some ([] ++ c :: cs) := hT
    obtain ⟨l, hl, hto⟩ := unlinkChild_eq hf hfirst
    simp only [List.isEmpty_cons, Bool.false_eq_true, if_false, listNext, hempty, hnext,
      List.map_cons, List.headD_cons, containerOf, wp_bind, wp_pure]
    rw [wp_treeM hl]
    exact ⟨rfl, by simp, fun p ps e => by cases e; exact ⟨l, rfl, hto⟩⟩

theorem outChild_spec (hf : Family k.lists.tree T) (hT : T q = some cs) (hp : p ∈ cs)
    (hpar : (k.g.pcb p).pParent ≠ none) :
    wp (outChild p) (fun r k' => r = some p ∧ ∃ l,
      k' = (k.setTree l).mapG (·.setPcb p fun c => { c with pParent := none }) ∧
      TreeTo k.lists.tree l T (Function.update T q (some (cs.erase p)))) E k := by
  have hnd : cs.Nodup := List.Nodup.of_map Node.elem (List.nodup_cons.mp (hf.ring hT).nodup).2
  obtain ⟨as, bs, rfl⟩ := List.append_of_mem hp
  have has : p ∉ as := fun hm => (List.nodup_append.mp hnd).2.2 p hm p (by simp) rfl
  obtain ⟨l, hl, hto⟩ := unlinkChild_eq hf hT
  rw [List.erase_append_right _ has, List.erase_cons_head]
  simp only [outChild, wp_bind, wp_getG, hpar, if_false]
  rw [wp_treeM hl]
  exact ⟨rfl, l, rfl, hto⟩

/-! ## The free list -/

variable {Q : PHead → Option (List PcbId)} {ps : List PcbId}

theorem freePcb_spec (hf : Family k.lists.procs Q) (hQ : Q .pcbFreeH = some ps)
    (hp : Absent Q p) :
    wp (freePcb p) (fun _ k' => k'.g = k.g.setPcb p (fun c => { c with pSemAdd := NULL }) ∧
      ProcsTo (k.mapG fun _ => k'.g) k' Q (Function.update Q .pcbFreeH (some (p :: ps)))) E k := by
  rw [freePcb, wp_bind, wp_modifyG_mapG, wp_procsM (k := k.mapG _) (listAdd_eq (hf.ring hQ))]
  exact ⟨rfl, rfl, hf.push_front hQ hp, fun hs => hs.push_front hQ⟩

/-- What `alloc_pcb` does to the links: the first free PCB is taken out, and its three nodes are
    initialised. -/
theorem allocPcb_links (hf : Family k.lists.procs Q) (hQ : Q .pcbFreeH = some ps) :
    wp allocPcb (fun r k' => r = ps.head? ∧ (ps = [] → k' = k) ∧ ∀ p qs, ps = p :: qs → ∃ lp,
      k' = ((k.mapG (·.setPcb p Lists.allocated)).setProcs lp).setTree
        (selfLink (.elem p) (selfLink (.head p) k.lists.tree)) ∧
      Family lp (Function.update Q .pcbFreeH (some qs)) ∧
      IsRing lp (.elem p) [] ∧
      (SelfLinked k.lists.procs Q → SelfLinked lp (Function.update Q .pcbFreeH (some qs))))
      noExit k := by
  have hring := hf.ring hQ
  have hempty := listEmpty_eq hring
  rw [List.isEmpty_map] at hempty
  simp only [allocPcb, wp_bind, wp_get, hempty]
  cases ps with
  | nil => exact ⟨rfl, fun _ => rfl, by simp⟩
  | cons p ps =>
    have hnext := hring.path.next_first
    have hfirst : Q .pcbFreeH = some ([] ++ p :: ps) := hQ
    have hring' : IsRing k.lists.procs (.head .pcbFreeH) ([] ++ .elem p :: ps.map .elem) := hring
    simp only [List.isEmpty_cons, Bool.false_eq_true, if_false, hnext, List.map_cons,
      List.headD_cons, containerOf, wp_pure, wp_bind]
    rw [wp_procsM (listDel_eq hring'), wp_modifyG_mapG,
      wp_procsM (l := selfLink (.elem p) (bypass _ _ k.lists.procs)) rfl,
      wp_treeM (l := selfLink (.head p) k.lists.tree) rfl,
      wp_treeM (l := selfLink (.elem p) (selfLink (.head p) k.lists.tree)) rfl, wp_modifyG_mapG]
    refine ⟨rfl, by simp, fun _ _ e => ?_⟩
    cases e
    refine ⟨_, ?_, (hf.remove hfirst).initElem (hf.absent_remove hfirst),
      isRing_selfLink _ _, fun hs => hs.remove hfirst⟩
    refine congrArg₂ Kernel.mk rfl ?_
    simp only [Globals.setPcb, Kernel.mapG, Kernel.setProcs, Kernel.setTree, Function.update_self,
      Function.update_idem]
    rfl

theorem allocPcb_spec (hf : Family k.lists.procs Q) (hQ : Q .pcbFreeH = some ps)
    (ht : Family k.lists.tree T) (habs : ∀ p ∈ ps, Absent T p) :
    wp allocPcb (fun r k' => r = ps.head? ∧ (ps = [] → k' = k) ∧
      ∀ p qs, ps = p :: qs → ∃ lp lt,
        k' = ((k.mapG (·.setPcb p Lists.allocated)).setProcs lp).setTree lt ∧
        Family lp (Function.update Q .pcbFreeH (some qs)) ∧
        (SelfLinked k.lists.procs Q → SelfLinked lp (Function.update Q .pcbFreeH (some qs))) ∧
        TreeTo k.lists.tree lt T (Function.update T p (some []))) noExit k := by
  refine wp_mono (fun r k' ⟨hr, hnil, hcons⟩ => ⟨hr, hnil, fun p qs e => ?_⟩) (fun _ _ h => h)
    (allocPcb_links hf hQ)
  obtain ⟨lp, heq, hfam, -, hs⟩ := hcons p qs e
  have hp : p ∈ ps := e ▸ List.mem_cons_self
  have hT := (ht.init p).initElem (absent_update (h := p) (habs p hp) (List.not_mem_nil (a := p)))
  refine ⟨lp, _, heq, hfam, hs, hT, fun r hr => ?_⟩
  obtain ⟨hr, hrp⟩ := none_of_update hr
  exact ⟨hr, by rw [selfLink_next, if_neg (by simp), selfLink_next, if_neg (by simpa using hrp)]⟩

/-- `init_pcbs`: every PCB is free. -/
theorem initPcbs_spec (k : Kernel Heap) :
    wp initPcbs (fun _ k' => k'.g = { k.g with pcb := fun p => { k.g.pcb p with pSemAdd := NULL } } ∧
      k'.lists.tree = k.lists.tree ∧ Family k'.lists.procs fun h =>
        if h = .pcbFreeH then some (List.finRange MAXPROC) else none) noExit k := by
  have hnone : Family k.lists.procs (fun _ => none) := ⟨fun h => by simp at h, fun h => by simp at h⟩
  have hnd := List.nodup_finRange MAXPROC
  have hall : ∀ i : PcbId, i ∈ List.finRange MAXPROC := List.mem_finRange
  simp only [initPcbs, wp_bind]
  generalize List.finRange MAXPROC = xs at hnd hall ⊢
  rw [wp_procsM (l := selfLink (.head .pcbFreeH) k.lists.procs) rfl]
  refine wp_mono (fun _ k' ⟨hg, htree, hf⟩ => ?_) (fun _ _ h => h)
    (wp_forM (I := fun ys k' => k'.g = { k.g with
      pcb := fun p => if p ∈ ys then { k.g.pcb p with pSemAdd := NULL } else k.g.pcb p } ∧
      k'.lists.tree = k.lists.tree ∧
      Family k'.lists.procs (Function.update (fun _ => none) .pcbFreeH (some ys)))
      (fun ys i k' hys ⟨hg, htree, hf⟩ => ?_) ⟨by simp, rfl, hnone.init .pcbFreeH⟩)
  · have hi : i ∉ ys := fun hm =>
      (List.nodup_append.mp (hys.sublist.nodup hnd)).2.2 i hm i (by simp) rfl
    have hQ : Function.update (fun _ => none) PHead.pcbFreeH (some ys) .pcbFreeH = some ys :=
      Function.update_self ..
    have habs : Absent (Function.update (fun _ => none) PHead.pcbFreeH (some ys)) i :=
      absent_update (fun _ _ h => by simp at h) hi
    have hpush := hf.push_back hQ habs
    rw [Function.update_idem] at hpush
    rw [wp_bind, wp_modifyG_mapG, wp_procsM (k := k'.mapG _) (listAddTail_eq (hf.ring hQ))]
    refine ⟨?_, htree, hpush⟩
    simp only [setProcs_g, mapG_g, hg]
    refine congrArg (fun pcb => { k.g with pcb := pcb }) (funext fun p => ?_)
    rw [Function.update_apply]
    by_cases e : p = i
    · subst e; simp [hi]
    · simp [e]
  · refine ⟨?_, htree, ?_⟩
    · rw [hg]; simp only [hall, if_true]
    · have : Function.update (fun _ => none) PHead.pcbFreeH (some xs) =
          fun h => if h = .pcbFreeH then some xs else none := by
        funext h; rw [Function.update_apply]
      rwa [this] at hf

end Heap

end Rocm
