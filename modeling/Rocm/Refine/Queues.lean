import Rocm.Proofs.ListOps

/-!
# The list functions of `pcb.c` on well-formed links

Each function is specified on a family of intrusive lists: it changes the list of one head as
the corresponding operation on sequences, and every other list stays.
-/

namespace Rocm

open Ring Prog

section Listx

variable {α : Type} [DecidableEq α] {l : Links α} {h x : α} {xs ys : List α}

theorem listAdd_eq (hr : IsRing l h xs) : listAdd x h l = some (splice x h (xs.headD h) l) := by
  rw [listAdd, hr.path.next_first]
  rfl

theorem listAddTail_eq (hr : IsRing l h xs) :
    listAddTail x h l = some (splice x (xs.getLastD h) h l) := by
  rw [listAddTail, hr.path.prev_last]
  rfl

theorem listDel_eq (hr : IsRing l h (xs ++ x :: ys)) :
    listDel x l = some (bypass (xs.getLastD h) (ys.headD h) l) := by
  obtain ⟨hprev, hnext⟩ := hr.neighbours
  rw [listDel, hprev, hnext]
  rfl

theorem listEmpty_eq (hr : IsRing l h xs) : listEmpty h l = xs.isEmpty := by
  rw [listEmpty, Bool.eq_iff_iff, decide_eq_true_eq, hr.eq_nil_iff, List.isEmpty_iff]

end Listx

namespace Heap

variable {η μ : Type} [DecidableEq η] [DecidableEq μ]

/-- The first element with `f`, when the loop gets to the end of the list. -/
theorem listForEach_eq {l : Links (Node η μ)} {head : η} {xs : List μ}
    (hr : IsRing l (.head head) (xs.map .elem)) (hlen : xs.length < walkFuel) (f : μ → Bool) :
    listForEach l head f = pure (xs.find? f) := by
  have hfind : ∀ g : Node η μ → Bool, (∀ m, g (.elem m) = f m) →
      (xs.map .elem).find? g = (xs.find? f).map .elem := by
    intro g hg
    rw [List.find?_map]
    exact congrArg (fun f => (xs.find? f).map Node.elem) (funext hg)
  rw [listForEach, hr.walk_eq _ (by simpa using hlen), hfind _ fun _ => rfl]
  cases xs.find? f <;> rfl

/-- The elements that a walk shows. -/
theorem elems_eq {l : Links (Node η μ)} {head : η} {xs : List μ}
    (hr : IsRing l (.head head) (xs.map .elem)) (hlen : xs.length < walkFuel) :
    elems l head = xs := by
  rw [elems, hr.toList_eq (by simpa using hlen), Option.getD_some, List.filterMap_map]
  exact List.filterMap_some

theorem length_lt_walkFuel {xs : List (Fin MAXPROC)} (h : xs.Nodup) : xs.length < walkFuel := by
  have := h.length_le_card
  rw [Fintype.card_fin] at this
  exact Nat.lt_of_le_of_lt this (by decide)

end Heap

/-- The nucleus with other process queues. -/
def Kernel.setProcs (k : Kernel Heap) (l : Links (Node PHead PcbId)) : Kernel Heap :=
  { k with lists := { k.lists with procs := l } }

/-- The nucleus with other lists of children. -/
def Kernel.setTree (k : Kernel Heap) (l : Links (Node PcbId PcbId)) : Kernel Heap :=
  { k with lists := { k.lists with tree := l } }

/-- The nucleus with other lists of semaphore descriptors. -/
def Kernel.setSemds (k : Kernel Heap) (l : Links (Node SHead SemdId)) : Kernel Heap :=
  { k with lists := { k.lists with semds := l } }

namespace Heap

variable {k : Kernel Heap} {E : Exit → Kernel Heap → Prop}

@[simp] theorem setProcs_procs (l) : (k.setProcs l).lists.procs = l := rfl
@[simp] theorem setProcs_tree (l) : (k.setProcs l).lists.tree = k.lists.tree := rfl
@[simp] theorem setProcs_semds (l) : (k.setProcs l).lists.semds = k.lists.semds := rfl
@[simp] theorem setProcs_sKey (l) : (k.setProcs l).lists.sKey = k.lists.sKey := rfl
@[simp] theorem setProcs_g (l) : (k.setProcs l).g = k.g := rfl
@[simp] theorem setProcs_setProcs (l l') : (k.setProcs l).setProcs l' = k.setProcs l' := rfl
@[simp] theorem setTree_procs (l) : (k.setTree l).lists.procs = k.lists.procs := rfl
@[simp] theorem setTree_tree (l) : (k.setTree l).lists.tree = l := rfl
@[simp] theorem setTree_g (l) : (k.setTree l).g = k.g := rfl
@[simp] theorem setSemds_procs (l) : (k.setSemds l).lists.procs = k.lists.procs := rfl
@[simp] theorem setSemds_semds (l) : (k.setSemds l).lists.semds = l := rfl
@[simp] theorem setSemds_sKey (l) : (k.setSemds l).lists.sKey = k.lists.sKey := rfl
@[simp] theorem setSemds_g (l) : (k.setSemds l).g = k.g := rfl

theorem wp_modifyG_mapG {Q : PUnit → Kernel Heap → Prop} (f : Globals → Globals) :
    wp (modifyG f) Q E k = Q ⟨⟩ (k.mapG f) := (rfl)

theorem wp_procsM {f : Links (Node PHead PcbId) → Option (Links (Node PHead PcbId))}
    {Q : PUnit → Kernel Heap → Prop} {l : Links (Node PHead PcbId)}
    (h : f k.lists.procs = some l) : wp (procsM f) Q E k = Q ⟨⟩ (k.setProcs l) := by
  simp only [procsM, wp_bind, wp_get, h, wp_set]
  rfl

theorem wp_treeM {f : Links (Node PcbId PcbId) → Option (Links (Node PcbId PcbId))}
    {Q : PUnit → Kernel Heap → Prop} {l : Links (Node PcbId PcbId)}
    (h : f k.lists.tree = some l) : wp (treeM f) Q E k = Q ⟨⟩ (k.setTree l) := by
  simp only [treeM, wp_bind, wp_get, h, wp_set]
  rfl

theorem wp_semdsM {f : Links (Node SHead SemdId) → Option (Links (Node SHead SemdId))}
    {Q : PUnit → Kernel Heap → Prop} {l : Links (Node SHead SemdId)}
    (h : f k.lists.semds = some l) : wp (semdsM f) Q E k = Q ⟨⟩ (k.setSemds l) := by
  simp only [semdsM, wp_bind, wp_get, h, wp_set]
  rfl

/-! ## Process queues -/

variable {Q : PHead → Option (List PcbId)} {h : PHead} {p : PcbId} {xs ys : List PcbId}

/-- `k'` is `k` with other process queues, which hold the lists `Q'`. -/
structure ProcsTo (k k' : Kernel Heap) (Q Q' : PHead → Option (List PcbId)) : Prop where
  eq : k' = k.setProcs k'.lists.procs
  family : Family k'.lists.procs Q'
  self : SelfLinked k.lists.procs Q → SelfLinked k'.lists.procs Q'

/-- Moreover `p`, which was in a list, is now linked to itself. -/
structure TakenOut (p : PcbId) (k k' : Kernel Heap) (Q Q' : PHead → Option (List PcbId)) : Prop
    extends ProcsTo k k' Q Q' where
  alone : IsRing k'.lists.procs (.elem p) []

theorem wp_mkEmptyProcQ {P : PUnit → Kernel Heap → Prop} : wp (mkEmptyProcQ h) P E k =
    P ⟨⟩ (k.setProcs (selfLink (.head h) k.lists.procs)) := wp_procsM rfl

theorem wp_emptyProcQ {P : Bool → Kernel Heap → Prop} (hf : Family k.lists.procs Q)
    (hQ : Q h = some xs) : wp (emptyProcQ h) P E k = P xs.isEmpty k := by
  simp only [emptyProcQ, wp_bind, wp_get, wp_pure, listEmpty_eq (hf.ring hQ), List.isEmpty_map]

theorem insertProcQ_spec (hf : Family k.lists.procs Q) (hQ : Q h = some xs) (hp : Absent Q p) :
    wp (insertProcQ h p) (fun _ k' => ProcsTo k k' Q (Function.update Q h (some (xs ++ [p])))) E k := by
  rw [insertProcQ, wp_procsM (listAddTail_eq (hf.ring hQ))]
  exact ⟨rfl, hf.push_back hQ hp, fun hs => hs.push_back hQ⟩

theorem headProcQ_spec {P : Option PcbId → Kernel Heap → Prop} (hf : Family k.lists.procs Q)
    (hQ : Q h = some xs) : wp (headProcQ h) P E k = P xs.head? k := by
  simp only [headProcQ, wp_bind]
  rw [wp_emptyProcQ hf hQ]
  cases xs with
  | nil => simp
  | cons p ps =>
    have hnext := (hf.ring hQ).path.next_first
    simp only [List.isEmpty_cons, Bool.false_eq_true, if_false, wp_bind, map_eq_pure_bind, wp_get,
      hnext, List.map_cons, List.headD_cons, containerOf, wp_pure, List.head?_cons]

/-- An element that is unlinked and then initialised. -/
theorem unlink_spec (hf : Family k.lists.procs Q) (hQ : Q h = some (xs ++ p :: ys)) :
    wp (procsM (listDel (.elem p))) (fun _ k' => wp
      (procsM fun l => some (initListHead (.elem p) l))
        (fun _ k' => TakenOut p k k' Q (Function.update Q h (some (xs ++ ys)))) E k') E k := by
  have hring := hf.ring hQ
  rw [List.map_append, List.map_cons] at hring
  rw [wp_procsM (listDel_eq hring),
    wp_procsM (l := selfLink (.elem p) (bypass _ _ k.lists.procs)) rfl]
  exact ⟨⟨rfl, (hf.remove hQ).initElem (hf.absent_remove hQ), fun hs => hs.remove hQ⟩,
    isRing_selfLink _ _⟩

theorem removeProcQ_spec (hf : Family k.lists.procs Q) (hQ : Q h = some xs) :
    wp (removeProcQ h) (fun r k' => r = xs.head? ∧ (xs = [] → k' = k) ∧
      ∀ p ps, xs = p :: ps → TakenOut p k k' Q (Function.update Q h (some ps))) E k := by
  rw [removeProcQ, wp_bind, headProcQ_spec hf hQ]
  cases xs with
  | nil => exact ⟨rfl, fun _ => rfl, by simp⟩
  | cons p ps =>
    simp only [List.head?_cons, wp_bind, wp_pure, true_and]
    have hfirst : Q h = some ([] ++ p :: ps) := hQ
    refine wp_mono (fun _ _ h => ?_) (fun _ _ h => h) (unlink_spec hf hfirst)
    exact wp_mono (fun _ _ h => ⟨by simp, fun _ _ e => by cases e; exact h⟩) (fun _ _ h => h) h

theorem outProcQ_spec (hf : Family k.lists.procs Q) (hQ : Q h = some xs) :
    wp (outProcQ h p) (fun r k' => if p ∈ xs
      then r = some p ∧ TakenOut p k k' Q (Function.update Q h (some (xs.erase p)))
      else r = none ∧ k' = k) E k := by
  have hring := hf.ring hQ
  have hnd : xs.Nodup := List.Nodup.of_map Node.elem (List.nodup_cons.mp hring.nodup).2
  simp only [outProcQ, wp_bind, wp_get, listForEach_eq hring (length_lt_walkFuel hnd), wp_pure]
  by_cases hp : p ∈ xs
  · have hfind : (xs.find? fun iter => decide (iter = p)) = some p := by
      obtain ⟨a, ha⟩ := Option.isSome_iff_exists.mp
        (List.find?_isSome (p := fun iter => decide (iter = p)) |>.mpr ⟨p, hp, by simp⟩)
      have : a = p := by simpa using List.find?_some ha
      rw [ha, this]
    obtain ⟨as, bs, rfl⟩ := List.append_of_mem hp
    have herase : (as ++ p :: bs).erase p = as ++ bs := by
      have has : p ∉ as := fun hm => (List.nodup_append.mp hnd).2.2 p hm p (by simp) rfl
      rw [List.erase_append_right _ has, List.erase_cons_head]
    simp only [hfind, wp_bind, wp_pure, hp, if_true, true_and, herase]
    exact unlink_spec hf hQ
  · have hfind : (xs.find? fun iter => decide (iter = p)) = none := by
      rw [List.find?_eq_none]
      intro a ha hap
      exact hp (of_decide_eq_true hap ▸ ha)
    simp only [hfind, wp_pure, hp, if_false, and_self]

end Heap

end Rocm
