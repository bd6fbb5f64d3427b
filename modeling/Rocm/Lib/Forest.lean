import Mathlib.Data.List.Nodup
import Mathlib.Logic.Function.Basic
import Mathlib.Logic.Relation

/-!
# Forests

Nodes with a list of children each and at most one parent. `IsForest` says that the two agree and
that no node is below itself; adding a root to the children of another tree and taking a child out
keep it.
-/

namespace Forest

open Relation

variable {α : Type} {child : α → List α} {parent : α → Option α}

/-- `p` is a child of `q`. -/
def Child (child : α → List α) (q p : α) : Prop := p ∈ child q

/-- `a` is `p` or above it. -/
def Above (child : α → List α) : α → α → Prop := ReflTransGen (Child child)

structure IsForest (child : α → List α) (parent : α → Option α) : Prop where
  parent_iff : ∀ p q, parent p = some q ↔ p ∈ child q
  nodup : ∀ q, (child q).Nodup
  acyclic : ∀ p, ¬ TransGen (Child child) p p

theorem IsForest.empty : IsForest (fun _ : α => []) fun _ => none where
  parent_iff p q := by simp
  nodup _ := .nil
  acyclic p h := by
    obtain ⟨q, -, hq⟩ := TransGen.tail'_iff.mp h
    exact absurd hq List.not_mem_nil

/-- A path along an added edge: what leads to it and what follows it. -/
theorem path_cases {r r' : α → α → Prop} {q p : α} (hr : ∀ a b, r' a b → r a b ∨ a = q ∧ b = p)
    (hpq : ¬ ReflTransGen r p q) {a b : α} (h : TransGen r' a b) :
    TransGen r a b ∨ ReflTransGen r a q ∧ ReflTransGen r p b := by
  induction h with
  | single hab =>
    rcases hr _ _ hab with h | ⟨rfl, rfl⟩
    · exact .inl (.single h)
    · exact .inr ⟨.refl, .refl⟩
  | tail _ hbc ih =>
    rcases hr _ _ hbc with h | ⟨rfl, rfl⟩
    · rcases ih with ih | ⟨hq, hp⟩
      · exact .inl (ih.tail h)
      · exact .inr ⟨hq, hp.tail h⟩
    · rcases ih with ih | ⟨-, hp⟩
      · exact .inr ⟨ih.to_reflTransGen, .refl⟩
      · exact absurd hp hpq

/-- An edge that does not close a path keeps the relation acyclic. -/
theorem acyclic_of_edge {r r' : α → α → Prop} {q p : α}
    (hr : ∀ a b, r' a b → r a b ∨ a = q ∧ b = p) (hpq : ¬ ReflTransGen r p q)
    (hac : ∀ a, ¬ TransGen r a a) (a : α) : ¬ TransGen r' a a := by
  intro h
  rcases path_cases hr hpq h with h | ⟨hq, hp⟩
  · exact hac a h
  · exact hpq (hp.trans hq)

variable [DecidableEq α] {p q : α}

/-- A root becomes a child of a node that is not below it. -/
theorem IsForest.link (h : IsForest child parent) (hp : parent p = none)
    (habove : ¬ Above child p q) :
    IsForest (Function.update child q (p :: child q)) (Function.update parent p (some q)) where
  parent_iff r s := by
    have hroot : ∀ t, p ∉ child t := fun t ht => by
      rw [← h.parent_iff p t, hp] at ht
      cases ht
    rw [Function.update_apply, Function.update_apply]
    by_cases hs : s = q
    · subst hs
      by_cases hr : r = p
      · simp [hr]
      · simp [hr, h.parent_iff r s]
    · by_cases hr : r = p
      · subst hr
        simp [hs, Ne.symm hs, hroot]
      · simp [hr, hs, h.parent_iff r s]
  nodup s := by
    rw [Function.update_apply]
    split
    · refine List.nodup_cons.mpr ⟨fun hm => ?_, h.nodup q⟩
      rw [← h.parent_iff p q, hp] at hm
      cases hm
    · exact h.nodup s
  acyclic := by
    refine acyclic_of_edge (q := q) (p := p) (fun a b hab => ?_) habove h.acyclic
    rw [Child, Function.update_apply] at hab
    split at hab
    · next e =>
      rcases List.mem_cons.mp hab with rfl | hab
      · exact .inr ⟨e, rfl⟩
      · exact .inl (e ▸ hab)
    · exact .inl hab

/-- A child is taken out of the children of its parent. -/
theorem IsForest.unlink (h : IsForest child parent) (hp : parent p = some q) :
    IsForest (Function.update child q ((child q).erase p)) (Function.update parent p none) where
  parent_iff r s := by
    rw [Function.update_apply, Function.update_apply]
    by_cases hs : s = q
    · subst hs
      by_cases hr : r = p
      · subst hr
        simp [(h.nodup s).not_mem_erase]
      · simp [hr, h.parent_iff r s, List.mem_erase_of_ne hr]
    · by_cases hr : r = p
      · subst hr
        have hns : r ∉ child s := fun hm => by
          rw [← h.parent_iff r s, hp] at hm
          exact hs (Option.some.inj hm).symm
        simp [hs, hns]
      · simp [hr, hs, h.parent_iff r s]
  nodup s := by
    rw [Function.update_apply]
    split
    · exact (h.nodup q).erase p
    · exact h.nodup s
  acyclic a ha := by
    refine h.acyclic a (TransGen.mono (fun b c hbc => ?_) _ _ ha)
    rw [Child, Function.update_apply] at hbc
    split at hbc
    · next e => exact e ▸ List.mem_of_mem_erase hbc
    · exact hbc

end Forest
