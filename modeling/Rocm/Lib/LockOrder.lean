import Mathlib.Logic.Relation
import Mathlib.Order.Basic

/-!
# Locks that are taken in an order

Threads hold locks and wait for locks. If whoever waits for a lock holds only locks of a lower rank,
no thread waits, directly or through others, for a lock that it holds.
-/

namespace LockOrder

variable {α L R : Type} [Preorder R]

/-- `a` waits for a lock that `b` holds. -/
def WaitsFor (waits holds : α → L → Prop) (a b : α) : Prop := ∃ l, waits a l ∧ holds b l

variable {waits holds : α → L → Prop} {rank : L → R}

/-- Along a path the ranks of the locks that are waited for grow. -/
theorem rank_le_of_path (h : ∀ a l l', waits a l → holds a l' → rank l' < rank l) {a b : α}
    (hp : Relation.TransGen (WaitsFor waits holds) a b) :
    ∃ l l', waits a l ∧ holds b l' ∧ rank l ≤ rank l' := by
  induction hp with
  | single hab =>
    obtain ⟨l, ha, hb⟩ := hab
    exact ⟨l, l, ha, hb, le_refl _⟩
  | tail _ hbc ih =>
    obtain ⟨l, l', ha, hb, hle⟩ := ih
    obtain ⟨l2, hb2, hc⟩ := hbc
    exact ⟨l, l2, ha, hc, hle.trans (h _ _ _ hb2 hb).le⟩

/-- There is no cycle. -/
theorem acyclic (rank : L → R) (h : ∀ a l l', waits a l → holds a l' → rank l' < rank l) (a : α) :
    ¬ Relation.TransGen (WaitsFor waits holds) a a := by
  intro hp
  obtain ⟨l, l', hw, hh, hle⟩ := rank_le_of_path h hp
  exact absurd (h a l l' hw hh) (not_lt_of_ge hle)

end LockOrder
