import Mathlib.Data.List.Basic
import Mathlib.Data.Fin.Basic
import Mathlib.Data.List.Range
import Mathlib.Data.Nat.ModEq

/-!
# Places that are taken in turn

`k` places are taken one after the other and then from the first one on again. The age of a place
is how often another one has been taken since; of all places the one whose turn it is is the oldest.
-/

namespace Turns

section Age

variable {α : Type} [DecidableEq α]

/-- How many members of the list follow the last `x`. -/
def age (l : List α) (x : α) : ℕ := l.reverse.idxOf x

end Age

variable {k : ℕ} [NeZero k]

/-- The first `n` turns. -/
def turns (k n : ℕ) [NeZero k] : List (Fin k) := (List.range n).map (Fin.ofNat k)

end Turns
