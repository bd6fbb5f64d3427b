import Mathlib.Data.List.Basic

/-!
# Queues that are joined at the end

Anybody may leave such a queue, from any place, and whoever comes goes to its end. Nobody then
overtakes: those who are ahead of a member can only become fewer.
-/

namespace Fifo

variable {α : Type} {a w : α} {l l' l'' : List α}

/-- Some have left the queue, and others than `a` have joined it at the end. -/
def Moved (a : α) (l l' : List α) : Prop :=
  ∃ stay join, List.Sublist stay l ∧ l' = stay ++ join ∧ a ∉ join

theorem Moved.leave (h : l'.Sublist l) : Moved a l l' :=
  ⟨l', [], h, (List.append_nil _).symm, List.not_mem_nil⟩

theorem Moved.refl (a : α) (l : List α) : Moved a l l := .leave (.refl l)

theorem Moved.join (l : List α) (h : w ≠ a) : Moved a l (l ++ [w]) :=
  ⟨l, [w], .refl l, rfl, fun hm => h (List.mem_singleton.mp hm).symm⟩

theorem Moved.trans (h : Moved a l l') (h' : Moved a l' l'') : Moved a l l'' := by
  obtain ⟨stay, join, hs, rfl, hj⟩ := h
  obtain ⟨stay', join', hs', rfl, hj'⟩ := h'
  obtain ⟨s, j, rfl, hs₁, hj₁⟩ := List.sublist_append_iff.mp hs'
  refine ⟨s, j ++ join', hs₁.trans hs, List.append_assoc .., fun hm => ?_⟩
  rcases List.mem_append.mp hm with hm | hm
  · exact hj (hj₁.subset hm)
  · exact hj' hm

/-- Who is in the queue afterwards has been in it before. -/
theorem Moved.mem (h : Moved a l l') (ha : a ∈ l') : a ∈ l := by
  obtain ⟨stay, join, hs, rfl, hj⟩ := h
  exact hs.subset ((List.mem_append.mp ha).resolve_right hj)

variable [DecidableEq α]

/-- Those who are in the queue before `a`. -/
def ahead (a : α) (l : List α) : List α := l.takeWhile (· ≠ a)

theorem ahead_cons_self (a : α) (l : List α) : ahead a (a :: l) = [] := by
  simp [ahead]

theorem ahead_cons_of_ne (h : w ≠ a) (l : List α) : ahead a (w :: l) = w :: ahead a l := by
  simp [ahead, h]

theorem ahead_append (h : a ∈ l) (l' : List α) : ahead a (l ++ l') = ahead a l := by
  induction l with
  | nil => cases h
  | cons b l ih =>
    rw [List.cons_append]
    by_cases e : b = a
    · rw [e, ahead_cons_self, ahead_cons_self]
    · rw [ahead_cons_of_ne e, ahead_cons_of_ne e,
        ih ((List.mem_cons.mp h).resolve_left fun e' => e e'.symm)]

/-- Who leaves is no longer ahead. -/
theorem ahead_sublist (h : l'.Sublist l) (hn : l.Nodup) (ha : a ∈ l') :
    (ahead a l').Sublist (ahead a l) := by
  induction h with
  | slnil => cases ha
  | cons b hs ih =>
    obtain ⟨hb, hn⟩ := List.nodup_cons.mp hn
    have hne : b ≠ a := fun e => hb (e ▸ hs.subset ha)
    rw [ahead_cons_of_ne hne]
    exact (ih hn ha).cons b
  | cons_cons b hs ih =>
    by_cases e : b = a
    · rw [e, ahead_cons_self]
      exact List.nil_sublist _
    · rw [ahead_cons_of_ne e, ahead_cons_of_ne e]
      exact (ih (List.nodup_cons.mp hn).2
        ((List.mem_cons.mp ha).resolve_left fun e' => e e'.symm)).cons_cons b

/-- Nobody overtakes who stays in the queue. -/
theorem Moved.ahead_sublist (h : Moved a l l') (hn : l.Nodup) (ha : a ∈ l') :
    (ahead a l').Sublist (ahead a l) := by
  obtain ⟨stay, join, hs, rfl, hj⟩ := h
  have hstay : a ∈ stay := (List.mem_append.mp ha).resolve_right hj
  rw [ahead_append hstay]
  exact Fifo.ahead_sublist hs hn hstay

/-- Fewer are ahead when one of them has left. -/
theorem Moved.ahead_lt (h : Moved a l l') (hn : l.Nodup) (ha : a ∈ l') (hw : w ∈ ahead a l)
    (hl : w ∉ l') : (ahead a l').length < (ahead a l).length := by
  have hsub := h.ahead_sublist hn ha
  refine Nat.lt_of_le_of_ne hsub.length_le fun e => hl ?_
  rw [← hsub.eq_of_length e] at hw
  exact (List.takeWhile_sublist _).subset hw

/-- The first in the queue has been ahead of all others. -/
theorem Moved.first_ahead (h : Moved a l (w :: l')) (hn : l.Nodup) (ha : a ∈ w :: l')
    (hne : w ≠ a) : w ∈ ahead a l := by
  refine (h.ahead_sublist hn ha).subset ?_
  rw [ahead_cons_of_ne hne]
  exact List.mem_cons_self

end Fifo
