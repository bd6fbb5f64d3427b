import Mathlib.Data.List.Forall2
import Mathlib.Data.Finset.Card

/-!
# Runs of a transition system

A run is the list of its steps, each with the state before and after it. An invariant holds
along a run when every step keeps it; a simulation carries the runs of one system to those of
another.
-/

namespace Runs

variable {σ τ ε : Type}

/-- `Run step s tr t`: the steps `tr` lead from `s` to `t`. -/
inductive Run (step : σ → ε → σ → Prop) (s : σ) : List (σ × ε × σ) → σ → Prop where
  | nil : Run step s [] s
  | snoc {tr t e u} : Run step s tr t → step t e u → Run step s (tr ++ [(t, e, u)]) u

variable {step : σ → ε → σ → Prop} {s t : σ} {tr : List (σ × ε × σ)}

/-- What holds at the start and is kept by every step holds at the end. -/
theorem Run.invariant {I : σ → Prop} (h : Run step s tr t) (h0 : I s)
    (hs : ∀ {a e b}, I a → step a e b → I b) : I t := by
  induction h with
  | nil => exact h0
  | snoc _ hstep ih => exact hs ih hstep

theorem Run.mono {step' : σ → ε → σ → Prop} (h : Run step s tr t)
    (hs : ∀ {a e b}, step a e b → step' a e b) : Run step' s tr t := by
  induction h with
  | nil => exact .nil
  | snoc _ hstep ih => exact ih.snoc (hs hstep)

theorem Run.trans {tr' : List (σ × ε × σ)} {u : σ} (h : Run step s tr t) (h' : Run step t tr' u) :
    Run step s (tr ++ tr') u := by
  induction h' with
  | nil => rwa [List.append_nil]
  | snoc _ hstep ih =>
    rw [← List.append_assoc]
    exact ih.snoc hstep

/-- The invariant holds before and after every step of the run. -/
theorem Run.invariant_steps {I : σ → Prop} (h : Run step s tr t) (h0 : I s)
    (hs : ∀ {a e b}, I a → step a e b → I b) :
    ∀ x ∈ tr, I x.1 ∧ step x.1 x.2.1 x.2.2 ∧ I x.2.2 := by
  induction h with
  | nil => simp
  | snoc hr hstep ih =>
    intro x hx
    rcases List.mem_append.mp hx with hx | hx
    · exact ih x hx
    · rw [List.mem_singleton.mp hx]
      have ha := hr.invariant h0 hs
      exact ⟨ha, hstep, hs ha hstep⟩

/-- Every step that is enabled in one system is matched in the other. -/
theorem Run.simulate {R : σ → τ → Prop} {s' : τ} (h : Run step s tr t)
    (step' : τ → ε → τ → Prop) (h0 : R s s')
    (hs : ∀ {a e b a'}, R a a' → step a e b → ∃ b', step' a' e b' ∧ R b b') :
    ∃ tr' t', Run step' s' tr' t' ∧ R t t' ∧
      List.Forall₂ (fun x y => R x.1 y.1 ∧ x.2.1 = y.2.1 ∧ R x.2.2 y.2.2) tr tr' := by
  induction h with
  | nil => exact ⟨[], s', .nil, h0, .nil⟩
  | @snoc tr t e u _ hstep ih =>
    obtain ⟨tr', t', hr, hR, hf⟩ := ih
    obtain ⟨u', hstep', hR'⟩ := hs hR hstep
    exact ⟨tr' ++ [(t', e, u')], u', hr.snoc hstep', hR',
      List.rel_append hf (.cons ⟨hR, rfl, hR'⟩ .nil)⟩

/-! ## Counting steps -/

open Classical in
/-- The places of a run where `C` holds of the steps before and of the step. -/
noncomputable def turns (C : List (σ × ε × σ) → σ × ε × σ → Prop) (tr : List (σ × ε × σ)) :
    Finset Nat :=
  (Finset.range tr.length).filter fun n => ∃ x, tr[n]? = some x ∧ C (tr.take n) x

variable {C : List (σ × ε × σ) → σ × ε × σ → Prop}

open Classical in
/-- A step more is a turn more at most. -/
theorem turns_snoc (x : σ × ε × σ) :
    turns C (tr ++ [x]) = turns C tr ∪ if C tr x then {tr.length} else ∅ := by
  ext n
  simp only [turns, Finset.mem_filter, Finset.mem_range, Finset.mem_union, List.length_append,
    List.length_singleton]
  rcases lt_trichotomy n tr.length with h | rfl | h
  · have hnot : n ∉ (if C tr x then {tr.length} else ∅ : Finset Nat) := by
      split <;> simp [h.ne]
    rw [List.getElem?_append_left h, List.take_append_of_le_length h.le]
    simp [h, hnot, Nat.lt_succ_of_lt h]
  · split <;> simp [*]
  · have hnot : n ∉ (if C tr x then {tr.length} else ∅ : Finset Nat) := by
      split <;> simp [h.ne']
    refine iff_of_false (fun hl => ?_) fun hr => hr.elim (fun hl => h.not_gt hl.1) hnot
    have hlt := hl.1
    omega

/-- A number that no step raises and that every turn lowers bounds the turns. -/
theorem Run.turns_le {I : List (σ × ε × σ) → σ → Nat → Prop} {k : Nat} (h : Run step s tr t)
    (h0 : I [] s k)
    (hs : ∀ {tr a e b n}, I tr a n → step a e b →
      ∃ n', I (tr ++ [(a, e, b)]) b n' ∧ n' ≤ n ∧ (C tr (a, e, b) → n' < n)) :
    (turns C tr).card ≤ k := by
  suffices hn : ∃ n, I tr t n ∧ (turns C tr).card + n ≤ k by
    obtain ⟨n, -, hn⟩ := hn
    exact (Nat.le_add_right ..).trans hn
  induction h with
  | nil => exact ⟨k, h0, by simp [turns]⟩
  | @snoc tr t e u _ hstep ih =>
    obtain ⟨n, hI, hn⟩ := ih
    obtain ⟨n', hI', hle, hlt⟩ := hs hI hstep
    refine ⟨n', hI', ?_⟩
    rw [turns_snoc]
    split
    · next hC =>
      have hcard := Finset.card_union_le (turns C tr) {tr.length}
      have hlt := hlt hC
      rw [Finset.card_singleton] at hcard
      omega
    · rw [Finset.union_empty]
      omega

end Runs
