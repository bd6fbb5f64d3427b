import Mathlib.Logic.Function.Basic

/-!
# Demand paging

Pages have a home on a slow store each; some of them are in frames. The contents of a page are in
its frame, or else at its home. The operations of a pager, and a store to a page that is in a frame,
keep what is known of the contents of the pages that are still in use.
-/

namespace Paged

variable {X F B : Type}

structure Store (X F B : Type) where
  frame : F → B
  home : X → B
  /-- The page is in the frame. -/
  place : X → F → Prop
  /-- The page is in use. -/
  live : X → Prop

/-- `V` is what is in the pages. -/
structure Backed (s : Store X F B) (V : X → B) : Prop where
  framed : ∀ x f, s.live x → s.place x f → s.frame f = V x
  homed : ∀ x, s.live x → (∀ f, ¬ s.place x f) → s.home x = V x

variable {s s' : Store X F B} {V : X → B} {x : X} {f : F}

/-- The contents and places stay, and no page comes into use. -/
theorem Backed.mono (h : Backed s V) (hframe : s'.frame = s.frame) (hhome : s'.home = s.home)
    (hplace : ∀ x f, s'.place x f ↔ s.place x f) (hlive : ∀ x, s'.live x → s.live x) :
    Backed s' V := by
  constructor
  · intro x f hx hf
    rw [hframe]
    exact h.framed x f (hlive x hx) ((hplace x f).mp hf)
  · intro x hx hno
    rw [hhome]
    exact h.homed x (hlive x hx) fun f hf => hno f ((hplace x f).mpr hf)

section Update

variable [DecidableEq F]

/-- A frame that holds no page in use is overwritten. -/
theorem Backed.overwrite (h : Backed s V) (hfree : ∀ x, s.live x → ¬ s.place x f) (b : B) :
    Backed { s with frame := Function.update s.frame f b } V := by
  constructor
  · intro x g hx hg
    have hne : g ≠ f := by
      rintro rfl
      exact hfree x hx hg
    exact (Function.update_of_ne hne ..).trans (h.framed x g hx hg)
  · intro x hx hno
    exact h.homed x hx hno

variable [DecidableEq X]

/-- The page that is in a frame is stored to. -/
theorem Backed.write (h : Backed s V) (hx : s.place x f) (hx' : ∀ g, s.place x g → g = f)
    (hf : ∀ y, s.live y → s.place y f → y = x) (b : B) :
    Backed { s with frame := Function.update s.frame f b } (Function.update V x b) := by
  constructor
  · intro y g hy hg
    by_cases hyx : y = x
    · subst hyx
      obtain rfl := hx' g hg
      change Function.update s.frame g b g = _
      rw [Function.update_self, Function.update_self]
    · have hne : g ≠ f := by
        rintro rfl
        exact hyx (hf y hy hg)
      refine (Function.update_of_ne hne ..).trans ((h.framed y g hy hg).trans ?_)
      exact (Function.update_of_ne hyx ..).symm
  · intro y hy hno
    have hyx : y ≠ x := by
      rintro rfl
      exact hno f hx
    exact (h.homed y hy hno).trans (Function.update_of_ne hyx ..).symm

omit [DecidableEq F] in
/-- A page is copied from its frame to its home and gives the frame up. -/
theorem Backed.evict (h : Backed s V) (hx : s.place x f) :
    Backed { s with
      home := Function.update s.home x (s.frame f)
      place := fun y g => s.place y g ∧ y ≠ x } V := by
  constructor
  · intro y g hy hg
    exact h.framed y g hy hg.1
  · intro y hy hno
    by_cases hyx : y = x
    · subst hyx
      exact (Function.update_self ..).trans (h.framed y f hy hx)
    · refine (Function.update_of_ne hyx ..).trans (h.homed y hy fun g hg => ?_)
      exact hno g ⟨hg, hyx⟩

end Update

/-- A page gets a frame that holds what is at its home. -/
theorem Backed.bring (h : Backed s V) (hx : ∀ g, ¬ s.place x g) (hf : s.frame f = s.home x) :
    Backed { s with place := fun y g => s.place y g ∨ y = x ∧ g = f } V := by
  constructor
  · rintro y g hy (hg | ⟨rfl, rfl⟩)
    · exact h.framed y g hy hg
    · exact hf.trans (h.homed y hy hx)
  · intro y hy hno
    exact h.homed y hy fun g hg => hno g (.inl hg)

end Paged
