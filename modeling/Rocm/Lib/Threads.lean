import Mathlib.Tactic.Common

/-!
# The code of a thread

A `Code C R α` is what is left to do of a thread that gives commands `C` to its surroundings, gets
an answer `R c` to each command `c`, and in the end returns. What a command does is not said here: a
machine that runs many threads takes one command at a time, `Code.run` runs one thread alone.

A `Protocol` is an automaton that reads commands and answers. Code that `Follows` a protocol gives
only commands which the state of the automaton allows, whatever the answers are. This is checked
over the code once; the invariants of a machine are then proved over the states of the automaton.
-/

namespace Threads

inductive Code (C : Type) (R : C → Type) (α : Type) where
  | ret (a : α)
  | cmd (c : C) (k : R c → Code C R α)

variable {C : Type} {R : C → Type} {α β γ S σ : Type}

namespace Code

def bind : Code C R α → (α → Code C R β) → Code C R β
  | ret a, f => f a
  | cmd c k, f => cmd c fun r => (k r).bind f

instance : Monad (Code C R) where
  pure := ret
  bind := bind

/-- Gives one command and returns the answer. -/
def give (c : C) : Code C R (R c) := cmd c ret

@[simp] theorem ret_bind (a : α) (f : α → Code C R β) : ret a >>= f = f a := rfl

@[simp] theorem cmd_bind (c : C) (k : R c → Code C R α) (f : α → Code C R β) :
    cmd c k >>= f = cmd c fun r => k r >>= f := rfl

theorem bind_assoc (m : Code C R α) (f : α → Code C R β) (g : β → Code C R γ) :
    m >>= f >>= g = m >>= fun a => f a >>= g := by
  induction m with
  | ret a => rfl
  | cmd c k ih => exact congrArg (cmd c) (funext ih)

end Code

/-! ## Protocols -/

/-- An automaton over commands and their answers. -/
structure Protocol (C : Type) (R : C → Type) (S : Type) where
  /-- The commands that may be given in a state. -/
  allows : S → C → Prop
  /-- The answers that can come. -/
  answers : (c : C) → R c → Prop
  next : S → (c : C) → R c → S

/-- The code keeps to the protocol from `s` on, and where it returns `Q` holds. -/
def Follows (P : Protocol C R S) (Q : α → S → Prop) : Code C R α → S → Prop
  | .ret a, s => Q a s
  | .cmd c k, s => P.allows s c ∧ ∀ r, P.answers c r → Follows P Q (k r) (P.next s c r)

section Follows

variable {P : Protocol C R S} {Q : α → S → Prop} {s : S}

@[simp] theorem follows_cmd {c : C} {k : R c → Code C R α} :
    Follows P Q (.cmd c k) s ↔
      P.allows s c ∧ ∀ r, P.answers c r → Follows P Q (k r) (P.next s c r) := Iff.rfl

theorem Follows.mono {Q' : α → S → Prop} (hQ : ∀ a s, Q a s → Q' a s) {m : Code C R α}
    (h : Follows P Q m s) : Follows P Q' m s := by
  induction m generalizing s with
  | ret a => exact hQ a s h
  | cmd c k ih => exact ⟨h.1, fun r hr => ih r (h.2 r hr)⟩

/-- The rule of sequencing. -/
theorem follows_bind {m : Code C R α} {f : α → Code C R β} {Q : β → S → Prop} :
    Follows P Q (m >>= f) s ↔ Follows P (fun a s' => Follows P Q (f a) s') m s := by
  induction m generalizing s with
  | ret a => rfl
  | cmd c k ih => exact and_congr_right fun _ => forall₂_congr fun r _ => ih r

theorem Follows.bind {m : Code C R α} {f : α → Code C R β} {Q' : β → S → Prop}
    (h : Follows P Q m s) (hf : ∀ a s', Q a s' → Follows P Q' (f a) s') :
    Follows P Q' (m >>= f) s :=
  follows_bind.mpr (h.mono hf)

end Follows

/-! ## One thread alone -/

/-- How a run ends: the code returns, or it gives a command that does not return. -/
inductive Outcome (C α : Type) where
  | returned (a : α)
  | ended (c : C)

/-- Runs the code, with the effect and the answer of each command given by `h`. -/
def Code.run (h : (c : C) → σ → Option (R c) × σ) : Code C R α → σ → Outcome C α × σ
  | .ret a, s => (.returned a, s)
  | .cmd c k, s =>
    match h c s with
    | (some r, s') => (k r).run h s'
    | (none, s') => (.ended c, s')

section Run

variable {h : (c : C) → σ → Option (R c) × σ} {s s' : σ}

theorem run_answer {c : C} {k : R c → Code C R α} {r : R c} (hc : h c s = (some r, s')) :
    (Code.cmd c k).run h s = (k r).run h s' := by
  rw [Code.run, hc]

theorem run_ended {c : C} {k : R c → Code C R α} (hc : h c s = (none, s')) :
    (Code.cmd c k).run h s = (.ended c, s') := by
  rw [Code.run, hc]

end Run

end Threads
