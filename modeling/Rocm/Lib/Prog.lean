import Mathlib.Logic.Basic
import Mathlib.Tactic.Common

/-!
# Deterministic programs that return or exit

A program over a state `σ` is an `EStateM ε σ α`: it returns a value, or it leaves by an
exit `ε`. `wp` is the weakest precondition of such a program, with one postcondition for the
return and one for the exits. `Corres` relates two programs over two state types step by
step; the abstract one may give up (`bad` exits), and where it does not, the concrete one
does the same and ends in a related state.
-/

namespace Prog

variable {ε σ τ α β γ : Type}

/-- Weakest precondition: `Q` at a return, `E` at an exit. -/
def wp (m : EStateM ε σ α) (Q : α → σ → Prop) (E : ε → σ → Prop) (s : σ) : Prop :=
  match m s with
  | .ok a s' => Q a s'
  | .error e s' => E e s'

section Wp

variable {Q : α → σ → Prop} {E : ε → σ → Prop} {s : σ}

@[simp] theorem wp_pure (a : α) : wp (pure a : EStateM ε σ α) Q E s = Q a s := (rfl)

@[simp] theorem wp_throw (e : ε) : wp (throw e : EStateM ε σ α) Q E s = E e s := (rfl)

@[simp] theorem wp_get {Q : σ → σ → Prop} : wp (get : EStateM ε σ σ) Q E s = Q s s := (rfl)

@[simp] theorem wp_modify {Q : PUnit → σ → Prop} (f : σ → σ) :
    wp (modify f : EStateM ε σ PUnit) Q E s = Q ⟨⟩ (f s) := (rfl)

@[simp] theorem wp_bind {Q : β → σ → Prop} (m : EStateM ε σ α) (f : α → EStateM ε σ β) :
    wp (m >>= f) Q E s = wp m (fun a s' => wp (f a) Q E s') E s := by
  change (match EStateM.bind m f s with | .ok a s' => Q a s' | .error e s' => E e s') = _
  simp only [EStateM.bind, wp]
  cases m s <;> rfl

@[simp] theorem wp_map {Q : β → σ → Prop} (f : α → β) (m : EStateM ε σ α) :
    wp (f <$> m) Q E s = wp m (fun a s' => Q (f a) s') E s := by
  change wp (m >>= fun a => pure (f a)) Q E s = _
  simp only [wp_bind, wp_pure]

@[simp] theorem wp_discard {Q : PUnit → σ → Prop} (m : EStateM ε σ α) :
    wp (discard m) Q E s = wp m (fun _ s' => Q ⟨⟩ s') E s := by
  change wp (m >>= fun _ => pure PUnit.unit) Q E s = _
  simp only [wp_bind, wp_pure]

theorem wp_ite {c : Prop} [Decidable c] {m m' : EStateM ε σ α} :
    wp (if c then m else m') Q E s = if c then wp m Q E s else wp m' Q E s := by
  split <;> rfl

/-- Rule of consequence. -/
theorem wp_mono {Q' : α → σ → Prop} {E' : ε → σ → Prop} {m : EStateM ε σ α}
    (hQ : ∀ a s', Q a s' → Q' a s') (hE : ∀ e s', E e s' → E' e s') (h : wp m Q E s) :
    wp m Q' E' s := by
  unfold wp at *
  cases hm : m s with
  | ok a s' => rw [hm] at h; exact hQ a s' h
  | error e s' => rw [hm] at h; exact hE e s' h

/-- Weakening of what a normal return ensures. -/
theorem wp_post {Q' : α → σ → Prop} {m : EStateM ε σ α} (h : wp m Q E s)
    (hQ : ∀ a s', Q a s' → Q' a s') : wp m Q' E s :=
  wp_mono hQ (fun _ _ h => h) h

theorem wp_of_ok {m : EStateM ε σ α} {a : α} {s' : σ} (hm : m s = .ok a s') (h : Q a s') :
    wp m Q E s := by
  unfold wp; rw [hm]; exact h

theorem wp_of_error {m : EStateM ε σ α} {e : ε} {s' : σ} (hm : m s = .error e s')
    (h : E e s') : wp m Q E s := by
  unfold wp; rw [hm]; exact h

/-- A program whose `wp` is known has the outcome the `wp` speaks about. -/
theorem wp_elim {m : EStateM ε σ α} (h : wp m Q E s) :
    (∃ a s', m s = .ok a s' ∧ Q a s') ∨ (∃ e s', m s = .error e s' ∧ E e s') := by
  unfold wp at h
  cases hm : m s with
  | ok a s' => rw [hm] at h; exact .inl ⟨a, s', rfl, h⟩
  | error e s' => rw [hm] at h; exact .inr ⟨e, s', rfl, h⟩

/-- A loop over a list, with an invariant about the part that is done. -/
theorem wp_forM {f : β → EStateM ε σ PUnit} {I : List β → σ → Prop} {xs : List β}
    (h : ∀ ys x s, ys ++ [x] <+: xs → I ys s → wp (f x) (fun _ s' => I (ys ++ [x]) s') E s)
    (h0 : I [] s) : wp (xs.forM f) (fun _ s' => I xs s') E s := by
  have key : ∀ (zs ys : List β) (s : σ), ys ++ zs = xs → I ys s →
      wp (zs.forM f) (fun _ s' => I xs s') E s := by
    intro zs
    induction zs with
    | nil =>
      intro ys s hys hI
      rw [List.append_nil] at hys
      subst hys
      exact hI
    | cons z zs ih =>
      intro ys s hys hI
      have hys' : (ys ++ [z]) ++ zs = xs := by rw [← hys, List.append_assoc]; rfl
      change wp (f z >>= fun _ => zs.forM f) _ _ _
      rw [wp_bind]
      exact wp_mono (fun _ s' hI' => ih (ys ++ [z]) s' hys' hI') (fun _ _ he => he)
        (h ys z s ⟨zs, hys'⟩ hI)
  exact key xs [] s rfl h0

end Wp

/-- The states before and after `m` are related, whether it returns or exits. -/
def Moves (R : σ → σ → Prop) (m : EStateM ε σ α) : Prop :=
  ∀ s, wp m (fun _ s' => R s s') (fun _ s' => R s s') s

section Moves

variable {R : σ → σ → Prop}

theorem Moves.bind (ht : ∀ {a b c}, R a b → R b c → R a c) {m : EStateM ε σ α}
    {f : α → EStateM ε σ β} (hm : Moves R m) (hf : ∀ a, Moves R (f a)) : Moves R (m >>= f) := by
  intro s
  rw [wp_bind]
  refine wp_mono (fun a s' h => ?_) (fun _ _ h => h) (hm s)
  exact wp_mono (fun _ _ h' => ht h h') (fun _ _ h' => ht h h') (hf a s')

theorem Moves.ite {c : Prop} [Decidable c] {m m' : EStateM ε σ α} (hm : Moves R m)
    (hm' : Moves R m') : Moves R (if c then m else m') := by
  split
  exacts [hm, hm']

end Moves

/-- `m` does what `m'` does from related states, unless `m'` gives up with a `bad` exit. -/
def Corres (R : σ → τ → Prop) (bad : ε → Prop) (m : EStateM ε σ α) (m' : EStateM ε τ α) : Prop :=
  ∀ s t, R s t →
    match m' t with
    | .ok a t' => ∃ s', m s = .ok a s' ∧ R s' t'
    | .error e t' => bad e ∨ ∃ s', m s = .error e s' ∧ R s' t'

section Corres

variable {R : σ → τ → Prop} {bad : ε → Prop}

theorem Corres.pure (a : α) :
    Corres R bad (Pure.pure a : EStateM ε σ α) (Pure.pure a : EStateM ε τ α) :=
  fun s _ h => ⟨s, rfl, h⟩

theorem Corres.throw (e : ε) :
    Corres R bad (throw e : EStateM ε σ α) (MonadExcept.throw e : EStateM ε τ α) :=
  fun s _ h => .inr ⟨s, rfl, h⟩

theorem Corres.bind {m : EStateM ε σ α} {m' : EStateM ε τ α} {f : α → EStateM ε σ β}
    {f' : α → EStateM ε τ β} (hm : Corres R bad m m') (hf : ∀ a, Corres R bad (f a) (f' a)) :
    Corres R bad (m >>= f) (m' >>= f') := by
  intro s t h
  have hm := hm s t h
  change match EStateM.bind m' f' t with
    | .ok a t' => ∃ s', EStateM.bind m f s = .ok a s' ∧ R s' t'
    | .error e t' => bad e ∨ ∃ s', EStateM.bind m f s = .error e s' ∧ R s' t'
  simp only [EStateM.bind]
  cases ht : m' t with
  | ok a t' =>
    rw [ht] at hm
    obtain ⟨s', hs, h'⟩ := hm
    simp only [hs]
    exact hf a s' t' h'
  | error e t' =>
    rw [ht] at hm
    rcases hm with hb | ⟨s', hs, h'⟩
    · exact .inl hb
    · simp only [hs]
      exact .inr ⟨s', rfl, h'⟩

theorem Corres.ite {c : Prop} [Decidable c] {m n : EStateM ε σ α} {m' n' : EStateM ε τ α}
    (hm : c → Corres R bad m m') (hn : ¬ c → Corres R bad n n') :
    Corres R bad (if c then m else n) (if c then m' else n') := by
  by_cases hc : c
  · simpa only [hc, if_true] using hm hc
  · simpa only [hc, if_false] using hn hc

/-- Both sides change related states into related states. -/
theorem Corres.modify {f : σ → σ} {f' : τ → τ} (h : ∀ s t, R s t → R (f s) (f' t)) :
    Corres R bad (modify f : EStateM ε σ PUnit) (modify f' : EStateM ε τ PUnit) :=
  fun s t hR => ⟨f s, rfl, h s t hR⟩

theorem Corres.congr {R' : σ → τ → Prop} (hR : ∀ s t, R s t ↔ R' s t) {m : EStateM ε σ α}
    {m' : EStateM ε τ α} (h : Corres R bad m m') : Corres R' bad m m' := by
  have e : R = R' := funext fun s => funext fun t => propext (hR s t)
  exact e ▸ h

/-- Where the concrete side has returned, the abstract one has, if it cannot have given up. -/
theorem Corres.of_ok {m : EStateM ε σ α} {m' : EStateM ε τ α} (h : Corres R bad m m') {s s' : σ}
    {t : τ} {a : α} (hR : R s t) (hs : m s = .ok a s') {Q : α → τ → Prop}
    (hw : wp m' Q (fun e _ => ¬ bad e) t) : ∃ t', R s' t' ∧ Q a t' := by
  have h := h s t hR
  rcases wp_elim hw with ⟨b, t', ht, hQ⟩ | ⟨e, t', ht, he⟩
  · rw [ht] at h
    obtain ⟨s'', hs'', hR'⟩ := h
    cases hs.symm.trans hs''
    exact ⟨t', hR', hQ⟩
  · rw [ht] at h
    rcases h with hb | ⟨s'', hs'', -⟩
    · exact absurd hb he
    · cases hs.symm.trans hs''

/-- Where the abstract side returns, the concrete side does. -/
theorem Corres.returns {m : EStateM ε σ α} {m' : EStateM ε τ α} (h : Corres R bad m m') {s : σ}
    {t : τ} (hR : R s t) {Q : α → τ → Prop} (hw : wp m' Q (fun _ _ => False) t) :
    ∃ a s' t', m s = .ok a s' ∧ R s' t' ∧ Q a t' := by
  have h := h s t hR
  rcases wp_elim hw with ⟨a, t', ht, hQ⟩ | ⟨_, _, _, hf⟩
  · rw [ht] at h
    obtain ⟨s', hs, hR'⟩ := h
    exact ⟨a, s', t', hs, hR', hQ⟩
  · exact hf.elim

end Corres

end Prog
