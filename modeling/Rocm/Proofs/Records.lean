import Rocm.Proofs.Coherence

/-!
# What the table of the swap pool records

An entry of a process that lives is for a page of this process, and the page is in the frame unless
the pager is about to overwrite it. It takes that a process frees only frames of its own and installs no page
that is there already.
-/

namespace Rocm

variable [Umps] {P P' : Paging} {d : Did} {p q : Uproc} {f : Frame} {x : Uproc × Page}

structure Paging.Recorded (P : Paging) : Prop where
  owner : ∀ f q, (P.spTbl f).asid = asid q → (P.spTbl f).pgTblEntry.1 = q
  held : ∀ f q, (P.spTbl f).asid = asid q → ¬ P.gone q →
    (P.pte (P.spTbl f).pgTblEntry).entryLO = frameLo f ∨ ∃ p, P.spare p = some f
  /-- A page is about to be made invalid that its own process does without. -/
  aimed : ∀ p f x, P.aim p = some (f, x) →
    (P.spTbl f).asid = asid p ∧ x.1 = p ∧ (P.pte x).entryLO = frameLo f ∧ P.spare p = none

/-- What a move must not do: free a frame of another process, or install a page twice. -/
structure RecordSafe (P : Paging) (d : Did) : Prop where
  fresh : ∀ p f, d = .gave p (.act (.usable f)) → P.spare p = none ∧ P.aim p = none
  victim : ∀ p f, d = .gave p (.act (.pgTblEntry f)) →
    P.spare p = none ∧ ¬ P.gone p ∧ (P.spTbl f).asid = asid p
  absent : ∀ p f i, d = .gave p (.act (.install p f i)) → ¬ (P.pte (p, i)).valid

/-- The page tables, the table of the pool and the frames that are spare stay, and nobody comes to
    life. -/
theorem Paging.Recorded.keep (hc : P.Recorded) (hpte : P'.pte = P.pte) (htbl : P'.spTbl = P.spTbl)
    (hgone : ∀ q, P.gone q → P'.gone q) (hspare : P'.spare = P.spare) (haim : P'.aim = P.aim) :
    P'.Recorded := by
  constructor
  · intro f q ha
    rw [htbl] at ha ⊢
    exact hc.owner f q ha
  · intro f q ha hq
    rw [htbl] at ha ⊢
    rw [hpte, hspare]
    exact hc.held f q ha fun hg => hq (hgone q hg)
  · intro p f x hx
    rw [haim] at hx
    rw [htbl, hpte, hspare]
    exact hc.aimed p f x hx

omit [Umps] in
theorem gone_update_of {gone : Uproc → Prop} (h : gone q) : Function.update gone p True q := by
  by_cases hq : q = p
  · subst hq
    rw [Function.update_self]
    trivial
  · rw [Function.update_of_ne hq]
    exact h

/-- The only frame that can be spare. -/
theorem Paging.Alone.spare_eq (h : P.Alone p) (hq : P.spare q = some f) : q = p := by
  by_contra hne
  rw [(h q hne).1] at hq
  cases hq

theorem PageMove.recorded (h : PageMove P d P') (hs : RecordSafe P d) (hc : P.Recorded) :
    P'.Recorded := by
  cases h with
  | refill => exact hc.keep rfl rfl (fun _ h => h) rfl rfl
  | trap => exact hc.keep rfl rfl (fun _ h => h) rfl rfl
  | @skip p f halone =>
    obtain ⟨hspare, haim⟩ := hs.fresh p f rfl
    refine ⟨hc.owner, ?_, ?_⟩
    · intro f' q ha hq
      refine (hc.held f' q ha hq).imp_right ?_
      rintro ⟨r, hr⟩
      obtain rfl := halone.spare_eq hr
      rw [hspare] at hr
      cases hr
    · intro q f' x hx
      cases (halone.aim_update hx).2
  | @aim p f halone =>
    obtain ⟨hspare, hlive, hown⟩ := hs.victim p f rfl
    have hnone : ∀ q g, P.spare q ≠ some g := by
      intro q g hq
      obtain rfl := halone.spare_eq hq
      rw [hspare] at hq
      cases hq
    refine ⟨hc.owner, ?_, ?_⟩
    · intro f' q ha hq
      refine (hc.held f' q ha hq).imp_right ?_
      rintro ⟨r, hr⟩
      exact absurd hr (hnone r f')
    · intro q f' x hx
      obtain ⟨rfl, he⟩ := halone.aim_update hx
      cases he
      refine ⟨hown, hc.owner f q hown, ?_, Function.update_self ..⟩
      rcases hc.held f q hown hlive with hlo | ⟨r, hr⟩
      · exact hlo
      · exact absurd hr (hnone r f)
  | @invalidate p f x halone hp =>
    obtain ⟨hown, hxp, hlo, hspare⟩ := hc.aimed p f x hp
    refine ⟨hc.owner, ?_, ?_⟩
    · intro f' q ha hq
      by_cases hff : f' = f
      · subst hff
        exact .inr ⟨p, Function.update_self ..⟩
      · dsimp only at ha ⊢
        rcases hc.held f' q ha hq with hlo' | ⟨r, hr⟩
        · left
          have hne : (P.spTbl f').pgTblEntry ≠ x := by
            intro he
            rw [he, hlo] at hlo'
            have hinj : f = f' := frameLo_inj hlo'
            exact hff hinj.symm
          rw [Function.update_of_ne hne]
          exact hlo'
        · obtain rfl := halone.spare_eq hr
          rw [hspare] at hr
          cases hr
    · intro q f' y hy
      cases (halone.aim_update hy).2
  | @setFree p f halone hp =>
    have htbl : ∀ {f' q}, (Function.update P.spTbl f { P.spTbl f with asid := -1 } f').asid = asid q →
        f' ≠ f ∧ Function.update P.spTbl f { P.spTbl f with asid := -1 } f' = P.spTbl f' := by
      intro f' q ha
      have hne : f' ≠ f := by
        rintro rfl
        rw [Function.update_self] at ha
        exact asid_ne_free q ha.symm
      exact ⟨hne, Function.update_of_ne hne ..⟩
    refine ⟨?_, ?_, ?_⟩
    · intro f' q ha
      obtain ⟨-, he⟩ := htbl ha
      dsimp only at ha ⊢
      rw [he] at ha ⊢
      exact hc.owner f' q ha
    · intro f' q ha hq
      obtain ⟨hne, he⟩ := htbl ha
      dsimp only at ha ⊢
      rw [he] at ha ⊢
      refine (hc.held f' q ha hq).imp_right ?_
      rintro ⟨r, hr⟩
      obtain rfl := halone.spare_eq hr
      rw [hp] at hr
      exact absurd (Option.some.inj hr).symm hne
    · intro q f' y hy
      cases (halone.aim_update hy).2
  | @install p f i halone hp =>
    have habsent := hs.absent p f i rfl
    refine ⟨?_, ?_, ?_⟩
    · intro f' q ha
      dsimp only at ha ⊢
      by_cases hff : f' = f
      · subst hff
        rw [Function.update_self] at ha ⊢
        exact asid_inj ha
      · rw [Function.update_of_ne hff] at ha ⊢
        exact hc.owner f' q ha
    · intro f' q ha hq
      dsimp only at ha ⊢
      by_cases hff : f' = f
      · subst hff
        rw [Function.update_self, Function.update_self]
        exact .inl rfl
      · rw [Function.update_of_ne hff] at ha ⊢
        rcases hc.held f' q ha hq with hlo | ⟨r, hr⟩
        · left
          have hne : (P.spTbl f').pgTblEntry ≠ (p, i) := by
            intro he
            rw [he] at hlo
            exact habsent (PteEntry.valid_of_frameLo hlo)
          rw [Function.update_of_ne hne]
          exact hlo
        · obtain rfl := halone.spare_eq hr
          rw [hp] at hr
          exact absurd (Option.some.inj hr).symm hff
    · intro q f' y hy
      cases (halone.aim_update hy).2
  | store => exact hc.keep rfl rfl (fun _ h => gone_update_of h) rfl rfl
  | die => exact hc.keep rfl rfl (fun _ h => gone_update_of h) rfl rfl
  | finish => exact hc.keep rfl rfl (fun _ h => h) rfl rfl
  | same => exact hc

end Rocm
