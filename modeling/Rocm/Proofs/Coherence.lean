import Rocm.Proofs.Pages

/-!
# Frames, page tables and the TLB agree

The invariant of the paging: a valid page of a process that lives is in a frame of its own, which
the table of the swap pool records, and the TLB shows what the page tables say. It survives every
move, but for a refill with the entry of another page and for a bit of `sp_asids` that is lost.
-/

namespace Rocm

variable [Umps] {P P' : Paging} {d : Did} {p q : Uproc} {f : Frame} {x : Uproc × Page}

/-- The address lies in a page that has an entry. -/
def InPage (va : Word) : Prop := ∃ i, va &&& ENTRYHI_PAGE_MASK = pageAddr i

instance (va : Word) : Decidable (InPage va) := inferInstanceAs (Decidable (∃ _, _))

/-- The address that the TLB does not translate. -/
def Did.missing : Did → Option Word
  | .missed _ va => some va
  | .faulted _ va => some va
  | _ => none

/-- The pages that are missing are those of the program and of the stack. -/
def Did.InPages (d : Did) : Prop := ∀ va ∈ d.missing, InPage va

instance (d : Did) : Decidable d.InPages := Option.decidableForallMem (p := InPage) _

structure Paging.Coherent (P : Paging) : Prop where
  tables : Tables P.pte
  mirrors : P.tlb.Mirrors P.pte
  /-- A valid page of a process that lives is in a frame whose entry is for this page. -/
  owned : ∀ x, ¬ P.gone x.1 → (P.pte x).valid → ∃ f, (P.pte x).entryLO = frameLo f ∧
    (P.spTbl f).asid = asid x.1 ∧ (P.spTbl f).pgTblEntry = x
  /-- The bit of the owner of a frame is set while it lives. -/
  marked : ∀ q f, ¬ P.gone q → (P.spTbl f).asid = asid q → Marked P.spAsids q
  /-- No page is in a frame that is about to be overwritten. -/
  spare : ∀ p f x, P.spare p = some f → ¬ P.gone x.1 → (P.pte x).entryLO ≠ frameLo f
  aim : ∀ p f x, P.aim p = some (f, x) → (P.spTbl f).pgTblEntry = x

/-- What a move must not do: refill the TLB for an address without an entry, or lose the bit of
    another process that lives. -/
structure PageSafe (P : Paging) (d : Did) : Prop where
  inPages : d.InPages
  kept : ∀ p v, d = .gave p (.act (.storeAsids v)) → ∀ q, q ≠ p → Marked P.spAsids q → Marked v q

/-! ## `pte_entryLO` -/

section Lo

omit [Umps]

/-- The bit of a mask of one bit. -/
theorem and_valid (lo : Word) :
    lo &&& ENTRYLO_VALID = if lo.getLsbD 9 then ENTRYLO_VALID else 0#32 := by
  have hmask : ENTRYLO_VALID = BitVec.twoPow 32 9 := by decide
  rw [hmask, BitVec.and_twoPow]

theorem invalidLo_valid (lo : Word) : invalidLo lo &&& ENTRYLO_VALID = 0 := by
  have hbit : ENTRYLO_VALID.getLsbD 9 = true := by decide
  unfold invalidLo
  split
  · next h =>
    have hset : lo.getLsbD 9 = true := by
      by_contra hn
      rw [and_valid, if_neg hn] at h
      exact h rfl
    rw [and_valid, BitVec.getLsbD_xor, hset, hbit]
    rfl
  · next h => exact not_not.mp h

theorem invalidLo_local {lo : Word} (h : lo &&& ENTRYLO_GLOBAL = 0) :
    invalidLo lo &&& ENTRYLO_GLOBAL = 0 := by
  have hmask : ENTRYLO_VALID &&& ENTRYLO_GLOBAL = 0 := by decide
  unfold invalidLo
  split
  · rw [xor_and, h, hmask]
    rfl
  · exact h

end Lo

/-! ## A move -/

theorem Tables.update (h : Tables P.pte) {lo : Word} (hlo : lo &&& ENTRYLO_GLOBAL = 0) :
    Tables (Function.update P.pte x ⟨pteHi x.1 x.2, lo⟩) := by
  constructor <;> intro y
  · by_cases hy : y = x
    · subst hy
      rw [Function.update_self]
    · rw [Function.update_of_ne hy, h.hi]
  · by_cases hy : y = x
    · subst hy
      rw [Function.update_self]
      exact hlo
    · rw [Function.update_of_ne hy]
      exact h.isLocal y

omit [Umps] in
theorem PteEntry.valid_of_frameLo {e : PteEntry} (h : e.entryLO = frameLo f) : e.valid := by
  rw [PteEntry.valid, h]
  exact decide_eq_true (frameLo_valid f)

omit [Umps] in
theorem PteEntry.invalid (hi lo : Word) : ¬ (PteEntry.mk hi (invalidLo lo)).valid := by
  rw [PteEntry.valid, decide_eq_true_eq]
  exact not_not.mpr (invalidLo_valid lo)

/-- Who has a page in the frame. -/
theorem Paging.Coherent.owner (hc : P.Coherent) (hx : ¬ P.gone x.1)
    (hlo : (P.pte x).entryLO = frameLo f) :
    (P.spTbl f).asid = asid x.1 ∧ (P.spTbl f).pgTblEntry = x := by
  obtain ⟨f', hf', ho⟩ := hc.owned x hx (PteEntry.valid_of_frameLo hlo)
  rwa [frameLo_inj (hlo.symm.trans hf')]

/-- Nobody but `p` works on a frame. -/
theorem Paging.Alone.spare_update {o : Option Frame} (h : P.Alone p) {q : Uproc} {f : Frame}
    (hq : Function.update P.spare p o q = some f) : q = p ∧ o = some f := by
  by_cases hqp : q = p
  · subst hqp
    rw [Function.update_self] at hq
    exact ⟨rfl, hq⟩
  · rw [Function.update_of_ne hqp, (h q hqp).1] at hq
    cases hq

theorem Paging.Alone.aim_update {o : Option (Frame × (Uproc × Page))} (h : P.Alone p) {q : Uproc}
    {y : Frame × (Uproc × Page)} (hq : Function.update P.aim p o q = some y) :
    q = p ∧ o = some y := by
  by_cases hqp : q = p
  · subst hqp
    rw [Function.update_self] at hq
    exact ⟨rfl, hq⟩
  · rw [Function.update_of_ne hqp, (h q hqp).2] at hq
    cases hq

omit [Umps] in
/-- A process that lives after `p` has gone. -/
theorem not_gone_update {gone : Uproc → Prop} (h : ¬ Function.update gone p True q) :
    q ≠ p ∧ ¬ gone q := by
  by_cases hqp : q = p
  · subst hqp
    rw [Function.update_self] at h
    exact absurd trivial h
  · rw [Function.update_of_ne hqp] at h
    exact ⟨hqp, h⟩

/-- The entry with which the TLB is refilled for a page is that of the page. -/
theorem refill_eq {va : Word} {e : PteEntry} (hin : InPage va)
    (he : ∀ h : (pageIndex (hiOf p va)).toNat < USERPGTBLSIZE, e = P.pte (p, ⟨_, h⟩)) :
    ∃ i, hiOf p va = pteHi p i ∧ e = P.pte (p, i) := by
  obtain ⟨i, hi⟩ := hin
  have hhi := hiOf_eq_pteHi (p := p).mpr hi
  have hindex : (pageIndex (hiOf p va)).toNat = i := by rw [hhi, pageIndex_pteHi]
  have hlt : (pageIndex (hiOf p va)).toNat < USERPGTBLSIZE := hindex ▸ i.isLt
  obtain rfl : ⟨_, hlt⟩ = i := Fin.ext hindex
  exact ⟨_, hhi, he hlt⟩

theorem PageMove.coherent (h : PageMove P d P') (hs : PageSafe P d) (hc : P.Coherent) :
    P'.Coherent := by
  cases h with
  | @refill p va _ slot hno he =>
    obtain ⟨i, hhi, rfl⟩ := refill_eq (hs.inPages va rfl) he
    refine ⟨hc.tables, hc.mirrors.add hc.tables slot fun s he => hno s ?_, hc.owned, hc.marked,
      hc.spare, hc.aim⟩
    rw [he]
    exact (hits_pteHi (hc.tables.hi _) (hc.tables.isLocal _)).mpr ⟨rfl, hhi⟩
  | trap => exact ⟨hc.tables, hc.mirrors, hc.owned, hc.marked, hc.spare, hc.aim⟩
  | @skip p f halone hfree =>
    refine ⟨hc.tables, hc.mirrors, hc.owned, hc.marked, fun q f' x hq hx hlo => ?_,
      fun q f' x hq => absurd (halone.aim_update hq).2 nofun⟩
    obtain ⟨-, he⟩ := halone.spare_update hq
    obtain rfl := Option.some.inj he
    have hown := (hc.owner hx hlo).1
    exact hfree x.1 hown (hc.marked x.1 f hx hown)
  | @aim p f halone =>
    refine ⟨hc.tables, hc.mirrors, hc.owned, hc.marked,
      fun q f' x hq => absurd (halone.spare_update hq).2 nofun, fun q f' x hq => ?_⟩
    cases (halone.aim_update hq).2
    rfl
  | @invalidate p f x halone hp =>
    have hpg := hc.aim p f x hp
    refine ⟨hc.tables.update (invalidLo_local (hc.tables.isLocal x)),
      hc.mirrors.update hc.tables x _, fun y hy hv => ?_, hc.marked, fun q f' y hq hy hlo => ?_,
      fun q f' y hq => absurd (halone.aim_update hq).2 nofun⟩
    · dsimp only at hv ⊢
      by_cases hyx : y = x
      · subst hyx
        rw [Function.update_self] at hv
        exact absurd hv (PteEntry.invalid _ _)
      · rw [Function.update_of_ne hyx] at hv ⊢
        exact hc.owned y hy hv
    · obtain ⟨-, he⟩ := halone.spare_update hq
      obtain rfl := Option.some.inj he
      dsimp only at hlo
      by_cases hyx : y = x
      · subst hyx
        rw [Function.update_self] at hlo
        exact PteEntry.invalid _ _ (PteEntry.valid_of_frameLo hlo)
      · rw [Function.update_of_ne hyx] at hlo
        exact hyx ((hc.owner hy hlo).2.symm.trans hpg)
  | @setFree p f halone hp =>
    refine ⟨hc.tables, hc.mirrors, fun y hy hv => ?_, fun q f' hq ha => ?_,
      fun q f' x hq hx => ?_, fun q f' y hq => absurd (halone.aim_update hq).2 nofun⟩
    · obtain ⟨f', hf', ho⟩ := hc.owned y hy hv
      have hne : f' ≠ f := fun he => hc.spare p f y hp hy (he ▸ hf')
      refine ⟨f', hf', ?_⟩
      dsimp only
      rwa [Function.update_of_ne hne]
    · dsimp only at ha
      by_cases hff : f' = f
      · subst hff
        rw [Function.update_self] at ha
        exact absurd ha.symm (asid_ne_free q)
      · rw [Function.update_of_ne hff] at ha
        exact hc.marked q f' hq ha
    · obtain ⟨-, he⟩ := halone.spare_update hq
      obtain rfl := Option.some.inj he
      exact hc.spare p f x hp hx
  | @install p f i halone hp =>
    refine ⟨hc.tables.update (x := (p, i)) (frameLo_local f),
      hc.mirrors.update hc.tables (p, i) _, fun y hy hv => ?_, fun q f' hq ha => ?_,
      fun q f' x hq => absurd (halone.spare_update hq).2 nofun,
      fun q f' y hq => absurd (halone.aim_update hq).2 nofun⟩
    · dsimp only at hv ⊢
      by_cases hyx : y = (p, i)
      · subst hyx
        exact ⟨f, by rw [Function.update_self], by rw [Function.update_self],
          by rw [Function.update_self]⟩
      · rw [Function.update_of_ne hyx] at hv ⊢
        obtain ⟨f', hf', ho⟩ := hc.owned y hy hv
        have hne : f' ≠ f := fun he => hc.spare p f y hp hy (he ▸ hf')
        refine ⟨f', hf', ?_⟩
        rwa [Function.update_of_ne hne]
    · dsimp only at ha ⊢
      rw [marked_or]
      by_cases hff : f' = f
      · subst hff
        rw [Function.update_self] at ha
        exact .inr (asid_inj ha).symm
      · rw [Function.update_of_ne hff] at ha
        exact .inl (hc.marked q f' hq ha)
  | @store p v hp hserv =>
    refine ⟨hc.tables, hc.mirrors, fun y hy => hc.owned y (not_gone_update hy).2,
      fun q f' hq ha => ?_, fun q f' x hq hx => hc.spare q f' x hq (not_gone_update hx).2, hc.aim⟩
    obtain ⟨hqp, hq'⟩ := not_gone_update hq
    exact hs.kept p v rfl q hqp (hc.marked q f' hq' ha)
  | die =>
    exact ⟨hc.tables, hc.mirrors, fun y hy => hc.owned y (not_gone_update hy).2,
      fun q f' hq => hc.marked q f' (not_gone_update hq).2,
      fun q f' x hq hx => hc.spare q f' x hq (not_gone_update hx).2, hc.aim⟩
  | finish => exact ⟨hc.tables, hc.mirrors, hc.owned, hc.marked, hc.spare, hc.aim⟩
  | same => exact hc

end Rocm
