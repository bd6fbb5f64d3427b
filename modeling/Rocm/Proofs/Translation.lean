import Rocm.Proofs.Tlb
import Rocm.Support.Machine

/-!
# What the TLB translates

Which addresses an entry of a page table stands for, and how refills and `update_tlb` keep the
entries of the TLB those of the page tables.
-/

namespace Rocm

/-! ## Entries and addresses -/

theorem pteHi_page (p : Uproc) (i : Page) : pteHi p i &&& ENTRYHI_PAGE_MASK = pageAddr i := by
  revert p i
  decide +kernel

theorem pteHi_asid (p : Uproc) (i : Page) :
    pteHi p i &&& ENTRYHI_ASID_MASK = asid p <<< ASIDSHIFT := by
  revert p i
  decide +kernel

theorem asid_shift_inj {p q : Uproc} (h : asid p <<< ASIDSHIFT = asid q <<< ASIDSHIFT) : p = q := by
  revert p q
  decide

theorem asid_mask (p : Uproc) :
    asid p <<< ASIDSHIFT &&& ENTRYHI_ASID_MASK = asid p <<< ASIDSHIFT := by
  revert p
  decide

theorem pageAddr_inj {i j : Page} (h : pageAddr i = pageAddr j) : i = j := by
  revert i j
  decide +kernel

theorem pteHi_inj {p q : Uproc} {i j : Page} (h : pteHi p i = pteHi q j) : p = q ∧ i = j := by
  constructor
  · refine asid_shift_inj ?_
    rw [← pteHi_asid p i, ← pteHi_asid q j, h]
  · refine pageAddr_inj ?_
    rw [← pteHi_page p i, ← pteHi_page q j, h]

theorem hiOf_page (p : Uproc) (va : Word) :
    hiOf p va &&& ENTRYHI_PAGE_MASK = va &&& ENTRYHI_PAGE_MASK := by
  have hasid : asid p <<< ASIDSHIFT &&& ENTRYHI_PAGE_MASK = 0#32 := by
    revert p
    decide
  rw [hiOf, BitVec.and_or_distrib_right, hasid, BitVec.or_zero, BitVec.and_assoc, BitVec.and_self]

theorem hiOf_asid (p : Uproc) (va : Word) :
    hiOf p va &&& ENTRYHI_ASID_MASK = asid p <<< ASIDSHIFT := by
  have hpage : va &&& ENTRYHI_PAGE_MASK &&& ENTRYHI_ASID_MASK = 0#32 := by
    rw [BitVec.and_assoc]
    exact BitVec.and_zero
  rw [hiOf, BitVec.and_or_distrib_right, hpage, BitVec.zero_or, asid_mask]

theorem xor_and {x y mask : Word} : (x ^^^ y) &&& mask = (x &&& mask) ^^^ (y &&& mask) := by
  ext i
  simp [Bool.and_xor_distrib_right]

theorem xor_and_eq_zero {x y mask : Word} :
    (x ^^^ y) &&& mask = 0 ↔ x &&& mask = y &&& mask := by
  rw [xor_and]
  exact BitVec.xor_eq_zero_iff

/-- An address of the page `i` gives the `EntryHi` of its entry. -/
theorem hiOf_eq_pteHi {p : Uproc} {va : Word} {i : Page} :
    hiOf p va = pteHi p i ↔ va &&& ENTRYHI_PAGE_MASK = pageAddr i := by
  constructor
  · intro h
    rw [← hiOf_page p, h, pteHi_page]
  · intro h
    have hor : ∀ (p : Uproc) (i : Page), pageAddr i ||| asid p <<< ASIDSHIFT = pteHi p i := by
      decide +kernel
    rw [hiOf, h, hor]

theorem hiOf_pageAddr (p : Uproc) (i : Page) : hiOf p (pageAddr i) = pteHi p i := by
  revert p i
  decide +kernel

theorem pageIndex_pteHi (p : Uproc) (i : Page) : (pageIndex (pteHi p i)).toNat = i := by
  revert p i
  decide +kernel

/-- Not an entry of all address spaces. -/
def PteEntry.Local (e : PteEntry) : Prop := e.entryLO &&& ENTRYLO_GLOBAL = 0

theorem hits_pteHi {q : Uproc} {i : Page} {e : PteEntry} (he : e.entryHI = pteHi q i)
    (hl : e.Local) {p : Uproc} {va : Word} : e.hits (hiOf p va) ↔ q = p ∧ hiOf p va = pteHi p i := by
  unfold PteEntry.hits
  rw [decide_eq_true_eq, he, xor_and_eq_zero, xor_and_eq_zero, pteHi_page, pteHi_asid, hiOf_page,
    hiOf_asid, hiOf_eq_pteHi]
  constructor
  · rintro ⟨hpage, hglobal | hasid⟩
    · exact absurd hl hglobal
    · exact ⟨asid_shift_inj hasid, hpage.symm⟩
  · rintro ⟨rfl, hpage⟩
    exact ⟨hpage.symm, .inr rfl⟩

theorem PteEntry.Foreign.not_hits {e : PteEntry} (h : e.Foreign) (p : Uproc) (va : Word) :
    ¬ e.hits (hiOf p va) := by
  unfold PteEntry.hits
  rw [decide_eq_true_eq]
  rintro ⟨-, hglobal | hasid⟩
  · exact hglobal h.1
  · refine h.2 p ?_
    rw [xor_and_eq_zero, hiOf_asid] at hasid
    rw [xor_and_eq_zero, hasid, asid_mask]

theorem PteEntry.Foreign.ne_pteHi {e : PteEntry} (h : e.Foreign) (p : Uproc) (i : Page) :
    e.entryHI ≠ pteHi p i := by
  intro he
  refine h.2 p ?_
  rw [xor_and_eq_zero, he, pteHi_asid, asid_mask]

/-- A frame has an address of its own, and its bits leave room for those of `pte_entryLO`. -/
theorem frameLo_inj {f f' : Frame} (h : frameLo f = frameLo f') : f = f' := by
  revert f f'
  decide +kernel

theorem frameLo_valid (f : Frame) : frameLo f &&& ENTRYLO_VALID ≠ 0 := by
  revert f
  decide

theorem frameLo_local (f : Frame) : frameLo f &&& ENTRYLO_GLOBAL = 0 := by
  revert f
  decide

/-! ## A TLB that agrees with the page tables -/

variable [Umps]

/-- The TLB after `update_tlb`: the entry that matches is replaced; where none does, an entry may be
    written to some slot. -/
theorem updateTlb_cases (entryHi entryLo : Word) (t : Tlb) :
    (updateTlb entryHi entryLo t).2 = t ∧ t.probe entryHi = none ∨
      ∃ j, (updateTlb entryHi entryLo t).2 = Function.update t j ⟨entryHi, entryLo⟩ ∧
        (t.probe entryHi = some j ∨ t.probe entryHi = none) := by
  cases hp : t.probe entryHi with
  | some j => exact .inr ⟨j, by rw [updateTlb_matched entryLo hp], .inl rfl⟩
  | none =>
    rw [updateTlb_missed entryLo hp]
    split
    · exact .inl ⟨rfl, rfl⟩
    · exact .inr ⟨_, rfl, .inr rfl⟩

/-- The entries of the TLB for user processes are those of their page tables. -/
structure Tlb.Mirrors (t : Tlb) (pte : Uproc × Page → PteEntry) : Prop where
  entry : ∀ s, (t s).Foreign ∨ ∃ x, t s = pte x
  unique : ∀ s s' x, t s = pte x → t s' = pte x → s = s'

section Mirrors

variable {t : Tlb} {pte : Uproc × Page → PteEntry} {x : Uproc × Page} {s : Slot}

/-- The entries of page tables. -/
structure Tables (pte : Uproc × Page → PteEntry) : Prop where
  hi : ∀ x, (pte x).entryHI = pteHi x.1 x.2
  isLocal : ∀ x, (pte x).Local

omit [Umps] in
theorem Tables.inj (h : Tables pte) {y : Uproc × Page} (he : pte x = pte y) : x = y := by
  have hinj := pteHi_inj (p := x.1) (q := y.1) (i := x.2) (j := y.2) (by rw [← h.hi, ← h.hi, he])
  exact Prod.ext hinj.1 hinj.2

/-- What translates an address of a user process. -/
theorem Tlb.Mirrors.eq_of_hits (h : t.Mirrors pte) (ht : Tables pte) {p : Uproc} {va : Word}
    (hs : (t s).hits (hiOf p va)) : ∃ i, hiOf p va = pteHi p i ∧ t s = pte (p, i) := by
  rcases h.entry s with hf | ⟨⟨q, i⟩, hx⟩
  · exact absurd hs (hf.not_hits p va)
  · rw [hx] at hs
    obtain ⟨rfl, hva⟩ := (hits_pteHi (ht.hi (q, i)) (ht.isLocal (q, i))).mp hs
    exact ⟨i, hva, hx⟩

/-- No other slot has the page of an entry. -/
theorem Tlb.Mirrors.entryHI_ne (h : t.Mirrors pte) (ht : Tables pte) (hx : t s ≠ pte x) :
    (t s).entryHI ≠ pteHi x.1 x.2 := by
  intro he
  rcases h.entry s with hf | ⟨y, hy⟩
  · exact hf.ne_pteHi x.1 x.2 he
  · rw [hy, ht.hi y] at he
    obtain ⟨h1, h2⟩ := pteHi_inj he
    exact hx (hy.trans (congrArg pte (Prod.ext h1 h2)))

theorem Tlb.Mirrors.of_absent (h : t.Mirrors pte) (ht : Tables pte) {lo : Word}
    (hx : ∀ s, t s ≠ pte x) : t.Mirrors (Function.update pte x ⟨pteHi x.1 x.2, lo⟩) := by
  constructor
  · intro s
    refine (h.entry s).imp_right fun ⟨y, hy⟩ => ⟨y, ?_⟩
    have hyx : y ≠ x := fun he => hx s (he ▸ hy)
    rw [Function.update_of_ne hyx, hy]
  · intro s s' y hs hs'
    have hyx : y ≠ x := by
      rintro rfl
      rw [Function.update_self] at hs
      exact h.entryHI_ne ht (hx s) (by rw [hs])
    rw [Function.update_of_ne hyx] at hs hs'
    exact h.unique s s' y hs hs'

/-- An entry of a page table changes, and so does the only slot of its page. -/
theorem Tlb.Mirrors.set (h : t.Mirrors pte) (ht : Tables pte) {lo : Word} {j : Slot}
    (hx : ∀ s, s ≠ j → t s ≠ pte x) :
    Tlb.Mirrors (Function.update t j ⟨pteHi x.1 x.2, lo⟩)
      (Function.update pte x ⟨pteHi x.1 x.2, lo⟩) := by
  constructor
  · intro s
    by_cases hs : s = j
    · subst hs
      exact .inr ⟨x, by rw [Function.update_self, Function.update_self]⟩
    · rw [Function.update_of_ne hs]
      refine (h.entry s).imp_right fun ⟨y, hy⟩ => ⟨y, ?_⟩
      have hyx : y ≠ x := fun he => hx s hs (he ▸ hy)
      rw [Function.update_of_ne hyx, hy]
  · intro s s' y hs hs'
    by_cases hyx : y = x
    · subst hyx
      have hj : ∀ {s}, Function.update t j ⟨pteHi y.1 y.2, lo⟩ s =
          Function.update pte y ⟨pteHi y.1 y.2, lo⟩ y → s = j := by
        intro s hs
        by_contra hsj
        rw [Function.update_of_ne hsj, Function.update_self] at hs
        exact h.entryHI_ne ht (hx s hsj) (by rw [hs])
      rw [hj hs, hj hs']
    · have hj : ∀ {s}, Function.update t j ⟨pteHi x.1 x.2, lo⟩ s =
          Function.update pte x ⟨pteHi x.1 x.2, lo⟩ y → t s = pte y := by
        intro s hs
        rw [Function.update_of_ne hyx] at hs
        rw [← hs, Function.update_of_ne]
        rintro rfl
        rw [Function.update_self] at hs
        have he : pteHi x.1 x.2 = pteHi y.1 y.2 := by rw [← ht.hi y, ← hs]
        obtain ⟨h1, h2⟩ := pteHi_inj he
        exact hyx (Prod.ext h1.symm h2.symm)
      exact h.unique s s' y (hj hs) (hj hs')

/-- An entry that is not there is added. -/
theorem Tlb.Mirrors.add (h : t.Mirrors pte) (ht : Tables pte) (slot : Slot)
    (hx : ∀ s, t s ≠ pte x) : Tlb.Mirrors (Function.update t slot (pte x)) pte := by
  have he : (⟨pteHi x.1 x.2, (pte x).entryLO⟩ : PteEntry) = pte x := PteEntry.ext (ht.hi x).symm rfl
  have hset : Tlb.Mirrors (Function.update t slot ⟨pteHi x.1 x.2, (pte x).entryLO⟩)
      (Function.update pte x ⟨pteHi x.1 x.2, (pte x).entryLO⟩) := h.set ht fun s _ => hx s
  rwa [he, Function.update_eq_self] at hset

/-- What does not translate the page of an entry is not that entry. -/
theorem Tlb.ne_of_probe (ht : Tables pte) (hp : t.probe (pteHi x.1 x.2) = none) (s : Slot) :
    t s ≠ pte x := by
  intro he
  refine Tlb.probe_eq_none.mp hp s ?_
  rw [he, ← hiOf_pageAddr]
  exact (hits_pteHi (ht.hi x) (ht.isLocal x)).mpr ⟨rfl, hiOf_pageAddr ..⟩

/-- An entry of a page table changes, and the TLB is updated. -/
theorem Tlb.Mirrors.update (h : t.Mirrors pte) (ht : Tables pte) (x : Uproc × Page) (lo : Word) :
    Tlb.Mirrors (updateTlb (pteHi x.1 x.2) lo t).2
      (Function.update pte x ⟨pteHi x.1 x.2, lo⟩) := by
  rcases updateTlb_cases (pteHi x.1 x.2) lo t with ⟨htlb, hp⟩ | ⟨j, htlb, hp | hp⟩
  · rw [htlb]
    exact h.of_absent ht (Tlb.ne_of_probe ht hp)
  · rw [htlb]
    have hj : t j = pte x := by
      have hhits := Tlb.hits_of_probe hp
      rw [← hiOf_pageAddr] at hhits
      obtain ⟨i, hi, hj⟩ := h.eq_of_hits ht hhits
      rw [hiOf_pageAddr] at hi
      rw [hj, ← (pteHi_inj hi).2]
    exact h.set ht fun s hs he => hs (h.unique s j x he hj)
  · rw [htlb]
    exact h.set ht fun s _ => Tlb.ne_of_probe ht hp s

end Mirrors

end Rocm
