import Rocm.Proofs.Coherence

/-!
# Addresses in frames and pages

An address is that of its page or frame and an offset. Frames do not overlap, so what is stored in
one of them changes no other.
-/

namespace Rocm

/-! ## Offsets -/

/-- The place of an address in its page. -/
def pageOffset (va : Word) : Fin PAGESIZE :=
  ⟨(va &&& 0xFFF).toNat, by
    rw [BitVec.toNat_and]
    exact Nat.lt_of_le_of_lt Nat.and_le_right (by decide)⟩

theorem page_and_offset : ENTRYHI_PAGE_MASK &&& (0xFFF : Word) = 0#32 := by decide

theorem page_or_offset : ENTRYHI_PAGE_MASK ||| (0xFFF : Word) = BitVec.allOnes 32 := by decide

theorem ofNat_pageOffset (va : Word) : BitVec.ofNat 32 (pageOffset va) = va &&& 0xFFF :=
  BitVec.ofNat_toNat 32 (va &&& 0xFFF) |>.trans (BitVec.setWidth_eq _)

theorem offset_and (o : Fin PAGESIZE) : BitVec.ofNat 32 o &&& (0xFFF : Word) = BitVec.ofNat 32 o := by
  have hlt : o.val < 4096 := o.isLt
  apply BitVec.eq_of_toNat_eq
  rw [BitVec.toNat_and, show (0xFFF : Word).toNat = 2 ^ 12 - 1 from rfl,
    Nat.and_two_pow_sub_one_eq_mod, BitVec.toNat_ofNat]
  omega

theorem offset_and_page (o : Fin PAGESIZE) : BitVec.ofNat 32 o &&& ENTRYHI_PAGE_MASK = 0#32 := by
  rw [← offset_and, BitVec.and_assoc, BitVec.and_comm 0xFFF, page_and_offset, BitVec.and_zero]

/-- An address is that of its page and its offset. -/
theorem page_add_offset (va : Word) :
    (va &&& ENTRYHI_PAGE_MASK) + BitVec.ofNat 32 (pageOffset va) = va := by
  have hdisj : (va &&& ENTRYHI_PAGE_MASK) &&& (va &&& 0xFFF) = 0#32 := by
    rw [BitVec.and_comm va 0xFFF, BitVec.and_assoc, ← BitVec.and_assoc ENTRYHI_PAGE_MASK,
      page_and_offset, BitVec.zero_and, BitVec.and_zero]
  rw [ofNat_pageOffset, BitVec.add_eq_or_of_and_eq_zero _ _ hdisj, ← BitVec.and_or_distrib_left,
    page_or_offset, BitVec.and_allOnes]

section Base

variable {base : Word} {o : Fin PAGESIZE}

/-- An address on a page boundary and an offset. -/
theorem base_add (hbase : base &&& ENTRYHI_PAGE_MASK = base) :
    (base + BitVec.ofNat 32 o) &&& ENTRYHI_PAGE_MASK = base ∧
      pageOffset (base + BitVec.ofNat 32 o) = o := by
  have hlow : base &&& 0xFFF = 0#32 := by
    rw [← hbase, BitVec.and_assoc, page_and_offset, BitVec.and_zero]
  have hdisj : base &&& BitVec.ofNat 32 o = 0#32 := by
    rw [← offset_and o, BitVec.and_comm _ 0xFFF, ← BitVec.and_assoc, hlow, BitVec.zero_and]
  rw [BitVec.add_eq_or_of_and_eq_zero _ _ hdisj]
  constructor
  · rw [BitVec.and_or_distrib_right, hbase, offset_and_page, BitVec.or_zero]
  · refine Fin.ext ?_
    have hlt : o.val < 4096 := o.isLt
    change ((base ||| BitVec.ofNat 32 o) &&& 0xFFF).toNat = o.val
    rw [BitVec.and_or_distrib_right, hlow, BitVec.zero_or, offset_and, BitVec.toNat_ofNat]
    omega

end Base

theorem pageAddr_page (i : Page) : pageAddr i &&& ENTRYHI_PAGE_MASK = pageAddr i := by
  revert i
  decide

theorem frameAddr_page (f : Frame) : frameAddr f &&& ENTRYHI_PAGE_MASK = frameAddr f := by
  revert f
  decide

/-- An address in a page. -/
theorem eq_pageAddr_add {va : Word} {i : Page} (h : va &&& ENTRYHI_PAGE_MASK = pageAddr i) :
    va = pageAddr i + BitVec.ofNat 32 (pageOffset va) := by
  rw [← h, page_add_offset]

/-- The physical address of an address whose page is in a frame. -/
theorem physAddr_frameLo {e : PteEntry} {f : Frame} (h : e.entryLO = frameLo f) (va : Word) :
    physAddr e va = frameAddr f + BitVec.ofNat 32 (pageOffset va) := by
  have hpfn : ∀ f : Frame, frameLo f &&& ENTRYLO_PFN_MASK = frameAddr f := by decide
  have hdisj : frameAddr f &&& (va &&& 0xFFF) = 0#32 := by
    rw [← frameAddr_page, BitVec.and_comm va, BitVec.and_assoc, ← BitVec.and_assoc ENTRYHI_PAGE_MASK,
      page_and_offset, BitVec.zero_and, BitVec.and_zero]
  rw [physAddr, h, hpfn, ofNat_pageOffset, BitVec.add_eq_or_of_and_eq_zero _ _ hdisj]

theorem frame_add_inj {f f' : Frame} {o o' : Fin PAGESIZE}
    (h : frameAddr f + BitVec.ofNat 32 o = frameAddr f' + BitVec.ofNat 32 o') : f = f' ∧ o = o' := by
  have haddr : ∀ {f f' : Frame}, frameAddr f = frameAddr f' → f = f' := by decide
  have h1 := base_add (o := o) (frameAddr_page f)
  have h2 := base_add (o := o') (frameAddr_page f')
  rw [h] at h1
  exact ⟨haddr (h1.1.symm.trans h2.1), h1.2.symm.trans h2.2⟩

/-! ## The contents of frames -/

variable [Umps]

/-- What is in a frame. -/
def Mem.frame (m : Mem) (f : Frame) : Block := m.readBlock (frameAddr f)

theorem Mem.frame_apply (m : Mem) (f : Frame) (o : Fin PAGESIZE) :
    m.frame f o = m.ram (frameAddr f + BitVec.ofNat 32 o) := rfl

/-- A byte is stored in a frame. -/
theorem Mem.frame_store (m : Mem) (f : Frame) (o : Fin PAGESIZE) (b : Byte) :
    ({ m with ram := Function.update m.ram (frameAddr f + BitVec.ofNat 32 o) b } : Mem).frame =
      Function.update m.frame f (Function.update (m.frame f) o b) := by
  funext f' o'
  rw [Mem.frame_apply]
  dsimp only
  by_cases hf : f' = f
  · subst hf
    rw [Function.update_self]
    by_cases ho : o' = o
    · subst ho
      rw [Function.update_self, Function.update_self]
    · rw [Function.update_of_ne fun he => ho (frame_add_inj he).2, Function.update_of_ne ho,
        Mem.frame_apply]
  · rw [Function.update_of_ne fun he => hf (frame_add_inj he).1, Function.update_of_ne hf,
      Mem.frame_apply]

/-- A block is copied to a frame. -/
theorem Mem.frame_writeBlock (m : Mem) (f : Frame) (b : Block) :
    (m.writeBlock (frameAddr f) b).frame = Function.update m.frame f b := by
  have haddr : ∀ f : Frame, (frameAddr f).toNat = 0x20020000 + f.val * 4096 := by decide
  funext f' o
  have hf := haddr f
  have hf' := haddr f'
  have ho : o.val < 4096 := o.isLt
  have hlt : f.val < 16 := f.isLt
  have hlt' : f'.val < 16 := f'.isLt
  have hsub : (frameAddr f' + BitVec.ofNat 32 o - frameAddr f).toNat =
      (2 ^ 32 - (frameAddr f).toNat + ((frameAddr f').toNat + o.val)) % 2 ^ 32 := by
    rw [BitVec.toNat_sub, BitVec.toNat_add, BitVec.toNat_ofNat]
    omega
  rw [Mem.frame_apply, Mem.writeBlock]
  dsimp only
  by_cases hff : f' = f
  · subst hff
    have hval : (frameAddr f' + BitVec.ofNat 32 o - frameAddr f').toNat = o.val := by omega
    rw [Function.update_self, dif_pos (by rw [hval]; exact o.isLt)]
    exact congrArg b (Fin.ext hval)
  · have hne : f'.val ≠ f.val := fun he => hff (Fin.ext he)
    rw [Function.update_of_ne hff, dif_neg (by change ¬ _ < 4096; omega), Mem.frame_apply]

end Rocm
