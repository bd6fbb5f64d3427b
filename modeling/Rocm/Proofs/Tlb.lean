import Rocm.Support.Memory

/-!
# The TLB and its update

What `TLBP` finds, and what `update_tlb` does to the TLB where it finds something and where not.
-/

namespace Rocm

variable [Umps] {t : Tlb} {entryHi entryLo : Word}

/-! ## The probe -/

theorem Tlb.probe_eq_none : t.probe entryHi = none ↔ ∀ i, ¬ (t i).hits entryHi := by
  simp [Tlb.probe]

theorem Tlb.hits_of_probe {i : Slot} (h : t.probe entryHi = some i) : (t i).hits entryHi :=
  List.find?_some (p := fun i => (t i).hits entryHi) h

theorem Tlb.probe_isSome : (t.probe entryHi).isSome ↔ ∃ i, (t i).hits entryHi := by
  rw [Option.isSome_iff_ne_none, ne_eq, Tlb.probe_eq_none]
  push Not
  rfl

/-- The number of a slot fits into the field of `Index`. -/
theorem slot_lt (i : Slot) : i.val < 64 := Nat.lt_of_lt_of_le i.isLt Umps.tlbSize_le

/-- `TLBWI` writes the slot that `TLBP` has named. -/
theorem indexSlot_shift (i : Slot) : indexSlot (BitVec.ofNat 32 i <<< 8) = i := by
  have hfield : ∀ n : Fin 64, (BitVec.ofNat 32 n <<< 8 >>> 8 &&& 0x3F).toNat = n := by decide
  refine Fin.ext ?_
  rw [indexSlot]
  simp only [hfield ⟨i, slot_lt i⟩]
  exact Nat.mod_eq_of_lt i.isLt

/-- The number of a slot has no failure bit. -/
theorem shift_P_BIT (i : Slot) : BitVec.ofNat 32 i <<< 8 &&& P_BIT = 0 := by
  have hbit : ∀ n : Fin 64, BitVec.ofNat 32 n <<< 8 &&& P_BIT = 0 := by decide
  exact hbit ⟨i, slot_lt i⟩

/-! ## `update_tlb` -/

theorem updateTlb_matched (entryLo : Word) {i : Slot} (h : t.probe entryHi = some i) :
    updateTlb entryHi entryLo t = (1, Function.update t i ⟨entryHi, entryLo⟩) := by
  have hindex : t.tlbp entryHi = BitVec.ofNat 32 i <<< 8 := by rw [Tlb.tlbp, h]
  rw [updateTlb, hindex]
  simp only [shift_P_BIT, ne_eq, not_true_eq_false, if_false]
  rw [Tlb.tlbwi, indexSlot_shift]

theorem updateTlb_missed (entryLo : Word) (h : t.probe entryHi = none) :
    updateTlb entryHi entryLo t =
      if Umps.missIndex &&& P_BIT ≠ 0 then (0, t)
      else (1, t.tlbwi Umps.missIndex entryHi entryLo) := by
  have hindex : t.tlbp entryHi = Umps.missIndex := by rw [Tlb.tlbp, h]
  rw [updateTlb, hindex]

/-- `tlb_exc_handler` updates the TLB for the entry it has stored. -/
theorem Mem.install_tlb (m : Mem) (p : Uproc) (f : Frame) (i : Page) :
    (m.install p f i).tlb = (updateTlb (pteHi p i) (frameLo f) m.tlb).2 := by
  have hpte : ((m.fillFrame p f i).setLo (p, i) (frameLo f)).pte (p, i) = ⟨pteHi p i, frameLo f⟩ :=
    PteEntry.ext (Mem.pte_hi _ p i) (by simp [Mem.pte, Mem.setLo])
  rw [Mem.install]
  simp only [hpte]
  rfl

/-- `free_frame` updates the TLB for the entry it has made invalid. -/
theorem Mem.invalidate_tlb (m : Mem) (x : Uproc × Page) :
    (m.invalidate x).tlb =
      (updateTlb (pteHi x.1 x.2) ((m.invalidate x).pte x).entryLO m.tlb).2 := by
  have hhi : ∀ lo, ((m.setLo x lo).pte x).entryHI = pteHi x.1 x.2 := fun lo =>
    Mem.pte_hi (m.setLo x lo) x.1 x.2
  rw [Mem.invalidate]
  simp only [hhi]
  rfl

end Rocm
