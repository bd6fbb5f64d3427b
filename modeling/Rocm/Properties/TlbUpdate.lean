import Rocm.Proofs.Tlb
import Rocm.Properties.SupportSample

/-!
# The update of the TLB

`update_tlb` reads the wrong bit of `Index`. Where `TLBP` has found nothing it takes the probe for a
success, unless the machine happens to leave that bit set as well.
-/

namespace Rocm

variable [Umps]

/-- What the update of the TLB is for. -/
structure TlbUpdated (t : Tlb) (entryHi entryLo : Word) : Prop where
  /-- The entry that matches is replaced. -/
  matched : ∀ i, t.probe entryHi = some i → (updateTlb entryHi entryLo t).1 = 1 ∧
    ((updateTlb entryHi entryLo t).2 i).entryLO = entryLo ∧
    ∀ j, j ≠ i → (updateTlb entryHi entryLo t).2 j = t j
  /-- Where none matches nothing changes. -/
  missed : t.probe entryHi = none → updateTlb entryHi entryLo t = (0, t)
  /-- The translations of other pages stay. -/
  others : ∀ j, ¬ (t j).hits entryHi → (updateTlb entryHi entryLo t).2 j = t j

/-- `update_tlb` does what it is for exactly where an entry matches, or where the machine sets the
    bit that it reads in `Index` after a `TLBP` that has found nothing. -/
theorem tlb_updated_iff (t : Tlb) (entryHi entryLo : Word) :
    TlbUpdated t entryHi entryLo ↔
      (∃ i, (t i).hits entryHi) ∨ Umps.missIndex &&& P_BIT ≠ 0 := by
  rw [← Tlb.probe_isSome]
  cases hp : t.probe entryHi with
  | some i =>
    have hupd := updateTlb_matched entryLo hp
    refine iff_of_true ⟨fun j hj => ?_, fun h => ?_, fun j hj => ?_⟩ (.inl rfl)
    · obtain rfl := Option.some.inj (hp.symm.trans hj)
      rw [hupd]
      exact ⟨rfl, by simp, fun j hne => Function.update_of_ne hne _ _⟩
    · rw [hp] at h
      cases h
    · rw [hupd]
      refine Function.update_of_ne (fun hij => hj ?_) _ _
      rw [hij]
      exact Tlb.hits_of_probe hp
  | none =>
    have hupd := updateTlb_missed entryLo hp
    constructor
    · intro h
      refine .inr fun hbit => ?_
      have hret := h.missed hp
      rw [hupd, if_neg (not_not.mpr hbit)] at hret
      exact absurd (congrArg Prod.fst hret) (by decide : (1 : Word) ≠ 0)
    · intro h
      have hbit : Umps.missIndex &&& P_BIT ≠ 0 := h.resolve_left (by simp)
      rw [if_pos hbit] at hupd
      refine ⟨fun i hi => ?_, fun _ => hupd, fun j _ => by rw [hupd]⟩
      rw [hp] at hi
      cases hi

/-- The two callers of `update_tlb`, `tlb_exc_handler` and `free_frame`, then leave the
    translations of other pages. -/
theorem install_others (m : Mem) (p : Uproc) (f : Frame) (i : Page)
    (h : TlbUpdated m.tlb (pteHi p i) (frameLo f)) (j : Slot) (hj : ¬ (m.tlb j).hits (pteHi p i)) :
    (m.install p f i).tlb j = m.tlb j := by
  rw [Mem.install_tlb]
  exact h.others j hj

theorem invalidate_others (m : Mem) (x : Uproc × Page)
    (h : ∀ lo, TlbUpdated m.tlb (pteHi x.1 x.2) lo) (j : Slot)
    (hj : ¬ (m.tlb j).hits (pteHi x.1 x.2)) : (m.invalidate x).tlb j = m.tlb j := by
  rw [Mem.invalidate_tlb]
  exact (h _).others j hj

omit [Umps] in
/-- Nothing matches, and the first slot is overwritten. -/
theorem tlb_displaced :
    letI := sampleUmps
    ¬ TlbUpdated (fun _ => ⟨0, 0⟩) (pteHi 0 0) (frameLo 0) := by
  let _ := sampleUmps
  intro h
  exact absurd (congrArg Prod.fst (h.missed (by decide))) (by decide)

end Rocm
