import Rocm.Properties.PagerFailures
import Rocm.Proofs.Translation

/-!
# The entry of an address

`uTLB_RefillHandler` and `tlb_exc_handler` take the page number of the address as the index of its
entry, but for the page of the stack. Past the pages of the program the entry they use is that of
the stack, or none.
-/

namespace Rocm

open Session Threads

/-! ## Page numbers -/

theorem vpn_pteHi (p : Uproc) (i : Page) :
    ENTRYHI_GET_VPN (pteHi p i) =
      if i.val < USERPGTBLSIZE - 1 then BitVec.ofNat 32 i else STK_PG := by
  revert p i
  decide +kernel

theorem asid_pteHi (p : Uproc) (i : Page) : ENTRYHI_GET_ASID (pteHi p i) = asid p := by
  revert p i
  decide +kernel

theorem asid_hiOf (p : Uproc) (va : Word) : ENTRYHI_GET_ASID (hiOf p va) = asid p := by
  rw [ENTRYHI_GET_ASID, hiOf_asid]
  revert p
  decide

/-- The index is that of an entry with the page number exactly for the pages of the program and of
    the stack. -/
theorem pageIndex_iff (p : Uproc) (hi : Word) :
    (∃ h : (pageIndex hi).toNat < USERPGTBLSIZE,
        ENTRYHI_GET_VPN (pteHi p ⟨(pageIndex hi).toNat, h⟩) = ENTRYHI_GET_VPN hi) ↔
      (ENTRYHI_GET_VPN hi).toNat < USERPGTBLSIZE - 1 ∨ ENTRYHI_GET_VPN hi = STK_PG := by
  simp only [vpn_pteHi]
  by_cases hstk : ENTRYHI_GET_VPN hi = STK_PG
  · have hindex : pageIndex hi = 31 := if_pos hstk
    simp only [hindex, hstk]
    decide
  · have hindex : pageIndex hi = ENTRYHI_GET_VPN hi := if_neg hstk
    simp only [hindex, hstk, or_false]
    constructor
    · rintro ⟨h, hvpn⟩
      by_contra hge
      rw [if_neg hge] at hvpn
      exact hstk hvpn.symm
    · intro h
      refine ⟨Nat.lt_of_lt_of_le h (by decide), ?_⟩
      rw [if_pos h]
      exact BitVec.ofNat_toNat _ _

/-! ## The two handlers -/

variable [Umps]

/-- For an exception with `hi` in `EntryHi` both handlers use the entry `i` of the table of `p`. -/
structure EntryUsed (m : Mem) (p : Uproc) (hi : Word) (i : Page) : Prop where
  /-- `uTLB_RefillHandler` puts it into the TLB. -/
  refill : ∀ r, (m.uTlbRefill p hi r).tlb r.slot = m.pte (p, i)
  /-- `tlb_exc_handler`, after a read that succeeds, enters the frame in it. -/
  pager : ∀ (s : Session) (x : ProcState) (fuel : Nat), s.mem = m.setExceptState p PGFAULTEXCEPT x →
    x.entryHi = hi → CAUSE_GET_EXCCODE x.cause ≠ EXC_MOD → s.readStatus = READY →
    ∃ s', s.run fuel (tlbExcHandler p) = (.ended (.call (.ldst 0)), s') ∧
      (s'.mem.pte (p, i)).entryLO = frameLo s.mem.chooseFrame ∧
      (s'.mem.spTbl s.mem.chooseFrame).pgTblEntry = (p, i)

/-- The entry that is used for an address is the one of its page and its process. -/
def EntryFits (m : Mem) (p : Uproc) (hi : Word) : Prop :=
  ∃ i, EntryUsed m p hi i ∧ ENTRYHI_GET_VPN (m.pte (p, i)).entryHI = ENTRYHI_GET_VPN hi ∧
    ENTRYHI_GET_ASID (m.pte (p, i)).entryHI = ENTRYHI_GET_ASID hi

theorem entryUsed_of_lt (m : Mem) (p : Uproc) {hi : Word}
    (h : (pageIndex hi).toNat < USERPGTBLSIZE) : EntryUsed m p hi ⟨(pageIndex hi).toNat, h⟩ where
  refill r := Mem.uTlbRefill_tlb.trans (Mem.pgTblAt_of_lt h)
  pager s x fuel hs hx hmod hread := by
    have hstate : (s.mem.sup p).supExceptState PGFAULTEXCEPT = x := by
      rw [hs]
      simp [Mem.setExceptState]
    have hfault : (s.mem.sup p).faultHi = hi := by rw [SupportT.faultHi, hstate, hx]
    rw [← hstate] at hmod
    rw [run_pager hmod]
    simp only [hfault, hread, ne_eq, not_true_eq_false, if_false, dif_pos h]
    refine ⟨_, rfl, ?_, ?_⟩
    · simp [Session.note, Mem.install, Mem.pte, Mem.setLo]
    · simp [Session.note, Mem.install, Mem.fillFrame, Mem.setLo]

/-- Past the table the entry is whatever the memory holds there. -/
theorem not_entryUsed_of_le (m : Mem) (p : Uproc) {hi : Word} (i : Page)
    (h : USERPGTBLSIZE ≤ (pageIndex hi).toNat) : ¬ EntryUsed m p hi i := by
  intro hused
  let other : PteEntry := ⟨~~~(m.pte (p, i)).entryHI, 0⟩
  have hslot := hused.refill ⟨⟨0, Umps.tlbSize_pos⟩, other⟩
  rw [Mem.uTlbRefill_tlb, Mem.pgTblAt_of_le h] at hslot
  have hhi : ~~~(m.pte (p, i)).entryHI = (m.pte (p, i)).entryHI := congrArg PteEntry.entryHI hslot
  exact absurd (congrArg (·.getLsbD 0) hhi) (by simp)

/-- The handlers use the entry of the address exactly for the pages 0..30 and the page of the
    stack. -/
theorem entryFits_iff (m : Mem) (p : Uproc) (va : Word) :
    EntryFits m p (hiOf p va) ↔
      (ENTRYHI_GET_VPN (hiOf p va)).toNat < USERPGTBLSIZE - 1 ∨
        ENTRYHI_GET_VPN (hiOf p va) = STK_PG := by
  rw [← pageIndex_iff p]
  constructor
  · rintro ⟨i, hused, hvpn, -⟩
    have h : (pageIndex (hiOf p va)).toNat < USERPGTBLSIZE :=
      Nat.lt_of_not_le fun h => not_entryUsed_of_le m p i h hused
    have htlb := hused.refill ⟨⟨0, Umps.tlbSize_pos⟩, ⟨0, 0⟩⟩
    rw [Mem.uTlbRefill_tlb, Mem.pgTblAt_of_lt h] at htlb
    refine ⟨h, ?_⟩
    rw [← hvpn, ← htlb]
    exact congrArg ENTRYHI_GET_VPN (m.pte_hi p _).symm
  · rintro ⟨h, hvpn⟩
    refine ⟨_, entryUsed_of_lt m p h, ?_, ?_⟩
    · exact (congrArg ENTRYHI_GET_VPN (m.pte_hi p _)).trans hvpn
    · rw [asid_hiOf, ← asid_pteHi p ⟨(pageIndex (hiOf p va)).toNat, h⟩]
      exact congrArg ENTRYHI_GET_ASID (m.pte_hi p _)

omit [Umps] in
/-- The page after the last one of the program gets the entry of the stack. -/
theorem entryFits_collision :
    letI := sampleUmps
    ¬ EntryFits sampleMem 0 (hiOf 0 0x8001F000) := by
  let _ := sampleUmps
  rintro ⟨i, hused, hvpn, -⟩
  have hslot : ((sampleMem.uTlbRefill 0 (hiOf 0 0x8001F000) (refillAt 0)).tlb 0).entryHI =
      pteHi 0 31 := by decide +kernel
  rw [← hused.refill (refillAt 0)] at hvpn
  change ENTRYHI_GET_VPN ((sampleMem.uTlbRefill 0 _ (refillAt 0)).tlb 0).entryHI = _ at hvpn
  rw [hslot] at hvpn
  exact absurd hvpn (by decide +kernel)

end Rocm
