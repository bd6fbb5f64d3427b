import Rocm.Proofs.Pids
import Rocm.Properties.Sample

/-!
# Looking a PID up

`search_by_pid` compares with `<=` where the table has ended. The address past the last element
is therefore taken for a PCB, and TERMPROCESS follows it. A table that ends with the address
space is never searched with success, as its end wraps to 0.
-/

namespace Rocm

open Prog ProcTable

namespace Addresses

/-- `search_by_pid(pid)` is not `NULL` just when `pid` is the address of an element, and is that
    element then. -/
structure FoundByPid (L : Addresses) (pid : Word) : Prop where
  found : L.searchByPid pid ≠ NULL ↔ ∃ p, L.pcbAddr p = pid
  elem : ∀ p, L.pcbAddr p = pid → L.searchByPid pid = pid

/-- `pid` is not taken for an element past the last one, nor an element for none. -/
structure PidInside (L : Addresses) (pid : Word) : Prop where
  notEnd : pid.toNat = L.tableEnd → pid = NULL
  notTop : L.tableEnd = 2 ^ 32 → ∀ p, L.pcbAddr p ≠ pid

namespace TableFits

variable {L : Addresses} (h : L.TableFits)
include h

/-- What is accepted is an element or the end of the table. -/
theorem searchByPid_eq_self (hend : L.tableEnd < 2 ^ 32) {pid : Word} (hnull : pid ≠ NULL) :
    L.searchByPid pid = pid ↔ (∃ p, L.pcbAddr p = pid) ∨ pid.toNat = L.tableEnd := by
  rw [searchByPid, ite_eq_left_iff, or_iff_not_imp_right]
  have haccept := h.searchByPid_accepts hend pid
  constructor
  · intro hite hnotEnd
    obtain ⟨j, hj, hpid⟩ := haccept.mp (by_contra fun hno => hnull (hite hno).symm)
    have hlt : j < MAXPROC := by
      refine lt_of_le_of_ne hj fun hmax => hnotEnd ?_
      rw [hpid, hmax, tableEnd]
    refine ⟨⟨j, hlt⟩, BitVec.eq_of_toNat_eq ?_⟩
    rw [h.pcbAddr_toNat, hpid]
  · intro himp hno
    refine absurd (haccept.mpr ?_) hno
    by_cases hnotEnd : pid.toNat = L.tableEnd
    · exact ⟨MAXPROC, le_rfl, hnotEnd⟩
    · obtain ⟨p, hp⟩ := himp hnotEnd
      exact ⟨p, p.isLt.le, by rw [← hp, h.pcbAddr_toNat]⟩

omit h in
/-- A table that ends with the address space: the upper bound has wrapped to 0. -/
theorem searchByPid_top (hend : L.tableEnd = 2 ^ 32) (pid : Word) : L.searchByPid pid = NULL := by
  refine if_neg fun ⟨_, hlow, hhigh⟩ => ?_
  have hbound := L.bound_toNat
  rw [hend, Nat.mod_self] at hbound
  rw [BitVec.le_def] at hlow hhigh
  -- the table would start at 0, and the address space is no multiple of `MAXPROC`
  have hbase : L.pcbFreeTable.toNat = 0 := by omega
  rw [tableEnd, hbase, Nat.zero_add] at hend
  have hmul : L.sizeofPcb.toNat * 20 = 2 ^ 32 := hend
  omega

theorem notEnd_of_found {pid : Word} (hfound : ∃ p, L.pcbAddr p = pid) :
    pid.toNat ≠ L.tableEnd := by
  obtain ⟨p, rfl⟩ := hfound
  have hle := L.elem_le_tableEnd p
  have hpos := h.size_pos
  rw [h.pcbAddr_toNat]
  omega

theorem foundByPid_low (hend : L.tableEnd < 2 ^ 32) (pid : Word) :
    L.FoundByPid pid ↔ (pid.toNat = L.tableEnd → pid = NULL) := by
  by_cases hnull : pid = NULL
  · subst hnull
    refine ⟨fun _ _ => rfl, fun _ => ⟨⟨fun hne => ?_, fun ⟨p, hp⟩ => ?_⟩, fun p hp => ?_⟩⟩
    · refine absurd ?_ hne
      rw [searchByPid, ite_self]
    · exact absurd hp (h.pcbAddr_ne_null hend p)
    · exact absurd hp (h.pcbAddr_ne_null hend p)
  · have hself := h.searchByPid_eq_self hend hnull
    have hne : L.searchByPid pid ≠ NULL ↔ L.searchByPid pid = pid := by
      rw [searchByPid]
      split <;> simp [hnull, Ne.symm hnull]
    refine ⟨fun hfound hpid => ?_, fun hnotEnd => ⟨?_, fun p hp => hself.mpr (.inl ⟨p, hp⟩)⟩⟩
    · exact absurd hpid (h.notEnd_of_found (hfound.found.mp (hne.mpr (hself.mpr (.inr hpid)))))
    · rw [hne, hself]
      exact or_iff_left fun hpid => hnull (hnotEnd hpid)

omit h in
theorem foundByPid_top (hend : L.tableEnd = 2 ^ 32) (pid : Word) :
    L.FoundByPid pid ↔ ∀ p, L.pcbAddr p ≠ pid := by
  have hnone := searchByPid_top hend pid
  constructor
  · intro hfound p hp
    exact hfound.found.mpr ⟨p, hp⟩ hnone
  · intro hno
    refine ⟨⟨fun hne => absurd hnone hne, fun ⟨p, hp⟩ => absurd hp (hno p)⟩, fun p hp => ?_⟩
    exact absurd hp (hno p)

end TableFits

/-- Where `search_by_pid` is right. -/
theorem foundByPid_iff {L : Addresses} (h : L.TableFits) (pid : Word) :
    L.FoundByPid pid ↔ L.PidInside pid := by
  rcases lt_or_eq_of_le h.no_wrap with hend | hend
  · rw [h.foundByPid_low hend]
    exact ⟨fun hnotEnd => ⟨hnotEnd, fun htop => absurd htop hend.ne⟩, PidInside.notEnd⟩
  · rw [TableFits.foundByPid_top hend]
    refine ⟨fun hno => ⟨fun hpid => ?_, fun _ => hno⟩, fun hin => hin.notTop hend⟩
    exact absurd hpid (by omega)

theorem foundByPid_first : sampleAddresses.TableFits ∧
    (sampleAddresses.FoundByPid 0x20002000 ↔ sampleAddresses.PidInside 0x20002000) :=
  have hfits : sampleAddresses.TableFits := ⟨by decide, by decide⟩
  ⟨hfits, foundByPid_iff hfits _⟩

/-- The address past the table of the sample is found. -/
theorem foundByPid_end : sampleAddresses.TableFits ∧
    ¬ sampleAddresses.FoundByPid 0x20003040 := by
  have hfits : sampleAddresses.TableFits := ⟨by decide, by decide⟩
  refine ⟨hfits, fun hfound => ?_⟩
  have hsome : sampleAddresses.searchByPid 0x20003040 ≠ NULL := by decide
  obtain ⟨p, hp⟩ := hfound.found.mp hsome
  exact absurd hp (by decide +revert)

end Addresses

variable [Layout]

/-- A TERMPROCESS of the address past the table takes the nucleus out of it. -/
theorem termProcess_tableEnd {D : Type} [ProcTable D] {k : Kernel D} {act : PcbId}
    (hact : k.g.actProc = some act) {pid : Word}
    (hpid : pid.toNat = Layout.toAddresses.tableEnd) :
    wp (termProcess pid) (fun _ _ => False) (fun e k' => e = .fault ∧ k' = k) k := by
  have hzero : pid ≠ 0 := fun h0 => by
    have := Layout.base_pos
    rw [h0, Addresses.tableEnd] at hpid
    change 0 = _ at hpid
    omega
  have hnone : pcbAt (searchByPid pid) = none := by
    rw [pcbAt, List.find?_eq_none]
    intro p _ hp
    have haddr := of_decide_eq_true hp
    by_cases hself : searchByPid pid = pid
    · exact Layout.tableFits.notEnd_of_found ⟨p, haddr.trans hself⟩ hpid
    · have hnull : searchByPid pid = NULL := if_neg fun hc => hself (if_pos hc)
      exact pcbAddr_ne_null p (haddr.trans hnull)
  rw [termProcess, derefActProc, wp_bind, wp_bind, wp_getG, hact]
  simp only [wp_pure, if_neg hzero, hnone]
  exact ⟨rfl, rfl⟩

end Rocm
