import Rocm.Proofs.Scheduling

/-!
# PIDs

The PID of a process is the address of its PCB, so no two PCBs share one, and `search_by_pid`
finds the process again.
-/

namespace Rocm

open Prog ProcTable

/-! ## A table anywhere -/

/-- The address past `pcb_free_table`, before it wraps. -/
def Addresses.tableEnd (L : Addresses) : Nat :=
  L.pcbFreeTable.toNat + L.sizeofPcb.toNat * MAXPROC

/-- The elements of `pcb_free_table` have a size and lie in the address space. -/
structure Addresses.TableFits (L : Addresses) : Prop where
  size_pos : 0 < L.sizeofPcb.toNat
  no_wrap : L.tableEnd ≤ 2 ^ 32

theorem Addresses.elem_le_tableEnd (L : Addresses) (p : PcbId) :
    L.pcbFreeTable.toNat + L.sizeofPcb.toNat * p + L.sizeofPcb.toNat ≤ L.tableEnd := by
  have hmul : L.sizeofPcb.toNat * (p + 1) ≤ L.sizeofPcb.toNat * MAXPROC :=
    Nat.mul_le_mul_left _ p.isLt
  rw [Nat.mul_succ] at hmul
  rw [tableEnd]
  omega

/-- The upper bound of `search_by_pid`, as the code computes it. -/
theorem Addresses.bound_toNat (L : Addresses) :
    (L.pcbFreeTable + L.sizeofPcb * BitVec.ofNat 32 MAXPROC).toNat = L.tableEnd % 2 ^ 32 := by
  have hmax : (BitVec.ofNat 32 MAXPROC).toNat = MAXPROC := rfl
  rw [BitVec.toNat_add, BitVec.toNat_mul, hmax, Nat.add_mod_mod, tableEnd]

namespace Addresses.TableFits

variable {L : Addresses} (h : L.TableFits)
include h

theorem pcbAddr_toNat (p : PcbId) :
    (L.pcbAddr p).toNat = L.pcbFreeTable.toNat + L.sizeofPcb.toNat * p := by
  have hle := L.elem_le_tableEnd p
  have hpos := h.size_pos
  have hwrap := h.no_wrap
  have hp : (BitVec.ofNat 32 p.val).toNat = p.val := by
    rw [BitVec.toNat_ofNat]
    exact Nat.mod_eq_of_lt (lt_trans p.isLt (by decide))
  rw [Addresses.pcbAddr, BitVec.toNat_add, BitVec.toNat_mul, hp]
  rw [Nat.mod_eq_of_lt (a := _ * _) (by omega), Nat.mod_eq_of_lt (by omega)]

theorem pcbAddr_ne_null (hend : L.tableEnd < 2 ^ 32) (p : PcbId) : L.pcbAddr p ≠ NULL := by
  intro hnull
  have haddr := h.pcbAddr_toNat p
  have hle := L.elem_le_tableEnd p
  have hpos := h.size_pos
  have : NULL.toNat = 0xFFFFFFFF := rfl
  rw [hnull] at haddr
  omega

/-- The addresses that `search_by_pid` takes: one more than the table has elements. -/
theorem searchByPid_accepts (hend : L.tableEnd < 2 ^ 32) (pid : Word) :
    ((pid - L.pcbFreeTable) % L.sizeofPcb = 0 ∧ L.pcbFreeTable ≤ pid ∧
      pid ≤ L.pcbFreeTable + L.sizeofPcb * BitVec.ofNat 32 MAXPROC) ↔
    ∃ j ≤ MAXPROC, pid.toNat = L.pcbFreeTable.toNat + L.sizeofPcb.toNat * j := by
  have hbound := L.bound_toNat
  rw [Nat.mod_eq_of_lt hend, tableEnd] at hbound
  constructor
  · rintro ⟨hmod, hlow, hhigh⟩
    have hoff := congrArg BitVec.toNat hmod
    rw [BitVec.toNat_umod, BitVec.toNat_sub_of_le hlow] at hoff
    obtain ⟨j, hj⟩ := Nat.dvd_of_mod_eq_zero hoff
    rw [BitVec.le_def] at hlow hhigh
    refine ⟨j, Nat.le_of_mul_le_mul_left (c := L.sizeofPcb.toNat) ?_ h.size_pos, ?_⟩ <;> omega
  · rintro ⟨j, hj, hpid⟩
    have hmul : L.sizeofPcb.toNat * j ≤ L.sizeofPcb.toNat * MAXPROC := Nat.mul_le_mul_left _ hj
    have hlow : L.pcbFreeTable ≤ pid := by
      rw [BitVec.le_def]
      omega
    refine ⟨?_, hlow, ?_⟩
    · apply BitVec.eq_of_toNat_eq
      rw [BitVec.toNat_umod, BitVec.toNat_sub_of_le hlow, hpid, Nat.add_sub_cancel_left,
        Nat.mul_mod_right]
      rfl
    · rw [BitVec.le_def]
      omega

theorem searchByPid_pcbAddr (hend : L.tableEnd < 2 ^ 32) (p : PcbId) :
    L.searchByPid (L.pcbAddr p) = L.pcbAddr p :=
  if_pos ((h.searchByPid_accepts hend _).mpr ⟨p, p.isLt.le, h.pcbAddr_toNat p⟩)

end Addresses.TableFits

/-! ## The table of the nucleus -/

variable [Layout] {p q : PcbId}

theorem Layout.tableFits : Layout.toAddresses.TableFits :=
  ⟨Layout.size_pos, Layout.no_wrap.le⟩

theorem pcbAddr_toNat (p : PcbId) : (Layout.toAddresses.pcbAddr p).toNat =
    Layout.toAddresses.pcbFreeTable.toNat + Layout.toAddresses.sizeofPcb.toNat * p :=
  Layout.tableFits.pcbAddr_toNat p

theorem pcbAddr_injective (h : Layout.toAddresses.pcbAddr p = Layout.toAddresses.pcbAddr q) :
    p = q := by
  have hnat := congrArg BitVec.toNat h
  rw [pcbAddr_toNat, pcbAddr_toNat, Nat.add_left_cancel_iff] at hnat
  exact Fin.ext (Nat.eq_of_mul_eq_mul_left Layout.size_pos hnat)

theorem pcbAddr_ne_null (p : PcbId) : Layout.toAddresses.pcbAddr p ≠ NULL :=
  Layout.tableFits.pcbAddr_ne_null Layout.no_wrap p

theorem pcbAddr_ne_zero (p : PcbId) : Layout.toAddresses.pcbAddr p ≠ 0 := by
  intro h
  have hnat := congrArg BitVec.toNat h
  have := Layout.base_pos
  rw [pcbAddr_toNat] at hnat
  simp at hnat
  omega

theorem pcbAt_pcbAddr (p : PcbId) : pcbAt (Layout.toAddresses.pcbAddr p) = some p := by
  have hsome : (pcbAt (Layout.toAddresses.pcbAddr p)).isSome := by
    rw [pcbAt, List.find?_isSome]
    exact ⟨p, List.mem_finRange p, by simp⟩
  obtain ⟨q, hq⟩ := Option.isSome_iff_exists.mp hsome
  have := List.find?_some hq
  rw [hq, pcbAddr_injective (of_decide_eq_true this)]

theorem searchByPid_pcbAddr (p : PcbId) :
    searchByPid (Layout.toAddresses.pcbAddr p) = Layout.toAddresses.pcbAddr p :=
  Layout.tableFits.searchByPid_pcbAddr Layout.no_wrap p

/-- TERMPROCESS of 0 or of the PID of `q`. -/
theorem termTarget_pcbAddr (act q : PcbId) :
    termTarget act (Layout.toAddresses.pcbAddr q) = some q := by
  rw [termTarget, if_neg (pcbAddr_ne_zero q), searchByPid_pcbAddr, pcbAt_pcbAddr]

/-- `is_alive`, which compares PIDs, says whether the PCB is free. -/
theorem wp_isAlive {k : Kernel Lists} {Q : Bool → Kernel Lists → Prop}
    {E : Exit → Kernel Lists → Prop} (h : KCore k.abs) :
    wp (isAlive p) Q E k = Q (decide (p ∉ k.lists.free)) k := by
  rw [Lists.wp_isAlive]
  by_cases hp : p ∈ k.lists.free
  · have : (k.lists.free.any fun c => (k.g.pcb c).pPid = (k.g.pcb p).pPid) = true :=
      List.any_eq_true.mpr ⟨p, hp, by simp⟩
    simp [this, hp]
  · have : (k.lists.free.any fun c => (k.g.pcb c).pPid = (k.g.pcb p).pPid) = false := by
      rw [List.any_eq_false]
      intro c hc
      have hpid : (k.g.pcb p).pPid = _ := h.pidLive p hp
      have hne : c ≠ p := fun e => hp (e ▸ hc)
      rcases h.pidFree c with hz | hz
      · change (k.g.pcb c).pPid = 0 at hz
        simpa [hpid, hz] using fun e => pcbAddr_ne_zero p e.symm
      · change (k.g.pcb c).pPid = _ at hz
        simpa [hpid, hz] using fun e => hne (pcbAddr_injective e)
    simp [this, hp]

end Rocm
