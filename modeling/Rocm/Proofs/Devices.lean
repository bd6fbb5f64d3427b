import Rocm.Proofs.Interrupts

/-!
# Devices and their semaphores

While a controller executes a command or its interrupt is pending, the semaphore of the device is
0; it is 1 only after a completion that nobody waited for, and then its queue is empty.
-/

namespace Rocm

/-! ## Addresses -/

/-- The halves of a terminal. -/
def SubDev.isTerm : SubDev → Bool
  | .dtp _ _ => false
  | .recv _ => true
  | .transm _ => true

theorem commandAddr_aligned (d : SubDev) : d.commandAddr &&& 3 = 0 := by
  have : ∀ d ∈ SubDev.all, d.commandAddr &&& 3 = 0 := by decide +kernel
  exact this d d.mem_all

theorem commandAddr_ne (d : SubDev) : d.commandAddr ≠ 0 ∧ d.commandAddr ≠ NULL := by
  have : ∀ d ∈ SubDev.all, d.commandAddr ≠ 0 ∧ d.commandAddr ≠ NULL := by decide +kernel
  exact this d d.mem_all

theorem find_commandAddr (d : SubDev) :
    (SubDev.all.find? fun d' => d'.commandAddr = d.commandAddr) = some d := by
  have : ∀ d ∈ SubDev.all,
      (SubDev.all.find? fun d' => d'.commandAddr = d.commandAddr) = some d := by decide +kernel
  exact this d d.mem_all

/-- `do_io` finds line and number of a device from the address of its command register. -/
theorem findDevice_commandAddr (d : SubDev) :
    findDevice (deviceFromComdaddr d.commandAddr) = some (d.line, d.no) ∧
      (d.isTerm → (isTermWriting d.commandAddr = true ↔ d = .transm d.no)) := by
  have : ∀ d ∈ SubDev.all, findDevice (deviceFromComdaddr d.commandAddr) = some (d.line, d.no) ∧
      (d.isTerm → (isTermWriting d.commandAddr = true ↔ d = .transm d.no)) := by decide +kernel
  exact this d d.mem_all

/-- The semaphore `do_io` uses for a command register is that of the sub-device. -/
theorem doIoSem_commandAddr [Layout] (junk : Word) (d : SubDev) :
    doIoSem junk d.commandAddr = Layout.toAddresses.semAddr (.dev d) := by
  obtain ⟨hfind, hterm⟩ := findDevice_commandAddr d
  unfold doIoSem
  rw [hfind]
  generalize isTermWriting d.commandAddr = writing at hterm
  cases d with
  | dtp line no => exact dif_pos line.isLt
  | recv no =>
    have hw : writing = false :=
      Bool.eq_false_iff.mpr fun hc => absurd ((hterm rfl).mp hc) (by simp)
    rw [hw]
    rfl
  | transm no =>
    rw [(hterm rfl).mpr rfl]
    rfl

/-- The semaphore that `do_io` uses is that of a device, but where it finds none. -/
theorem doIoSem_cases [Layout] (junk a : Word) :
    (∃ d : SubDev, doIoSem junk a = Layout.toAddresses.semAddr (.dev d)) ∨
      findDevice (deviceFromComdaddr a) = none ∧ doIoSem junk a = junk - 4 := by
  unfold doIoSem
  cases hf : findDevice (deviceFromComdaddr a) with
  | none => exact .inr ⟨rfl, rfl⟩
  | some d =>
    obtain ⟨line, index⟩ := d
    refine .inl ?_
    rw [semOfLine]
    split
    · next h => exact ⟨.dtp ⟨line, h⟩ index, rfl⟩
    · split
      · exact ⟨.transm index, rfl⟩
      · exact ⟨.recv index, rfl⟩

/-! ## The invariant -/

variable {k k' : Kernel View} {d : SubDev} {s : Word}

theorem wake_blocked_ne {w : PcbId} {s' : Word} (h : s' ≠ s) :
    (k.wake s w).lists.blocked s' = k.lists.blocked s' := by
  change ((k.lists.popBlocked s).enqueue w _).blocked s' = _
  rw [View.enqueue_blocked]
  exact Function.update_of_ne h _ _

theorem block_blocked_ne {p : PcbId} {s' : Word} (h : s' ≠ s) :
    (k.block s p).lists.blocked s' = k.lists.blocked s' := Function.update_of_ne h _ _

theorem setInt_int_ne {g : Globals} {v s' : Word} (h : s' ≠ s) : (g.setInt s v).int s' = g.int s' :=
  Function.update_of_ne h _ _

variable [Layout]

/-- The semaphore of a sub-device agrees with what its controller does. -/
structure DevInv (k : Kernel View) (d : SubDev) : Prop where
  range : k.g.int (Layout.toAddresses.semAddr (.dev d)) = 0 ∨
    k.g.int (Layout.toAddresses.semAddr (.dev d)) = 1
  pending : (k.g.dev d).busy ∨ (k.g.dev d).intr →
    k.g.int (Layout.toAddresses.semAddr (.dev d)) = 0
  excl : ¬ ((k.g.dev d).busy ∧ (k.g.dev d).intr)
  one : k.g.int (Layout.toAddresses.semAddr (.dev d)) = 1 →
    k.lists.blocked (Layout.toAddresses.semAddr (.dev d)) = []
  okChar : d.isTerm → okCharTrans (k.g.dev d).status → (k.g.dev d).intr

theorem semAddr_inj {s s' : KernelSem}
    (h : Layout.toAddresses.semAddr s = Layout.toAddresses.semAddr s') : s = s' :=
  Layout.sem_injective h

/-- Nothing that concerns the device has changed. -/
theorem DevInv.frame (h : DevInv k d) (hdev : k'.g.dev d = k.g.dev d)
    (hint : k'.g.int (Layout.toAddresses.semAddr (.dev d)) =
      k.g.int (Layout.toAddresses.semAddr (.dev d)))
    (hb : k.lists.blocked (Layout.toAddresses.semAddr (.dev d)) = [] →
      k'.lists.blocked (Layout.toAddresses.semAddr (.dev d)) = []) : DevInv k' d where
  range := by rw [hint]; exact h.range
  pending := by rw [hint, hdev]; exact h.pending
  excl := by rw [hdev]; exact h.excl
  one h1 := hb (h.one (hint ▸ h1))
  okChar := by rw [hdev]; exact h.okChar

/-- A P on any semaphore; on that of the device it leaves 0. -/
theorem PStep.devInv {p : PcbId} {r : EhAct} (h : DevInv k d) (hp : PStep s p k r k') :
    DevInv k' d ∧ (s = Layout.toAddresses.semAddr (.dev d) → k'.g.int s = 0) := by
  by_cases hs : Layout.toAddresses.semAddr (.dev d) = s
  · subst hs
    cases hp with
    | block hz =>
      exact ⟨⟨.inl hz, fun _ => hz, h.excl, fun h1 => absurd (hz.symm.trans h1) (by decide),
        h.okChar⟩, fun _ => hz⟩
    | wake hne hq => rw [h.one (h.range.resolve_left hne)] at hq; cases hq
    | take =>
      have hz : (k.mapG (·.setInt (Layout.toAddresses.semAddr (.dev d)) 0)).g.int
          (Layout.toAddresses.semAddr (.dev d)) = 0 := Function.update_self ..
      exact ⟨⟨.inl hz, fun _ => hz, h.excl, fun h1 => absurd (hz.symm.trans h1) (by decide),
        h.okChar⟩, fun _ => hz⟩
  · refine ⟨?_, fun e => absurd e.symm hs⟩
    cases hp with
    | block => exact h.frame rfl rfl fun hb => (block_blocked_ne hs).trans hb
    | wake => exact h.frame rfl rfl fun hb => (wake_blocked_ne hs).trans hb
    | take => exact h.frame rfl (setInt_int_ne hs) id

/-- A V on another semaphore. -/
theorem VStep.devInv {p : Option PcbId} (h : DevInv k d) (hv : VStep s k p k')
    (hs : Layout.toAddresses.semAddr (.dev d) ≠ s) : DevInv k' d := by
  cases hv with
  | idle => exact h
  | block => exact h.frame rfl rfl fun hb => (block_blocked_ne hs).trans hb
  | wake => exact h.frame rfl rfl fun hb => (wake_blocked_ne hs).trans hb
  | give => exact h.frame rfl (setInt_int_ne hs) id

theorem DevInv.kill (h : DevInv k d) (S : List PcbId) : DevInv (k.kill S) d :=
  h.frame rfl rfl fun hb => by
    change (k.lists.blocked _).filter _ = []
    rw [hb]
    rfl

/-- A change of variables that devices and semaphores do not see. -/
theorem DevInv.mapG (h : DevInv k d) {f : Globals → Globals} (hdev : (f k.g).dev = k.g.dev)
    (hint : (f k.g).int = k.g.int) : DevInv (k.mapG f) d :=
  h.frame (congrFun hdev d) (congrFun hint _) id

/-- A command for the device while its semaphore is 0. -/
theorem DevInv.command {g : Globals} {v : View} (h : DevInv ⟨v, g⟩ d)
    (hz : g.int (Layout.toAddresses.semAddr (.dev d)) = 0) (cmd : Word) :
    DevInv ⟨v, g.command d cmd⟩ d := by
  have hdev : (g.command d cmd).dev d = (g.dev d).store cmd := Function.update_self ..
  have hone : (g.command d cmd).int (Layout.toAddresses.semAddr (.dev d)) = 1 →
      v.blocked (Layout.toAddresses.semAddr (.dev d)) = [] := fun h1 =>
    absurd (hz.symm.trans h1) (by decide)
  refine ⟨.inl hz, fun _ => hz, ?_, hone, fun ht hok => ?_⟩
  · rw [hdev]
    unfold DevState.store
    have := h.excl
    split
    · exact this
    · split <;> simp_all
  · rw [hdev] at hok ⊢
    unfold DevState.store at hok ⊢
    split at hok
    · next hb => simpa [hb] using h.okChar ht hok
    · split at hok
      · exact absurd hok (show ¬ okCharTrans READY = true by decide)
      · exact absurd hok (show ¬ okCharTrans BUSY = true by decide)

theorem DevInv.command_ne {d' : SubDev} (h : DevInv k d) (hd : d ≠ d') (cmd : Word) :
    DevInv (k.mapG (·.command d' cmd)) d :=
  h.frame (Function.update_of_ne hd _ _) rfl id

/-- The sub-device served interrupts. -/
theorem served_intr (h : ∀ d, DevInv k d) (hs : k.g.served = some d) : (k.g.dev d).intr := by
  have hs' := hs
  unfold Globals.served at hs'
  split at hs'
  · cases hs'
  · next line hl =>
    split at hs'
    · next h3 =>
      obtain ⟨i, hi, hany⟩ := topBit_bitmap k.g ⟨line.val - 3, by omega⟩
      have hserved := (served_eq hl h3 rfl hi).symm.trans hs
      have hmem := List.mem_of_find?_eq_some hserved
      have hpred := List.find?_some hserved
      have hip : k.g.causeIP line = true := List.find?_some hl
      have hne : k.g.bitmap ⟨line.val - 3, by omega⟩ ≠ 0 := by
        simpa [Globals.causeIP, show ¬ line.val < 3 by omega] using hip
      have hany := hany hne
      by_cases h4 : line.val - 3 < 4
      · simp only [subDevs, dif_pos h4, List.mem_singleton, List.any_cons, List.any_nil,
          Bool.or_false] at hmem hany
        rw [hmem]
        exact hany
      · simp only [h4, false_or, Bool.decide_eq_true] at hpred
        refine (h d).okChar ?_ hpred
        simp only [subDevs, dif_neg h4, List.mem_cons, List.not_mem_nil, or_false] at hmem
        rcases hmem with rfl | rfl <;> rfl
    · cases hs'

end Rocm
