import Rocm.Properties.Sample

/-!
# The device of a command address

`do_io` finds the semaphore of a device from the address of a register, the interrupt handler from
a bitmap. They agree on every address in the register block of a device. `do_io` does not stop at
an address that is in no block.
-/

namespace Rocm

open Prog ProcTable Ring Runs

/-- `a` is in the register block of device `no` of a line. -/
def InBlock (line : Fin 5) (no : Fin 8) (a : Word) : Prop := a - devRegAddr line no < DEV_REG_SIZE

instance (line : Fin 5) (no : Fin 8) (a : Word) : Decidable (InBlock line no a) :=
  inferInstanceAs (Decidable (_ < _))

theorem InBlock.exists_offset {line : Fin 5} {no : Fin 8} {a : Word} (h : InBlock line no a) :
    ∃ i : Fin 16, a = devRegAddr line no + BitVec.ofNat 32 i := by
  have hlt : (a - devRegAddr line no).toNat < 16 := h
  refine ⟨⟨_, hlt⟩, ?_⟩
  rw [BitVec.ofNat_toNat, BitVec.setWidth_eq, BitVec.add_comm, BitVec.sub_add_cancel]

/-- The search of `do_io` in the blocks. -/
theorem findDevice_block (line : Fin 5) (no : Fin 8) (i : Fin 16) :
    findDevice (deviceFromComdaddr (devRegAddr line no + BitVec.ofNat 32 i)) = some (line, no) ∧
      devRegAddr line no + BitVec.ofNat 32 i ≠ 0 ∧
      devRegAddr line no + BitVec.ofNat 32 i ≠ NULL := by
  revert line no i
  decide +kernel

variable [Layout] {a s : Word} {d : SubDev}

/-- `do_io` operates on the semaphore at `s`, then stores the command. -/
def UsesSem (a s : Word) : Prop :=
  ∀ (v : Word) (k : Kernel Heap), doIo a v k = (do
    discard <| passeren s
    storeWord a v
    return .nothing : KM Heap EhAct) k

/-- `handle_interrupts` operates on the semaphore at `s` when it serves `d`, then delivers a status
    and acknowledges. -/
def Serves (d : SubDev) (s : Word) : Prop :=
  ∀ k : Kernel Heap, k.g.served = some d → ∃ status : Globals → Word, handlePending k = (do
    let p ← verhogen s
    deliver p (status (← getG))
    acknowledge d
    return .continue : KM Heap EhAct) k

/-- `do_io` leaves everything as it is, and stops nowhere on the way. -/
def NoEffect (a : Word) : Prop :=
  ∀ (v : Word) (k : Kernel Heap),
    (∃ r, doIo a v k = .ok r k) ∨ ∃ at_, doIo a v k = .error (.panic at_) k

/-- The decoding is exact at the address `a`. -/
structure Decodes (a : Word) : Prop where
  dtp : ∀ line no, InBlock line.castSucc no a → ∃ s, UsesSem a s ∧ Serves (.dtp line no) s
  recv : ∀ no, a = (SubDev.recv no).commandAddr → ∃ s, UsesSem a s ∧ Serves (.recv no) s
  transm : ∀ no, a = (SubDev.transm no).commandAddr → ∃ s, UsesSem a s ∧ Serves (.transm no) s
  outside : (∀ line no, ¬ InBlock line no a) → NoEffect a

/-! ## The interrupt handler -/

omit [Layout] in
/-- Programs that agree on a state may replace each other there. -/
theorem bind_congr_at {α β : Type} {x y : KM Heap α} {f : α → KM Heap β} {k : Kernel Heap}
    (h : x k = y k) : (x >>= f) k = (y >>= f) k := by
  change EStateM.bind x f k = EStateM.bind y f k
  rw [EStateM.bind, EStateM.bind, h]

theorem handlePending_eq {line : Fin 8} {k : Kernel Heap} (h : k.g.servedLine = some line) :
    handlePending k = handleInterrupts line k := by
  rw [handlePending, bind_congr_at (x := getG) (y := pure k.g) rfl, pure_bind]
  have hline : (List.finRange 8).find? k.g.causeIP = some line := h
  rw [hline]

omit [Layout] in
theorem interruptingDevice_eq {line : Fin 5} {i : Fin 8} {k : Kernel Heap}
    (hi : topBit 32 (k.g.bitmap line) 0 = i) : interruptingDevice line k = .ok i k := by
  have hlt : topBit 32 (k.g.bitmap line) 0 < 8 := by rw [hi]; exact i.isLt
  change (if h : topBit 32 (k.g.bitmap line) 0 < 8 then (return ⟨_, h⟩) else PANIC .interruptIndex :
    KM Heap (Fin 8)) k = _
  rw [dif_pos hlt]
  exact congrArg (EStateM.Result.ok · k) (Fin.ext hi)

theorem genericInterruptHandler_eq {line : Fin 4} {i : Fin 8} {k : Kernel Heap}
    (hi : topBit 32 (k.g.bitmap line.castSucc) 0 = i) : genericInterruptHandler line k = (do
      let p ← verhogen (Layout.toAddresses.semAddr (.dev (.dtp line i)))
      deliver p ((← getG).dev (.dtp line i)).status
      acknowledge (.dtp line i) : KM Heap PUnit) k := by
  rw [genericInterruptHandler, bind_congr_at (y := pure i) (interruptingDevice_eq hi), pure_bind]

theorem terminalInterruptHandler_eq {i : Fin 8} {k : Kernel Heap}
    (hi : topBit 32 (k.g.bitmap 4) 0 = i)
    (hd : (subDevs 4 i).find? (fun d => okCharTrans (k.g.dev d).status) = some d) :
    terminalInterruptHandler k = (do
      let p ← verhogen (Layout.toAddresses.semAddr (.dev d))
      deliver p (k.g.dev d).status
      acknowledge d : KM Heap PUnit) k := by
  rw [terminalInterruptHandler, bind_congr_at (y := pure i) (interruptingDevice_eq hi), pure_bind]
  rw [bind_congr_at (x := getG) (y := pure k.g) rfl, pure_bind, hd]

/-- A device that interrupts is served on its own semaphore. -/
theorem serves_semAddr (d : SubDev) : Serves d (Layout.toAddresses.semAddr (.dev d)) := by
  intro k hs
  have hs' := hs
  unfold Globals.served at hs'
  split at hs'
  · cases hs'
  next line hl =>
  split at hs'
  case isFalse => cases hs'
  next h3 =>
  have h0 : line ≠ 0 := fun e => by rw [e] at h3; exact absurd h3 (by decide)
  have h1 : line ≠ 1 := fun e => by rw [e] at h3; exact absurd h3 (by decide)
  have h2 : line ≠ 2 := fun e => by rw [e] at h3; exact absurd h3 (by decide)
  rw [handlePending_eq hl, handleInterrupts, if_neg h1, if_neg h2, if_neg h0]
  by_cases h7 : line.val < 7
  · obtain ⟨i, hi, -⟩ := topBit_bitmap k.g (⟨line.val - 3, by omega⟩ : Fin 4).castSucc
    have hlt : line.val - 3 < 4 := by omega
    have hserved := (served_eq hl h3 rfl hi).symm.trans hs
    obtain rfl : SubDev.dtp ⟨line.val - 3, hlt⟩ i = d := by simpa [subDevs, hlt] using hserved
    refine ⟨fun g => (g.dev (.dtp ⟨line.val - 3, hlt⟩ i)).status, ?_⟩
    rw [dif_pos h7, bind_congr_at (genericInterruptHandler_eq hi)]
    simp only [bind_assoc]
  · obtain ⟨i, hi, -⟩ := topBit_bitmap k.g 4
    have h7' : line = 7 := by
      have := line.isLt
      exact Fin.ext (by change line.val = 7; omega)
    have hserved := (served_eq hl h3 (by rw [h7']; rfl) hi).symm.trans hs
    refine ⟨fun _ => (k.g.dev d).status, ?_⟩
    rw [dif_neg h7, bind_congr_at (terminalInterruptHandler_eq hi (by simpa using hserved))]
    simp only [bind_assoc]
    rfl

/-! ## `do_io` -/

theorem usesSem_of_doIoSem (h : ∀ junk, doIoSem junk a = s) (h0 : a ≠ 0) (hn : a ≠ NULL) :
    UsesSem a s := by
  intro v k
  rw [doIo, if_neg fun h' => h'.elim h0 hn]
  simp only [h]
  rfl

theorem usesSem_commandAddr (d : SubDev) :
    UsesSem d.commandAddr (Layout.toAddresses.semAddr (.dev d)) :=
  usesSem_of_doIoSem (doIoSem_commandAddr · d) (commandAddr_ne d).1 (commandAddr_ne d).2

/-- Every register of a device leads to its semaphore. -/
theorem usesSem_dtp {line : Fin 4} {no : Fin 8} (h : InBlock line.castSucc no a) :
    UsesSem a (Layout.toAddresses.semAddr (.dev (.dtp line no))) := by
  obtain ⟨i, rfl⟩ := h.exists_offset
  obtain ⟨hfind, h0, hn⟩ := findDevice_block line.castSucc no i
  refine usesSem_of_doIoSem (fun junk => ?_) h0 hn
  rw [doIoSem, hfind]
  exact dif_pos line.isLt

/-- The semaphore list after `init_asl`: `semd_h` is empty. -/
def idleHeap : Heap :=
  { Heap.uninit with semds := initListHead (.head .semdH) Heap.uninit.semds }

omit [Layout] in
theorem idleHeap_removeBlocked (s : Word) (g : Globals) :
    Heap.removeBlocked s ⟨idleHeap, g⟩ = .ok none ⟨idleHeap, g⟩ := rfl

omit [Layout] in
theorem passeren_one {g : Globals} (hs : s &&& 3 = 0) (h1 : g.int s = 1) :
    wp (passeren s : KM Heap EhAct) (fun _ k => k.g.int s = 0) (fun _ _ => False)
      ⟨idleHeap, g⟩ := by
  simp only [passeren, loadInt, hs, ne_eq, not_true_eq_false, if_false, wp_bind, wp_pure, wp_getG,
    h1]
  rw [if_neg (by decide), wp_bind]
  refine wp_of_ok (idleHeap_removeBlocked s g) ?_
  rw [wp_bind, wp_modifyG, wp_pure]
  exact Function.update_self ..

omit [Layout] in
theorem storeWord_zero {k : Kernel Heap} (h : k.g.int s = 0) :
    wp (storeWord a 0) (fun _ k => k.g.int s = 0) (fun _ k => k.g.int s = 0) k := by
  unfold storeWord
  by_cases hal : a &&& 3 = 0
  · simp only [hal, ne_eq, not_true_eq_false, if_false]
    cases SubDev.all.find? fun d => d.commandAddr = a with
    | some d => exact h
    | none =>
      change Function.update k.g.int a 0 s = 0
      rw [Function.update_apply, h, ite_self]
  · simp only [hal, ne_eq, not_false_eq_true, if_true, wp_bind, wp_throw]
    exact h

/-- A `do_io` that comes as far as the P takes a semaphore that is 1. -/
theorem doIo_takes {g : Globals} (h0 : a ≠ 0) (hn : a ≠ NULL) (hsem : doIoSem g.junk a = s)
    (hs : s &&& 3 = 0) (h1 : g.int s = 1) :
    wp (doIo a 0 : KM Heap EhAct) (fun _ k => k.g.int s = 0) (fun _ k => k.g.int s = 0)
      ⟨idleHeap, g⟩ := by
  rw [doIo, if_neg fun h' => h'.elim h0 hn, wp_bind, wp_getG, hsem, wp_bind, wp_discard]
  refine wp_mono (fun _ k hk => ?_) (fun _ _ hf => hf.elim) (passeren_one hs h1)
  rw [wp_bind]
  exact wp_mono (fun _ _ h => h) (fun _ _ h => h) (storeWord_zero hk)

theorem NoEffect.state (h : NoEffect a) {v : Word} {k : Kernel Heap}
    {Q : EhAct → Kernel Heap → Prop} {E : Exit → Kernel Heap → Prop}
    (hw : wp (doIo a v) Q E k) : (∃ r, Q r k) ∨ ∃ e, E e k := by
  obtain ⟨r, hr⟩ | ⟨e, he⟩ := h v k
  · rw [wp, hr] at hw
    exact .inl ⟨r, hw⟩
  · rw [wp, he] at hw
    exact .inr ⟨_, hw⟩

/-- `do_io` does nothing only for the addresses 0 and `NULL`. -/
theorem noEffect_iff (a : Word) : NoEffect a ↔ a = 0 ∨ a = NULL := by
  constructor
  · intro h
    by_contra hne
    obtain ⟨h0, hn⟩ := not_or.mp hne
    have hal : doIoSem 4 a &&& 3 = 0 := by
      rcases doIoSem_cases 4 a with ⟨d, h⟩ | ⟨-, h⟩
      · rw [h]
        exact Layout.sem_aligned _
      · rw [h]
        decide
    have hw := doIo_takes (g := { sampleGlobals with junk := 4, int := fun _ => 1 }) h0 hn rfl hal
      rfl
    have hone : (1 : Word) ≠ 0 := by decide
    rcases h.state hw with ⟨-, hz⟩ | ⟨-, hz⟩ <;> exact hone hz
  · intro h v k
    refine .inr ⟨.doIoNull, ?_⟩
    rw [doIo, if_pos h]
    rfl

/-- The decoding of an address is exact if and only if the address is in the register block of a
    device, or is one that `do_io` rejects. -/
theorem decodes_iff (a : Word) :
    Decodes a ↔ (∃ line no, InBlock line no a) ∨ a = 0 ∨ a = NULL := by
  constructor
  · intro h
    by_cases hb : ∃ line no, InBlock line no a
    · exact .inl hb
    · exact .inr ((noEffect_iff a).mp (h.outside fun line no hc => hb ⟨line, no, hc⟩))
  · intro h
    refine ⟨fun line no hb => ⟨_, usesSem_dtp hb, serves_semAddr _⟩, ?_, ?_, fun hout => ?_⟩
    · rintro no rfl
      exact ⟨_, usesSem_commandAddr _, serves_semAddr _⟩
    · rintro no rfl
      exact ⟨_, usesSem_commandAddr _, serves_semAddr _⟩
    · exact (noEffect_iff a).mpr (h.resolve_left fun ⟨line, no, hb⟩ => hout line no hb)

/-- The word before the first register block. -/
def belowBlocks : Word := DEV_REG_START - 4

omit [Layout] in
/-- After boot the first process calls DOIO with an address below the registers, and waits for
    disk 0. -/
theorem disk_operated :
    letI := sampleLayout
    ¬ Decodes belowBlocks ∧ (∀ line no, ¬ InBlock line no belowBlocks) ∧
      ∃ m', (boot sampleGlobals : Mach Heap).next
        (.exception (sysState DOIO belowBlocks 0 0) 0 (fun _ => false) 0) = some m' ∧
        m'.obs.k.lists.blocked (sampleAddresses.semAddr (.dev (.dtp 0 0))) = [0] := by
  let _ := sampleLayout
  have hplay : ((boot sampleGlobals : Mach Heap).next
      (.exception (sysState DOIO belowBlocks 0 0) 0 (fun _ => false) 0)).any fun m' =>
        m'.obs.k.lists.blocked (sampleAddresses.semAddr (.dev (.dtp 0 0))) = [0] := by
    decide +kernel
  obtain ⟨m', hm', hP⟩ := (Option.any_eq_true _ _).mp hplay
  have hout : ∀ line no, ¬ InBlock line no belowBlocks := by decide +kernel
  have hne : ¬ (belowBlocks = 0 ∨ belowBlocks = NULL) := by decide
  exact ⟨fun h => hne ((noEffect_iff _).mp (h.outside hout)), hout, m', hm', of_decide_eq_true hP⟩

end Rocm
