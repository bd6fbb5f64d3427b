import Mathlib.Data.Fintype.Pi
import Rocm.Proofs.Semaphores

/-!
# Interrupts on the abstract lists

The handler of interrupts serves a sub-device that interrupts, if it serves any, and wakes
everybody at a tick of the clock.
-/

namespace Rocm

open Prog ProcTable

/-- The most significant bit of eight. -/
theorem topBit_bits (b : Fin 8 → Bool) :
    let bitmap := (List.finRange 8).foldl (fun w no => if b no then w ||| 1#32 <<< no.val else w) 0#32
    ∃ i : Fin 8, topBit 32 bitmap 0 = i ∧ (bitmap ≠ 0 → b i) := by
  revert b
  decide +kernel

theorem topBit_bitmap (g : Globals) (line : Fin 5) : ∃ i : Fin 8,
    topBit 32 (g.bitmap line) 0 = i ∧
      (g.bitmap line ≠ 0 → (subDevs line i).any fun d => (g.dev d).intr) :=
  topBit_bits fun no => (subDevs line no).any fun d => (g.dev d).intr

variable {D : Type} {line : Fin 5} {i : Fin 8}

theorem wp_interruptingDevice {k : Kernel D} {Q : Fin 8 → Kernel D → Prop}
    {E : Exit → Kernel D → Prop} (hi : topBit 32 (k.g.bitmap line) 0 = i) :
    wp (interruptingDevice line) Q E k = Q i k := by
  rw [interruptingDevice, wp_bind, wp_getG]
  have hlt : topBit 32 (k.g.bitmap line) 0 < 8 := by rw [hi]; exact i.isLt
  simp only [dif_pos hlt, wp_pure]
  congr 1
  exact Fin.ext hi

/-- The sub-device served on a line of external devices. -/
theorem served_eq {g : Globals} {line8 : Fin 8} (h : g.servedLine = some line8)
    (h3 : 3 ≤ line8.val) (hline : line.val = line8.val - 3)
    (hi : topBit 32 (g.bitmap line) 0 = i) : g.served =
      (subDevs line i).find? fun d => line.val < 4 ∨ okCharTrans (g.dev d).status := by
  have hl : (⟨line8.val - 3, by omega⟩ : Fin 5) = line := Fin.ext hline.symm
  have hlt : topBit 32 (g.bitmap line) 0 < 8 := by rw [hi]; exact i.isLt
  have hii : (⟨topBit 32 (g.bitmap line) 0, hlt⟩ : Fin 8) = i := Fin.ext hi
  simp only [Globals.served, h, h3, dif_pos, hl, dif_pos hlt, hii, hline]

theorem VStep.dev {s : Word} {j j' : Kernel View} {p : Option PcbId} (h : VStep s j p j') :
    j'.g.dev = j.g.dev := by
  cases h <;> rfl

theorem length_blocked_le (a : Lists) (s : Word) : (a.asl.get s).length ≤ MAXPROC := by
  have := (a.blocked_nodup s).length_le_card
  rwa [Fintype.card_fin] at this

variable {k : Kernel Lists} [Layout]

/-- The result of a device interrupt and the acknowledgement, after the V. -/
theorem complete_spec {d : SubDev} {p : Option PcbId} {k' : Kernel Lists} (hint : k.g.IntTaken)
    (hs : k.g.served = some d) (hv : VStep (Layout.toAddresses.semAddr (.dev d)) k.abs p k'.abs) :
    wp (do
      deliver p (k.g.dev d).status
      acknowledge d : KM Lists PUnit)
      (fun _ k'' => Outcome k.abs .continue k''.abs) noExit k' := by
  have hout := Outcome.served (k := k.abs) hint hs hv
  cases p with
  | none => exact hout
  | some p => exact hout

theorem genericInterruptHandler_spec {line : Fin 4} {i : Fin 8} (h : KCore k.abs)
    (hint : k.g.IntTaken) (hact : ∀ p, k.g.actProc = some p → k.lists.view.Loose p)
    (hi : topBit 32 (k.g.bitmap line.castSucc) 0 = i) (hs : k.g.served = some (.dtp line i)) :
    wp (genericInterruptHandler line) (fun _ k' => Outcome k.abs .continue k'.abs) noExit k := by
  rw [genericInterruptHandler, wp_bind, wp_interruptingDevice hi]
  refine wp_seq (verhogen_spec h (Layout.sem_aligned _) hact) fun p k' hv => ?_
  have hdev : k'.g.dev = k.g.dev := hv.dev
  rw [wp_bind, wp_getG, hdev]
  exact complete_spec hint hs hv

theorem terminalInterruptHandler_spec {i : Fin 8} (h : KCore k.abs)
    (hint : k.g.IntTaken) (hl : k.g.servedLine = some 7) (hact : ∀ p, k.g.actProc = some p → k.lists.view.Loose p)
    (hi : topBit 32 (k.g.bitmap 4) 0 = i)
    (hs : k.g.served = (subDevs 4 i).find? fun d => okCharTrans (k.g.dev d).status) :
    wp terminalInterruptHandler (fun _ k' => Outcome k.abs .continue k'.abs) noExit k := by
  rw [terminalInterruptHandler, wp_bind, wp_interruptingDevice hi, wp_bind, wp_getG]
  cases hd : (subDevs 4 i).find? fun d => okCharTrans (k.g.dev d).status with
  | none => exact .unserved hint hl (by decide) (by decide) (hs.trans hd)
  | some d =>
    refine wp_seq (verhogen_spec h (Layout.sem_aligned _) hact) fun p k' hv => ?_
    exact complete_spec hint (hs.trans hd) hv

theorem handleInterrupts_spec {line : Fin 8} (h : KInv k.abs)
    (hint : k.g.IntTaken) (hit : k.g.int Layout.toAddresses.semIt = 0)
    (hact : ∀ p, k.g.actProc = some p → k.lists.view.Loose p) (hl : k.g.servedLine = some line) :
    wp (handleInterrupts line) (fun r k' => Outcome k.abs r k'.abs) noExit k := by
  rw [handleInterrupts]
  by_cases h1 : line = 1
  · rw [if_pos h1, wp_bind, wp_setTIMER, wp_pure]
    exact .slice hint (h1 ▸ hl)
  rw [if_neg h1]
  by_cases h2 : line = 2
  · rw [if_pos h2, wp_bind, wp_LDIT, wp_bind]
    have htick := tickLoop_spec (k := ⟨k.lists, { k.g with intervalTimer := PSECOND }⟩) _
      (h.congr (.of_pcb rfl) rfl rfl) hit hact rfl
      (Nat.add_le_add_right (length_blocked_le _ _) 2)
    refine wp_mono (fun _ k' hk' => ?_) (fun _ _ hf => hf) htick
    have htick : k.abs.tick = k'.abs.mapG (·.setInt Layout.toAddresses.semIt 0) := by
      rw [hk']; rfl
    have hout := Outcome.tick (k := k.abs) hint (h2 ▸ hl)
    rw [htick] at hout
    exact hout
  rw [if_neg h2]
  by_cases h0 : line = 0
  · rw [if_pos h0, wp_pure]
    refine .unserved hint hl h1 h2 ?_
    have hl' : k.abs.g.servedLine = some 0 := h0 ▸ hl
    simp [Globals.served, hl']
  rw [if_neg h0]
  have h3 : 3 ≤ line.val := by
    have : line.val ≠ 0 := fun e => h0 (Fin.ext e)
    have : line.val ≠ 1 := fun e => h1 (Fin.ext e)
    have : line.val ≠ 2 := fun e => h2 (Fin.ext e)
    omega
  by_cases h7 : line.val < 7
  · obtain ⟨i, hi, -⟩ := topBit_bitmap k.g (⟨line.val - 3, by omega⟩ : Fin 4).castSucc
    have hs := served_eq hl h3 rfl hi
    have hlt : line.val - 3 < 4 := by omega
    rw [dif_pos h7, wp_bind]
    refine genericInterruptHandler_spec h.toKCore hint hact hi (hs.trans ?_)
    simp [subDevs, hlt]
  · obtain ⟨i, hi, -⟩ := topBit_bitmap k.g 4
    have h7' : line = 7 := by have := line.isLt; exact Fin.ext (by change line.val = 7; omega)
    have hs := served_eq hl h3 (by rw [h7']; rfl) hi
    rw [dif_neg h7, wp_bind]
    refine terminalInterruptHandler_spec h.toKCore hint (h7' ▸ hl) hact hi (hs.trans ?_)
    simp

end Rocm
