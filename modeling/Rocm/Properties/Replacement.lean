import Rocm.Lib.Turns
import Rocm.Proofs.Pool
import Rocm.Properties.SupportSample

/-!
# The choice of a frame

The frames are filled in their order and then replaced in the same order: `choose_frame` takes a
free frame while there is one, and after that always the one that was loaded longest ago.
-/

namespace Rocm

open Runs Turns

variable [Umps]

/-- The page that a step loads, and its frame. -/
def Did.load : Did → Option (Frame × (Uproc × Page))
  | .gave _ (.act (.install p f i)) => some (f, (p, i))
  | _ => none

/-- The pages that have been loaded, the latest one last. -/
def loads (tr : List (System × UserEvent × System)) : List (Frame × (Uproc × Page)) :=
  tr.filterMap fun x => (x.1.did x.2.1).load

section Choose

variable {m : Mem} {n : ℕ}

/-- As long as the frames have been filled in their order, the next one is chosen. -/
theorem chooseFrame_eq (hfree : ∀ f, (m.spTbl f).asid = -1 ↔ n ≤ f.val)
    (htop : m.frameTop.val = (n - 1) % SP_SIZE) : m.chooseFrame = Fin.ofNat SP_SIZE n := by
  have hfind : (List.finRange SP_SIZE).find? (fun i => decide ((m.spTbl (m.frameTop + i)).asid = -1)) =
      (List.finRange SP_SIZE).find? fun i => decide (n ≤ (m.frameTop + i).val) := by
    simp only [hfree]
  unfold Mem.chooseFrame
  rw [hfind]
  rcases Nat.lt_or_ge n SP_SIZE with hn | hn
  · have hall : ∀ n top : Frame, top.val = (n.val - 1) % SP_SIZE →
        (((List.finRange SP_SIZE).find? fun i => decide (n.val ≤ (top + i).val)).elim (top + 1)
          fun i => top + i) = n := by decide +kernel
    have hval : (⟨n, hn⟩ : Frame) = Fin.ofNat SP_SIZE n := Fin.ext (Nat.mod_eq_of_lt hn).symm
    rw [← hval, ← hall ⟨n, hn⟩ m.frameTop htop]
    cases (List.finRange SP_SIZE).find? fun i => decide (n ≤ (m.frameTop + i).val) <;> rfl
  · have hnone : (List.finRange SP_SIZE).find? (fun i => decide (n ≤ (m.frameTop + i).val)) = none := by
      rw [List.find?_eq_none]
      intro i _
      have hlt := (m.frameTop + i).isLt
      simp only [decide_eq_true_eq, not_le]
      omega
    rw [hnone]
    refine Fin.ext ?_
    change (m.frameTop.val + 1) % 16 = n % 16
    have htop' : m.frameTop.val = (n - 1) % 16 := htop
    have hn' : 16 ≤ n := hn
    omega

end Choose

/-! ## Runs -/

/-- After `n` pages have been loaded: the first `n` frames are taken, the cursor is at the last one,
    and whoever works on a frame works on the next one. -/
structure Abs.Filled (n : ℕ) (a : Abs) : Prop where
  free : ∀ f, (∀ p, a.frame p ≠ some f) → ((a.mem.spTbl f).asid = -1 ↔ n ≤ f.val)
  top : (∀ p, a.frame p = none) → a.mem.frameTop.val = (n - 1) % SP_SIZE
  chosen : ∀ p f, a.frame p = some f → f = Fin.ofNat SP_SIZE n ∧ a.mem.frameTop = f

section Steps

variable {a a' : Abs} {d : Did} {ls : List (Frame × (Uproc × Page))} {f : Frame} {p : Uproc}

theorem load_of_pool (h : PoolMove a d a') :
    d.load = none ∨ ∃ p f i, d = .gave p (.act (.install p f i)) := by
  cases h with
  | choose => exact .inl rfl
  | setFree => exact .inl rfl
  | install => exact .inr ⟨_, _, _, rfl⟩
  | other _ hno =>
    left
    cases d with
    | gave q c =>
      cases c with
      | act x =>
        cases x with
        | install p f i => exact absurd rfl (hno q p f i)
        | _ => rfl
      | call => rfl
    | _ => rfl

/-- The table and the cursor after a move. -/
theorem Move.filled (h : Move a d a') (hd : a.Disciplined) {n : ℕ} (hf : a.Filled n) :
    a'.Filled (n + d.load.toList.length) := by
  cases h.pool with
  | @choose p sup _ hw ht htbl htop hframe =>
    have hnone := a.frame_eq_none_of_locked hd.toOrdered hd.guarded hw ht
    have hfree : ∀ f, (a.mem.spTbl f).asid = -1 ↔ n ≤ f.val := fun f =>
      hf.free f fun q => by rw [hnone q]; nofun
    have hchoose := chooseFrame_eq hfree (hf.top hnone)
    refine ⟨fun f _ => ?_, fun hall => ?_, fun q f hq => ?_⟩
    · rw [htbl]
      exact hfree f
    · have := hall p
      rw [hframe, Function.update_self] at this
      cases this
    · rw [hframe, Function.update_apply] at hq
      split at hq
      · obtain rfl := Option.some.inj hq
        exact ⟨hchoose, htop⟩
      · rw [hnone q] at hq
        cases hq
  | @setFree p f _ hp htbl htop hframe =>
    refine ⟨fun f' hf' => ?_, fun hall => ?_, fun q f' hq => ?_⟩
    · have hne : f' ≠ f := fun he => hf' p (by rw [hframe, he]; exact hp)
      rw [htbl]
      change (Function.update a.mem.spTbl f _ f').asid = -1 ↔ _
      rw [Function.update_of_ne hne]
      exact hf.free f' fun q => by rw [← hframe]; exact hf' q
    · rw [← hframe, hall p] at hp
      cases hp
    · rw [hframe] at hq
      rw [htop]
      exact hf.chosen q f' hq
  | @install p f i _ hp htbl htop hframe =>
    obtain ⟨hf0, htop0⟩ := hf.chosen p f hp
    have hval : f.val = n % 16 := congrArg Fin.val hf0
    have hnone : ∀ q, a'.frame q = none := fun q => by
      rw [hframe, Function.update_apply]
      split
      · rfl
      · next hq =>
        by_contra hne
        exact hq (a.frame_unique hd.toOrdered hd.guarded hne (by rw [hp]; nofun))
    refine ⟨fun f' _ => ?_, fun _ => ?_, fun q f' hq => ?_⟩
    · rw [htbl]
      change (Function.update a.mem.spTbl f _ f').asid = -1 ↔ n + 1 ≤ f'.val
      by_cases hff : f' = f
      · subst hff
        rw [Function.update_self]
        refine iff_of_false ?_ (by omega)
        rw [a.mem.sup_asid]
        exact asid_ne_free p
      · have hlt : f'.val < 16 := f'.isLt
        have hne : f'.val ≠ f.val := fun he => hff (Fin.ext he)
        have hno : ∀ q, a.frame q ≠ some f' := fun q hq => hff <| by
          obtain rfl := a.frame_unique hd.toOrdered hd.guarded (p := q) (q := p)
            (by rw [hq]; nofun) (by rw [hp]; nofun)
          exact Option.some.inj (hq.symm.trans hp)
        rw [Function.update_of_ne hff, hf.free f' hno]
        omega
    · rw [htop, htop0, hval]
      rfl
    · rw [hnone q] at hq
      cases hq
  | other hnc hni htbl htop hframe =>
    have hload : d.load = none := by
      rcases load_of_pool h.pool with h | ⟨p, f, i, rfl⟩
      · exact h
      · exact absurd rfl (hni p p f i)
    rw [hload]
    refine ⟨fun f hno => ?_, fun hall => ?_, fun q f hq => ?_⟩
    · rw [hframe] at hno
      rw [htbl]
      exact hf.free f hno
    · rw [hframe] at hall
      rw [htop]
      exact hf.top hall
    · rw [hframe] at hq
      rw [htop]
      exact hf.chosen q f hq

end Steps

variable {mem : Mem} {tr : List (System × UserEvent × System)} {m m' : System} {p : Uproc}
  {e : UserEvent}

end Rocm
