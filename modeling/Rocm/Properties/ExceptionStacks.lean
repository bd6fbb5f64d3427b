import Rocm.Support.Memory

/-!
# The stacks of the support level

`instantiator_proc` counts its processes from 1. It sets up process `i` in `tp_supps[i - 1]`, but
takes the stacks for its handlers from `tp_supps[i]`. The addresses are those of the objects in
memory, which do not wrap.
-/

namespace Rocm

/-! ## The layout of `support_t` -/

/-- The elements of `sup_stackTLB` and `sup_stackGen` (`pandos_types.h:36-37`). -/
abbrev STACK_WORDS : Nat := 500

/-- The sizes of `state_t`, `context_t` and `pteEntry_t`. -/
def sizeofState : Nat := 4 * (6 + 29)
def sizeofContext : Nat := 4 * 3
def sizeofPteEntry : Nat := 4 * 2

/-- The offset of the stack for a kind of exception: `sup_stackTLB` or `sup_stackGen`
    (`pandos_types.h:31-37`). -/
def stackOffset (k : Fin 2) : Nat :=
  4 + 2 * sizeofState + 2 * sizeofContext + USERPGTBLSIZE * sizeofPteEntry + k * (4 * STACK_WORDS)

/-- `sizeof(support_t)`. -/
def sizeofSupport : Nat := stackOffset 0 + 2 * (4 * STACK_WORDS)

/-- `&tp_supps[j]`, where `tp_supps` is at `base`. -/
def suppAddr (base j : Nat) : Nat := base + j * sizeofSupport

/-- The address of an element of the stack of `tp_supps[j]` for a kind of exception. -/
def stackElem (base j : Nat) (k : Fin 2) (e : Nat) : Nat := suppAddr base j + stackOffset k + 4 * e

/-- The bytes of the stack of `tp_supps[j]`. -/
def InStack (base j : Nat) (k : Fin 2) (a : Nat) : Prop :=
  stackElem base j k 0 ≤ a ∧ a < stackElem base j k STACK_WORDS

/-- The bytes of `tp_supps[j]`. -/
def InSupport (base j a : Nat) : Prop := suppAddr base j ≤ a ∧ a < suppAddr base (j + 1)

/-! ## The stack pointers -/

/-- The `stackPtr` of the contexts, by the index in `tp_supps` and the kind of exception. -/
abbrev StackPtrs := Nat → Fin 2 → Nat

/-- A round of the loop of `instantiator_proc` (`init_proc.c:69-73`). -/
def setStackPtrs (base : Nat) (ptrs : StackPtrs) (i : Nat) : StackPtrs :=
  Function.update ptrs (i - 1) fun k => stackElem base i k (STACK_WORDS - 1)

/-- The loop of `instantiator_proc` over `i` from 1 to `n` (`init_proc.c:41-76`). -/
def instantiatorStackPtrs (base n : Nat) (ptrs : StackPtrs) : StackPtrs :=
  (List.range' 1 n).foldl (setStackPtrs base) ptrs

/-- What is written when `depth` words are pushed from `sp` down. -/
def Pushed (sp depth a : Nat) : Prop := ∃ d < depth, sp - 4 * d ≤ a ∧ a < sp - 4 * d + 4

/-- The handlers of process `i` of `n` push to the stacks of that process only. -/
structure StacksOwned (base n : Nat) (ptrs : StackPtrs) (i : Nat) : Prop where
  inside : ∀ k depth, depth ≤ STACK_WORDS → ∀ a, Pushed (ptrs (i - 1) k) depth a →
    InStack base (i - 1) k a
  /-- The stacks of different processes and kinds are disjoint. -/
  disjoint : ∀ j, 1 ≤ j → j ≤ n → ∀ k k', (i, k) ≠ (j, k') → ∀ a,
    Pushed (ptrs (i - 1) k) STACK_WORDS a → ¬ Pushed (ptrs (j - 1) k') STACK_WORDS a
  /-- Nothing outside `tp_supps` is written. -/
  table : ∀ k a, Pushed (ptrs (i - 1) k) STACK_WORDS a → ∃ j < n, InSupport base j a

/-- After the loop the stack pointers of process `i` lead into `tp_supps[i]`. -/
theorem instantiatorStackPtrs_eq (base : Nat) (ptrs : StackPtrs) {n i : Nat} (hi : 1 ≤ i)
    (hn : i ≤ n) (k : Fin 2) :
    instantiatorStackPtrs base n ptrs (i - 1) k = stackElem base i k (STACK_WORDS - 1) := by
  induction n with
  | zero => omega
  | succ n ih =>
    have hsplit : instantiatorStackPtrs base (n + 1) ptrs =
        setStackPtrs base (instantiatorStackPtrs base n ptrs) (n + 1) := by
      rw [instantiatorStackPtrs, List.range'_1_concat, List.foldl_append]
      rw [show 1 + n = n + 1 from Nat.add_comm 1 n]
      rfl
    rw [hsplit, setStackPtrs]
    by_cases h : i = n + 1
    · subst h
      rw [Function.update_self]
    · rw [Function.update_of_ne (by omega)]
      exact ih (by omega)

/-- What a handler of process `i` pushes is in the stack of `tp_supps[i]`. -/
theorem pushed_next {base i a depth : Nat} {k : Fin 2} (hd : depth ≤ STACK_WORDS)
    (h : Pushed (stackElem base i k (STACK_WORDS - 1)) depth a) : InStack base i k a := by
  obtain ⟨d, hd', hlow, hhigh⟩ := h
  unfold InStack stackElem at *
  omega

/-- The stacks lie one after the other inside the structure. -/
theorem InStack.inSupport {base j a : Nat} {k : Fin 2} (h : InStack base j k a) :
    InSupport base j a := by
  obtain ⟨hlow, hhigh⟩ := h
  have hk : k.val ≤ 1 := Nat.le_of_lt_succ k.isLt
  have hoff : stackOffset k + 4 * STACK_WORDS ≤ sizeofSupport := by
    have hstacks : k * (4 * STACK_WORDS) ≤ 1 * (4 * STACK_WORDS) := Nat.mul_le_mul_right _ hk
    unfold sizeofSupport stackOffset
    rw [Fin.val_zero, Nat.zero_mul, Nat.one_mul] at *
    omega
  have hnext : suppAddr base (j + 1) = suppAddr base j + sizeofSupport := by
    unfold suppAddr
    rw [Nat.add_mul, Nat.one_mul, Nat.add_assoc]
  unfold stackElem at hlow hhigh
  exact ⟨by omega, by omega⟩

/-- An address is in one structure only. -/
theorem InSupport.unique {base j j' a : Nat} (h : InSupport base j a) (h' : InSupport base j' a) :
    j = j' := by
  have hmono : ∀ {i i'}, i < i' → suppAddr base (i + 1) ≤ suppAddr base i' := fun hi =>
    Nat.add_le_add_left (Nat.mul_le_mul_right _ hi) _
  rcases Nat.lt_trichotomy j j' with hlt | heq | hlt
  · exact absurd (Nat.lt_of_lt_of_le h.2 (Nat.le_trans (hmono hlt) h'.1)) (Nat.lt_irrefl _)
  · exact heq
  · exact absurd (Nat.lt_of_lt_of_le h'.2 (Nat.le_trans (hmono hlt) h.1)) (Nat.lt_irrefl _)

/-- Whatever the handlers of process `i` push is in `tp_supps[i]`, the structure of the next process
    or, for the last one, past the end of `tp_supps`. -/
theorem pushed_inSupport {base n i depth a : Nat} {ptrs : StackPtrs} {k : Fin 2} (hi : 1 ≤ i)
    (hn : i ≤ n) (hd : depth ≤ STACK_WORDS)
    (h : Pushed (instantiatorStackPtrs base n ptrs (i - 1) k) depth a) : InSupport base i a := by
  rw [instantiatorStackPtrs_eq base ptrs hi hn k] at h
  exact (pushed_next hd h).inSupport

/-- No process of any number of processes has its stacks in its own support structure: no word that
    its handlers push is in it. -/
theorem stacks_never_owned {base n i : Nat} (ptrs : StackPtrs) (hi : 1 ≤ i) (hn : i ≤ n) :
    ¬ StacksOwned base n (instantiatorStackPtrs base n ptrs) i ∧
    ∀ k depth, depth ≤ STACK_WORDS → ∀ a,
      Pushed (instantiatorStackPtrs base n ptrs (i - 1) k) depth a → ¬ InStack base (i - 1) k a := by
  have hout : ∀ k depth, depth ≤ STACK_WORDS → ∀ a,
      Pushed (instantiatorStackPtrs base n ptrs (i - 1) k) depth a →
        ¬ InStack base (i - 1) k a := by
    intro k depth hd a h hin
    have heq := (pushed_inSupport hi hn hd h).unique hin.inSupport
    omega
  refine ⟨fun hown => ?_, hout⟩
  have hpush : Pushed (instantiatorStackPtrs base n ptrs (i - 1) 0) 1
      (instantiatorStackPtrs base n ptrs (i - 1) 0) := ⟨0, by omega, by omega, by omega⟩
  exact hout 0 1 (by decide) _ hpush (hown.inside 0 1 (by decide) _ hpush)

theorem stacks_never_owned_eight :
    ¬ StacksOwned 0x20010000 UPROCMAX (instantiatorStackPtrs 0x20010000 UPROCMAX fun _ _ => 0) 8 ∧
    ∀ k depth, depth ≤ STACK_WORDS → ∀ a,
      Pushed (instantiatorStackPtrs 0x20010000 UPROCMAX (fun _ _ => 0) (8 - 1) k) depth a →
        ¬ InStack 0x20010000 (8 - 1) k a :=
  stacks_never_owned _ (by decide) (by decide)

/-- The stacks of the last of the eight processes are outside `tp_supps`. -/
theorem last_stacks_outside :
    ¬ StacksOwned 0x20010000 UPROCMAX (instantiatorStackPtrs 0x20010000 UPROCMAX fun _ _ => 0)
      UPROCMAX := by
  intro h
  obtain ⟨j, hj, hin⟩ := h.table 0 _ ⟨0, by decide, Nat.le_refl _, Nat.lt_add_of_pos_right (by decide)⟩
  have hlast : InSupport 0x20010000 UPROCMAX
      (instantiatorStackPtrs 0x20010000 UPROCMAX (fun _ _ => 0) (UPROCMAX - 1) 0) := by
    have hpushed : Pushed (instantiatorStackPtrs 0x20010000 UPROCMAX (fun _ _ => 0) (UPROCMAX - 1) 0)
        1 (instantiatorStackPtrs 0x20010000 UPROCMAX (fun _ _ => 0) (UPROCMAX - 1) 0) :=
      ⟨0, by decide, Nat.le_refl _, Nat.lt_add_of_pos_right (by decide)⟩
    exact pushed_inSupport (by decide) (Nat.le_refl _) (by decide) hpushed
  have heq := hin.unique hlast
  omega

end Rocm
