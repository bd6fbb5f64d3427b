import Mathlib.Data.List.Basic
import Mathlib.Data.Bool.Basic
import Mathlib.Logic.Function.Basic

/-!
# Binary semaphores whose V can block

A semaphore is up or down and has one queue. A P blocks while it is down and a V while it is up;
an operation that does not block wakes the first in the queue or, if there is none, flips the
semaphore. Those in the queue can vanish.

A `History` is kept by looking at the queue after each step, so it can be kept for any
implementation; `Law` is what it satisfies.
-/

namespace Semaphore

inductive Op where
  | passeren
  | verhogen
  deriving DecidableEq

/-- Whether the semaphore is up when the operation blocks. -/
def Op.blocksAt : Op → Bool
  | .passeren => false
  | .verhogen => true

/-- An operation that has blocked. The tickets count the blocked operations in their order. -/
structure Pending (α : Type) where
  ticket : Nat
  who : α
  op : Op

/-- What has happened on a semaphore. -/
structure History (α : Type) where
  /-- How many operations have blocked. -/
  tickets : Nat
  /-- Those that are still blocked. -/
  pending : List (Pending α)
  /-- Those that have been woken, in this order. -/
  woken : List (Pending α)
  /-- How many operations are complete. -/
  completed : Op → Nat

/-- Nothing has happened. -/
def History.empty {α : Type} : History α := ⟨0, [], [], fun _ => 0⟩

variable {α : Type} [DecidableEq α]

/-- The operations that a step has woken: whoever has left the queue and is not dead. -/
def History.wakes (h : History α) (queue : List α) (dead : α → Bool) : List (Pending α) :=
  h.pending.filter fun x => x.who ∉ queue ∧ ¬ dead x.who

/-- The history after a step that leaves `queue` and the dead; `call` is the operation that was
    called. -/
def History.observe (h : History α) (queue : List α) (dead : α → Bool)
    (call : Option (α × Op)) : History α :=
  let wakes := h.wakes queue dead
  let stay := h.pending.filter (·.who ∈ queue)
  let completed op := h.completed op + wakes.countP (·.op = op)
  match call with
  | none => ⟨h.tickets, stay, h.woken ++ wakes, completed⟩
  | some (a, op) =>
    if a ∈ queue then ⟨h.tickets + 1, stay ++ [⟨h.tickets, a, op⟩], h.woken ++ wakes, completed⟩
    else ⟨h.tickets, stay, h.woken ++ wakes, Function.update completed op (completed op + 1)⟩

/-- A semaphore and the queue of those who are blocked on it. -/
structure State (α : Type) where
  up : Bool
  queue : List α

/-- A step, after which those of `dead` are dead. -/
inductive Step (dead : α → Bool) (s : State α) : Option (α × Op) → State α → Prop where
  | vanish : Step dead s none ⟨s.up, s.queue.filter fun a => ¬ dead a⟩
  | block {a op} : s.up = op.blocksAt → Step dead s (some (a, op)) ⟨s.up, s.queue ++ [a]⟩
  | wake {a op w ws} : s.up ≠ op.blocksAt → s.queue = w :: ws → ¬ dead w →
      Step dead s (some (a, op)) ⟨s.up, ws⟩
  | pass {a op} : s.up ≠ op.blocksAt → s.queue = [] →
      Step dead s (some (a, op)) ⟨op.blocksAt, []⟩

/-- The state after `a` has called an operation, all being alive. -/
def State.call (s : State α) (a : α) (op : Op) : State α :=
  if s.up = op.blocksAt then ⟨s.up, s.queue ++ [a]⟩
  else match s.queue with
    | _ :: ws => ⟨s.up, ws⟩
    | [] => ⟨op.blocksAt, []⟩

/-- The law of a semaphore that was initialised to `v`. -/
structure Law (v : Bool) (s : State α) (h : History α) : Prop where
  /-- The value counts the operations that are complete. -/
  count : s.up.toNat + h.completed .passeren = v.toNat + h.completed .verhogen
  /-- The queue is that of the blocked operations, in the order in which they blocked. -/
  queue : h.pending.map (·.who) = s.queue
  /-- While the semaphore is down all of them are P, while it is up all are V. -/
  kind : ∀ x ∈ h.pending, x.op.blocksAt = s.up
  /-- They complete in the order in which they blocked. -/
  order : ((h.woken ++ h.pending).map (·.ticket)).Pairwise (· < ·)
  fresh : ∀ x ∈ h.woken ++ h.pending, x.ticket < h.tickets

variable {v : Bool} {s s' : State α} {h : History α} {dead : α → Bool}

omit [DecidableEq α] in
theorem Law.start (hq : s.queue = []) : Law s.up s .empty :=
  ⟨rfl, hq.symm, by simp [History.empty], by simp [History.empty], by simp [History.empty]⟩

/-- Nobody is woken when whoever leaves the queue is dead. -/
theorem History.wakes_nil {queue : List α} (hq : ∀ x ∈ h.pending, x.who ∈ queue ∨ dead x.who) :
    h.wakes queue dead = [] :=
  List.filter_eq_nil_iff.mpr fun x hx => by simpa [Decidable.imp_iff_not_or] using hq x hx

/-- Those who stay are those of the old queue that are in the new one. -/
theorem Law.map_stay (hl : Law v s h) (queue : List α) :
    (h.pending.filter (·.who ∈ queue)).map (·.who) = s.queue.filter (· ∈ queue) := by
  rw [← hl.queue, List.filter_map]
  rfl

omit [DecidableEq α] in
theorem Law.mem_queue (hl : Law v s h) {x : Pending α} (hx : x ∈ h.pending) : x.who ∈ s.queue := by
  rw [← hl.queue]
  exact List.mem_map_of_mem hx

/-- The queue loses some of its members to death. -/
theorem Law.vanish (hl : Law v s h) :
    Law v ⟨s.up, s.queue.filter fun a => ¬ dead a⟩
      (h.observe (s.queue.filter fun a => ¬ dead a) dead none) := by
  have hwakes : h.wakes (s.queue.filter fun a => ¬ dead a) dead = [] := by
    refine History.wakes_nil fun x hx => ?_
    have := hl.mem_queue hx
    by_cases hd : dead x.who <;> simp [this, hd]
  have hsub : (h.pending.filter (·.who ∈ s.queue.filter fun a => ¬ dead a)).Sublist h.pending :=
    List.filter_sublist
  simp only [History.observe, hwakes, List.append_nil, List.countP_nil, Nat.add_zero]
  refine ⟨hl.count, ?_, fun x hx => hl.kind x (hsub.subset hx), ?_, fun x hx => ?_⟩
  · refine (hl.map_stay _).trans (List.filter_congr fun a ha => ?_)
    simp [ha]
  · exact hl.order.sublist (((List.Sublist.refl _).append hsub).map _)
  · exact hl.fresh x (((List.Sublist.refl _).append hsub).subset hx)

/-- An operation blocks. -/
theorem Law.block (hl : Law v s h) {a : α} {op : Op} (hop : s.up = op.blocksAt) :
    Law v ⟨s.up, s.queue ++ [a]⟩ (h.observe (s.queue ++ [a]) dead (some (a, op))) := by
  have hin : ∀ x ∈ h.pending, x.who ∈ s.queue ++ [a] := fun x hx =>
    List.mem_append_left _ (hl.mem_queue hx)
  have hwakes : h.wakes (s.queue ++ [a]) dead = [] := History.wakes_nil fun x hx => .inl (hin x hx)
  have hstay : h.pending.filter (·.who ∈ s.queue ++ [a]) = h.pending :=
    List.filter_eq_self.mpr fun x hx => by simpa using hin x hx
  have ha : a ∈ s.queue ++ [a] := List.mem_append_right _ (List.mem_singleton_self a)
  simp only [History.observe, hwakes, hstay, if_pos ha, List.append_nil, List.countP_nil,
    Nat.add_zero]
  refine ⟨hl.count, by simp [hl.queue], fun x hx => ?_, ?_, fun x hx => ?_⟩
  · rcases List.mem_append.mp hx with hx | hx
    · exact hl.kind x hx
    · rw [List.mem_singleton.mp hx]
      exact hop.symm
  · rw [← List.append_assoc, List.map_append, List.pairwise_append]
    refine ⟨hl.order, List.pairwise_singleton _ _, ?_⟩
    intro t ht t' ht'
    obtain ⟨x, hx, rfl⟩ := List.mem_map.mp ht
    rw [List.mem_singleton.mp ht']
    exact hl.fresh x hx
  · rw [← List.append_assoc] at hx
    rcases List.mem_append.mp hx with hx | hx
    · exact Nat.lt_succ_of_lt (hl.fresh x hx)
    · rw [List.mem_singleton.mp hx]
      exact Nat.lt_succ_self _

/-- An operation completes and wakes the first in the queue, whose operation is the other one. -/
theorem Law.wake (hl : Law v s h) (hn : s.queue.Nodup) {a w : α} {ws : List α} {op : Op}
    (ha : a ∉ s.queue) (hop : s.up ≠ op.blocksAt) (hq : s.queue = w :: ws) (hd : ¬ dead w) :
    Law v ⟨s.up, ws⟩ (h.observe ws dead (some (a, op))) := by
  obtain ⟨x, xs, hpend⟩ : ∃ x xs, h.pending = x :: xs := by
    cases hp : h.pending with
    | nil => have := hl.queue; rw [hp, hq] at this; cases this
    | cons x xs => exact ⟨x, xs, rfl⟩
  have hmap := hl.queue
  rw [hpend, hq, List.map_cons, List.cons.injEq] at hmap
  obtain ⟨hx, hxs⟩ := hmap
  rw [hq, List.nodup_cons] at hn
  have hin : ∀ y ∈ xs, y.who ∈ ws := fun y hy => hxs ▸ List.mem_map_of_mem hy
  have hwakes : h.wakes ws dead = [x] := by
    rw [History.wakes, hpend, List.filter_cons_of_pos (by simp [hx, hn.1, hd])]
    rw [List.filter_eq_nil_iff.mpr fun y hy => by simp [hin y hy]]
  have hstay : h.pending.filter (·.who ∈ ws) = xs := by
    rw [hpend, List.filter_cons_of_neg (by simp [hx, hn.1])]
    exact List.filter_eq_self.mpr fun y hy => by simpa using hin y hy
  have haws : a ∉ ws := fun hm => ha (by rw [hq]; exact List.mem_cons_of_mem _ hm)
  have hkind := hl.kind x (by rw [hpend]; exact List.mem_cons_self)
  simp only [History.observe, hwakes, hstay, if_neg haws]
  refine ⟨?_, hxs, fun y hy => hl.kind y ?_, ?_, fun y hy => hl.fresh y ?_⟩
  · have hcount := hl.count
    have hother : x.op ≠ op := fun e => hop (by rw [← hkind, e])
    cases op <;> cases ho : x.op <;> simp [ho] at hother ⊢ <;> omega
  · rw [hpend]
    exact List.mem_cons_of_mem _ hy
  · have := hl.order
    rw [hpend] at this
    simpa using this
  · rw [hpend]
    simpa using hy

/-- An operation completes on an empty queue. -/
theorem Law.pass (hl : Law v s h) {a : α} {op : Op} (hop : s.up ≠ op.blocksAt)
    (hq : s.queue = []) :
    Law v ⟨op.blocksAt, []⟩ (h.observe [] dead (some (a, op))) := by
  have hpend : h.pending = [] := by
    have := hl.queue
    rwa [hq, List.map_eq_nil_iff] at this
  have hcount := hl.count
  simp only [History.observe, History.wakes, hpend, List.filter_nil, List.append_nil,
    List.countP_nil, Nat.add_zero, List.not_mem_nil, if_false]
  refine ⟨?_, rfl, by simp, ?_, fun x hx => hl.fresh x ?_⟩
  · revert hop hcount
    cases op <;> cases s.up <;> simp [Op.blocksAt] <;> omega
  · have := hl.order
    rw [hpend] at this
    exact this
  · exact List.mem_append_left _ (by simpa using hx)

/-- Every step keeps the law. -/
theorem Law.step (hl : Law v s h) (hn : s.queue.Nodup) {call : Option (α × Op)}
    (hc : ∀ a op, call = some (a, op) → a ∉ s.queue) (hs : Step dead s call s') :
    Law v s' (h.observe s'.queue dead call) := by
  cases hs with
  | vanish => exact hl.vanish
  | block hop => exact hl.block hop
  | wake hop hq hd => exact hl.wake hn (hc _ _ rfl) hop hq hd
  | pass hop hq => exact hl.pass hop hq

/-- A step wakes at most one. -/
theorem Law.wakes_le (hl : Law v s h) {call : Option (α × Op)}
    (hs : Step dead s call s') : (h.wakes s'.queue dead).length ≤ 1 := by
  have hlen : (h.wakes s'.queue dead).length =
      (s.queue.filter fun a => a ∉ s'.queue ∧ ¬ dead a).length := by
    rw [← hl.queue, List.filter_map, List.length_map]
    rfl
  rw [hlen]
  cases hs with
  | vanish =>
    rw [List.filter_eq_nil_iff.mpr fun a ha => by simp [ha]]
    exact Nat.zero_le _
  | block =>
    rw [List.filter_eq_nil_iff.mpr fun a ha => by simp [ha]]
    exact Nat.zero_le _
  | @wake a op w ws _ hq =>
    rw [hq]
    change _ ≤ [w].length
    refine List.Sublist.length_le ?_
    rw [List.filter_cons]
    have hnil : (ws.filter fun a => decide (a ∉ ws ∧ ¬ dead a)) = [] :=
      List.filter_eq_nil_iff.mpr fun a ha => by simp [ha]
    split
    · rw [hnil]
    · rw [hnil]
      exact List.nil_sublist _
  | pass _ hq =>
    rw [hq]
    exact Nat.zero_le _

end Semaphore
