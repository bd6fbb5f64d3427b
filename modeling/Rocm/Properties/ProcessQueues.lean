import Rocm.Properties.Sample

/-!
# Process queues are sequences

On links that hold any number of disjoint lists, the functions of `pcb.c` append to a sequence,
take its first element, look at it, or take out a given one. Every list stays well formed and no
other list changes.
-/

namespace Rocm

open Ring Prog Runs

/-- The sequences that the process queues and the free list hold; the other heads need not even
    be initialised. -/
abbrev Seqs := PHead → Option (List PcbId)

/-- A call of `insert_proc_q`, `remove_proc_q`, `head_proc_q`, `out_proc_q`, `alloc_pcb` or
    `free_pcb`. -/
inductive QueueOp where
  | insert (head : PHead) (p : PcbId)
  | remove (head : PHead)
  | peek (head : PHead)
  | out (head : PHead) (p : PcbId)
  | alloc
  | free (p : PcbId)

/-- The function that is called; where it returns nothing this gives `none`. -/
def QueueOp.call : QueueOp → KM Heap (Option PcbId)
  | .insert head p => do Heap.insertProcQ head p; return none
  | .remove head => Heap.removeProcQ head
  | .peek head => Heap.headProcQ head
  | .out head p => Heap.outProcQ head p
  | .alloc => Heap.allocPcb
  | .free p => do Heap.freePcb p; return none

/-- The list that a call is about. -/
def QueueOp.list : QueueOp → PHead
  | .insert head _ | .remove head | .peek head | .out head _ => head
  | .alloc | .free _ => .pcbFreeH

/-- The list is well formed, and a PCB that is put into it is in none. -/
def QueueOp.Allowed (Q : Seqs) (op : QueueOp) : Prop :=
  (Q op.list).isSome ∧ match op with
    | .insert _ p | .free p => Absent Q p
    | _ => True

/-- What a call returns and does to the sequence of its list. -/
inductive SeqEffect (xs : List PcbId) : QueueOp → Option PcbId → List PcbId → Prop where
  | insert {head p} : SeqEffect xs (.insert head p) none (xs ++ [p])
  | remove {head} : SeqEffect xs (.remove head) xs.head? xs.tail
  | peek {head} : SeqEffect xs (.peek head) xs.head? xs
  | out {head p} : p ∈ xs → SeqEffect xs (.out head p) (some p) (xs.erase p)
  | notIn {head p} : p ∉ xs → SeqEffect xs (.out head p) none xs
  | alloc : SeqEffect xs .alloc xs.head? xs.tail
  | free {p} : SeqEffect xs (.free p) none (p :: xs)

/-- The call takes a PCB out of its list. -/
def QueueOp.TakesOut : QueueOp → Prop
  | .remove _ | .out _ _ | .alloc => True
  | _ => False

/-- The call returns `r` and leaves the sequences `Q'`, which differ from `Q` in the list it is
    about; what it has taken out is linked to itself. -/
structure QueueStep (Q : Seqs) (op : QueueOp) (k : Kernel Heap) (r : Option PcbId)
    (k' : Kernel Heap) (Q' : Seqs) : Prop where
  returns : op.call k = .ok r k'
  effect : ∃ xs ys, Q op.list = some xs ∧ SeqEffect xs op r ys ∧
    Q' = Function.update Q op.list (some ys)
  family : Family k'.lists.procs Q'
  alone : op.TakesOut → ∀ p, r = some p → IsRing k'.lists.procs (.elem p) []

variable {Q : Seqs} {k : Kernel Heap} {op : QueueOp} {xs : List PcbId}

/-- A step of a call with this effect, from what the call is specified to do. -/
theorem QueueStep.of_wp (hQ : Q op.list = some xs) (h : wp op.call (fun r k' => ∃ ys,
      SeqEffect xs op r ys ∧ Family k'.lists.procs (Function.update Q op.list (some ys)) ∧
      (op.TakesOut → ∀ p, r = some p → IsRing k'.lists.procs (.elem p) [])) noExit k) :
    ∃ r k' Q', QueueStep Q op k r k' Q' := by
  rcases wp_elim h with ⟨r, k', hcall, ys, heffect, hfam, halone⟩ | ⟨_, _, _, hfalse⟩
  · exact ⟨r, k', _, hcall, ⟨xs, ys, hQ, heffect, rfl⟩, hfam, halone⟩
  · exact hfalse.elim

/-- A call that leaves the sequence as it is. -/
theorem family_same (hf : Family k.lists.procs Q) {h : PHead} (hQ : Q h = some xs) :
    Family k.lists.procs (Function.update Q h (some xs)) := by
  rwa [← hQ, Function.update_eq_self]

theorem insert_step (hf : Family k.lists.procs Q) {head : PHead} {p : PcbId}
    (hQ : Q head = some xs) (hp : Absent Q p) : ∃ r k' Q', QueueStep Q (.insert head p) k r k' Q' := by
  refine QueueStep.of_wp hQ ?_
  rw [QueueOp.call, wp_bind]
  refine wp_mono (fun _ k' h => ?_) (fun _ _ h => h) (Heap.insertProcQ_spec hf hQ hp)
  exact ⟨_, .insert, h.family, False.elim⟩

theorem remove_step (hf : Family k.lists.procs Q) {head : PHead} (hQ : Q head = some xs) :
    ∃ r k' Q', QueueStep Q (.remove head) k r k' Q' := by
  refine QueueStep.of_wp hQ (wp_mono (fun r k' ⟨hr, hnil, hcons⟩ => ?_) (fun _ _ h => h)
    (Heap.removeProcQ_spec hf hQ))
  subst hr
  refine ⟨_, .remove, ?_⟩
  cases xs with
  | nil =>
    rw [hnil rfl]
    exact ⟨family_same hf hQ, fun _ p hp => by cases hp⟩
  | cons p ps =>
    have hout := hcons p ps rfl
    exact ⟨hout.family, fun _ q hq => by cases hq; exact hout.alone⟩

theorem peek_step (hf : Family k.lists.procs Q) {head : PHead} (hQ : Q head = some xs) :
    ∃ r k' Q', QueueStep Q (.peek head) k r k' Q' := by
  refine QueueStep.of_wp hQ ?_
  rw [QueueOp.call, Heap.headProcQ_spec hf hQ]
  exact ⟨_, .peek, family_same hf hQ, False.elim⟩

theorem out_step (hf : Family k.lists.procs Q) {head : PHead} {p : PcbId}
    (hQ : Q head = some xs) : ∃ r k' Q', QueueStep Q (.out head p) k r k' Q' := by
  refine QueueStep.of_wp hQ (wp_mono (fun r k' h => ?_) (fun _ _ h => h) (Heap.outProcQ_spec hf hQ))
  by_cases hp : p ∈ xs
  · rw [if_pos hp] at h
    obtain ⟨rfl, hout⟩ := h
    exact ⟨_, .out hp, hout.family, fun _ q hq => by cases hq; exact hout.alone⟩
  · rw [if_neg hp] at h
    obtain ⟨rfl, rfl⟩ := h
    exact ⟨_, .notIn hp, family_same hf hQ, fun _ q hq => by cases hq⟩

theorem alloc_step (hf : Family k.lists.procs Q) (hQ : Q .pcbFreeH = some xs) :
    ∃ r k' Q', QueueStep Q .alloc k r k' Q' := by
  refine QueueStep.of_wp hQ (wp_mono (fun r k' ⟨hr, hnil, hcons⟩ => ?_) (fun _ _ h => h)
    (Heap.allocPcb_links hf hQ))
  subst hr
  refine ⟨_, .alloc, ?_⟩
  cases xs with
  | nil =>
    rw [hnil rfl]
    exact ⟨family_same hf hQ, fun _ p hp => by cases hp⟩
  | cons p ps =>
    obtain ⟨lp, rfl, hfam, halone, -⟩ := hcons p ps rfl
    exact ⟨hfam, fun _ q hq => by cases hq; exact halone⟩

theorem free_step (hf : Family k.lists.procs Q) {p : PcbId} (hQ : Q .pcbFreeH = some xs)
    (hp : Absent Q p) : ∃ r k' Q', QueueStep Q (.free p) k r k' Q' := by
  refine QueueStep.of_wp hQ ?_
  rw [QueueOp.call, wp_bind]
  refine wp_mono (fun _ k' ⟨_, h⟩ => ?_) (fun _ _ h => h) (Heap.freePcb_spec hf hQ hp)
  exact ⟨_, .free, h.family, False.elim⟩

/-- Every call that is allowed returns and acts on the sequence of its list. -/
theorem QueueOp.step (hf : Family k.lists.procs Q) (hop : op.Allowed Q) :
    ∃ r k' Q', QueueStep Q op k r k' Q' := by
  obtain ⟨hsome, habs⟩ := hop
  obtain ⟨xs, hQ⟩ := Option.isSome_iff_exists.mp hsome
  cases op with
  | insert head p => exact insert_step hf hQ habs
  | remove head => exact remove_step hf hQ
  | peek head => exact peek_step hf hQ
  | out head p => exact out_step hf hQ
  | alloc => exact alloc_step hf hQ
  | free p => exact free_step hf hQ habs

/-- A call in a heap and the sequences that it holds. -/
def QueueRun (s : Kernel Heap × Seqs) (e : QueueOp × Option PcbId) (t : Kernel Heap × Seqs) :
    Prop :=
  e.1.Allowed s.2 ∧ QueueStep s.2 e.1 s.1 e.2 t.1 t.2

/-- From any heap in which the process queues are well formed, and after any calls, every further
    call acts on the sequence of its list and keeps every list well formed. -/
theorem queues_are_sequences (hf : Family k.lists.procs Q) {tr} {k' : Kernel Heap} {Q' : Seqs}
    (hrun : Run QueueRun (k, Q) tr (k', Q')) {op : QueueOp} (hop : op.Allowed Q') :
    Family k'.lists.procs Q' ∧ ∃ r k'' Q'', QueueStep Q' op k' r k'' Q'' := by
  have hf' : Family k'.lists.procs Q' :=
    hrun.invariant (I := fun s => Family s.1.lists.procs s.2) hf fun _ hs => hs.2.family
  exact ⟨hf', op.step hf' hop⟩

/-- `insert_proc_q` on the only list that is initialised. -/
theorem exists_run_insert {start : Kernel Heap × Seqs} {tr} {head : PHead}
    (hrun : Run QueueRun start tr (k, Function.update (fun _ => none) head (some xs)))
    (hf : Family k.lists.procs (Function.update (fun _ => none) head (some xs))) {p : PcbId}
    (hp : p ∉ xs) : ∃ tr' k',
      Run QueueRun start tr' (k', Function.update (fun _ => none) head (some (xs ++ [p]))) ∧
      Family k'.lists.procs (Function.update (fun _ => none) head (some (xs ++ [p]))) := by
  have hQ : Function.update (fun _ => none : Seqs) head (some xs) head = some xs :=
    Function.update_self ..
  have habs : Absent (Function.update (fun _ => none : Seqs) head (some xs)) p :=
    absent_update (fun _ _ h => by simp at h) hp
  have hop : (QueueOp.insert head p).Allowed (Function.update (fun _ => none) head (some xs)) :=
    ⟨Option.isSome_of_eq_some hQ, habs⟩
  obtain ⟨r, k', Q', hs⟩ := QueueOp.step hf hop
  obtain ⟨xs', ys, hxs, heff, rfl⟩ := hs.effect
  obtain rfl := Option.some.inj (hQ.symm.trans hxs)
  cases heff with
  | insert =>
    rw [QueueOp.list, Function.update_idem] at hs
    exact ⟨_, k', hrun.snoc (e := (.insert head p, none)) ⟨hop, hs⟩, hs.family⟩

/-- Three PCBs are inserted into a queue, and `out_proc_q` takes out the second one. -/
theorem queues_are_sequences_middle : ∃ (start k k' : Kernel Heap) (Q Q' : Seqs) (tr : List _),
    Run QueueRun (start, Function.update (fun _ => none) (.other 0) (some [])) tr (k, Q) ∧
      Q (.other 0) = some [3, 4, 5] ∧ QueueStep Q (.out (.other 0) 4) k (some 4) k' Q' ∧
      Q' (.other 0) = some [3, 5] := by
  have hempty : Family Heap.uninit.procs fun _ => none :=
    ⟨fun hQ => by simp at hQ, fun hQ => by simp at hQ⟩
  set start : Kernel Heap :=
    Kernel.setProcs ⟨Heap.uninit, sampleGlobals⟩ (selfLink (.head (.other 0)) Heap.uninit.procs)
  have hstart : Family start.lists.procs (Function.update (fun _ => none) (.other 0) (some [])) :=
    hempty.init (.other 0)
  obtain ⟨tr1, k1, h1, hf1⟩ := exists_run_insert (.nil (s := (start, _))) hstart (p := 3) (by simp)
  obtain ⟨tr2, k2, h2, hf2⟩ := exists_run_insert h1 hf1 (p := 4) (by decide)
  obtain ⟨tr3, k3, h3, -⟩ := exists_run_insert h2 hf2 (p := 5) (by decide)
  have hQ : Function.update (fun _ => none : Seqs) (.other 0) (some [3, 4, 5]) (.other 0) =
      some [3, 4, 5] := Function.update_self ..
  have hop : (QueueOp.out (.other 0) 4).Allowed
      (Function.update (fun _ => none) (.other 0) (some [3, 4, 5])) :=
    ⟨Option.isSome_of_eq_some hQ, trivial⟩
  obtain ⟨-, r, k', Q', hs⟩ := queues_are_sequences hstart h3 hop
  obtain ⟨xs, ys, hxs, heff, hQ'⟩ := hs.effect
  obtain rfl := Option.some.inj (hQ.symm.trans hxs)
  cases heff with
  | out => exact ⟨start, k3, k', _, Q', tr3, h3, hQ, hs, by rw [hQ']; exact Function.update_self ..⟩
  | notIn h => exact absurd (by decide) h

end Rocm
