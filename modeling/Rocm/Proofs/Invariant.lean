import Mathlib.Data.Fintype.Card
import Rocm.Proofs.ListOps

/-!
# The representation invariant

`KCore` ties the lists to the tag fields of the PCBs: `p_semAdd` to the semaphore queues,
`p_prio` to the ready queues, `p_parent` to the children, `p_pid` to the address. `KInv` adds
the two counters. Each lemma below is about one elementary change of the lists together with
the field that goes with it.
-/

namespace Rocm

open Prog

/-- `p_prio` of the processes in a ready queue. -/
def Queue.prio : Queue → Word
  | .high => PROCESS_PRIO_HIGH
  | .low => PROCESS_PRIO_LOW

section Fields

variable (g : Globals) (p r : PcbId) (f : Pcb → Pcb)

@[simp] theorem setPcb_pcb : (g.setPcb p f).pcb r = if r = p then f (g.pcb p) else g.pcb r := by
  simp only [Globals.setPcb, Function.update_apply]

@[simp] theorem setPcb_actProc : (g.setPcb p f).actProc = g.actProc := rfl
@[simp] theorem setPcb_yieldedProc : (g.setPcb p f).yieldedProc = g.yieldedProc := rfl
@[simp] theorem setPcb_procsCount : (g.setPcb p f).procsCount = g.procsCount := rfl
@[simp] theorem setPcb_sbProcs : (g.setPcb p f).sbProcs = g.sbProcs := rfl
@[simp] theorem setPcb_int : (g.setPcb p f).int = g.int := rfl
@[simp] theorem setPcb_dev : (g.setPcb p f).dev = g.dev := rfl
@[simp] theorem setPcb_pending : (g.setPcb p f).pending = g.pending := rfl
@[simp] theorem setPcb_biosDataPage : (g.setPcb p f).biosDataPage = g.biosDataPage := rfl
@[simp] theorem setPcb_junk : (g.setPcb p f).junk = g.junk := rfl
@[simp] theorem setPcb_states : (g.setPcb p f).states = g.states := rfl
@[simp] theorem setPcb_cpuStatus : (g.setPcb p f).cpuStatus = g.cpuStatus := rfl

@[simp] theorem tickClock_pcb : g.tickClock.pcb = g.pcb := rfl
@[simp] theorem tickClock_actProc : g.tickClock.actProc = g.actProc := rfl
@[simp] theorem tickClock_yieldedProc : g.tickClock.yieldedProc = g.yieldedProc := rfl
@[simp] theorem tickClock_procsCount : g.tickClock.procsCount = g.procsCount := rfl
@[simp] theorem tickClock_sbProcs : g.tickClock.sbProcs = g.sbProcs := rfl
@[simp] theorem tickClock_int : g.tickClock.int = g.int := rfl
@[simp] theorem tickClock_dev : g.tickClock.dev = g.dev := rfl

@[simp] theorem setInt_pcb (a v : Word) : (g.setInt a v).pcb = g.pcb := rfl
@[simp] theorem setInt_actProc (a v : Word) : (g.setInt a v).actProc = g.actProc := rfl
@[simp] theorem setInt_yieldedProc (a v : Word) : (g.setInt a v).yieldedProc = g.yieldedProc := rfl
@[simp] theorem setInt_procsCount (a v : Word) : (g.setInt a v).procsCount = g.procsCount := rfl
@[simp] theorem setInt_sbProcs (a v : Word) : (g.setInt a v).sbProcs = g.sbProcs := rfl
@[simp] theorem setInt_dev (a v : Word) : (g.setInt a v).dev = g.dev := rfl
@[simp] theorem setInt_int (a v b : Word) :
    (g.setInt a v).int b = if b = a then v else g.int b := by
  simp only [Globals.setInt, Function.update_apply]

end Fields

/-- The PCBs that are not free. -/
def View.alive (v : View) : Finset PcbId := Finset.univ.filter (· ∉ v.free)

/-- The PCBs blocked on a semaphore, by their `p_semAdd`. -/
def Globals.waiting (g : Globals) : Finset PcbId :=
  Finset.univ.filter fun p => (g.pcb p).pSemAdd ≠ NULL

@[simp] theorem mem_alive {v : View} {p : PcbId} : p ∈ v.alive ↔ p ∉ v.free := by
  simp [View.alive]

@[simp] theorem mem_waiting {g : Globals} {p : PcbId} :
    p ∈ g.waiting ↔ (g.pcb p).pSemAdd ≠ NULL := by
  simp [Globals.waiting]

/-- The fields of the PCBs that the lists depend on. -/
structure SameTags (g g' : Globals) : Prop where
  semAdd : ∀ p, (g'.pcb p).pSemAdd = (g.pcb p).pSemAdd
  prio : ∀ p, (g'.pcb p).pPrio = (g.pcb p).pPrio
  parent : ∀ p, (g'.pcb p).pParent = (g.pcb p).pParent
  pid : ∀ p, (g'.pcb p).pPid = (g.pcb p).pPid

theorem SameTags.of_pcb {g g' : Globals} (h : g'.pcb = g.pcb) : SameTags g g' :=
  ⟨fun p => by rw [h], fun p => by rw [h], fun p => by rw [h], fun p => by rw [h]⟩

theorem SameTags.trans {g g' g'' : Globals} (h : SameTags g g') (h' : SameTags g' g'') :
    SameTags g g'' :=
  ⟨fun p => (h'.semAdd p).trans (h.semAdd p), fun p => (h'.prio p).trans (h.prio p),
    fun p => (h'.parent p).trans (h.parent p), fun p => (h'.pid p).trans (h.pid p)⟩

theorem SameTags.waiting {g g' : Globals} (h : SameTags g g') : g'.waiting = g.waiting := by
  ext p; simp [h.semAdd]

/-- A change of a PCB that touches none of the tags. -/
theorem sameTags_setPcb (g : Globals) (p : PcbId) (f : Pcb → Pcb)
    (h1 : (f (g.pcb p)).pSemAdd = (g.pcb p).pSemAdd) (h2 : (f (g.pcb p)).pPrio = (g.pcb p).pPrio)
    (h3 : (f (g.pcb p)).pParent = (g.pcb p).pParent) (h4 : (f (g.pcb p)).pPid = (g.pcb p).pPid) :
    SameTags g (g.setPcb p f) := by
  refine ⟨fun r => ?_, fun r => ?_, fun r => ?_, fun r => ?_⟩ <;> rw [setPcb_pcb] <;> split
  all_goals first | rfl | (next e => subst e; assumption)

/-! ## The counters -/

section Counters

variable {v : View} {g : Globals} {p : PcbId} {s : Word} {n : Nat}

theorem waiting_block (hp : (g.pcb p).pSemAdd = NULL) (hs : s ≠ NULL) :
    (g.setPcb p fun c => { c with pSemAdd := s }).waiting.card = g.waiting.card + 1 := by
  have : (g.setPcb p fun c => { c with pSemAdd := s }).waiting = insert p g.waiting := by
    ext r
    by_cases e : r = p <;> simp [e, hs]
  rw [this, Finset.card_insert_of_notMem (by simp [hp])]

theorem waiting_unblock (hp : (g.pcb p).pSemAdd ≠ NULL) :
    (g.setPcb p fun c => { c with pSemAdd := NULL }).waiting.card + 1 = g.waiting.card := by
  have : (g.setPcb p fun c => { c with pSemAdd := NULL }).waiting = g.waiting.erase p := by
    ext r
    by_cases e : r = p <;> simp [e]
  rw [this, Finset.card_erase_add_one (by simpa using hp)]

theorem waiting_setPcb {f : Pcb → Pcb} (h : (f (g.pcb p)).pSemAdd = (g.pcb p).pSemAdd) :
    (g.setPcb p f).waiting = g.waiting := by
  ext r
  rw [mem_waiting, mem_waiting, setPcb_pcb]
  split
  · next e => subst e; rw [h]
  · rfl

theorem alive_popFree {ps : List PcbId} (hw : v.Wf) (hf : v.free = p :: ps) :
    v.popFree.alive.card = v.alive.card + 1 := by
  have hp : p ∉ ps := by
    have := hw.free_nodup
    rw [hf, List.nodup_cons] at this
    exact this.1
  have : v.popFree.alive = insert p v.alive := by
    ext r
    change r ∈ Finset.univ.filter (· ∉ v.free.tail) ↔ _
    by_cases e : r = p
    · simp [e, hf, hp]
    · simp [e, hf]
  rw [this, Finset.card_insert_of_notMem (by simp [hf])]

theorem ofNat_add_one : BitVec.ofNat 32 (n + 1) = BitVec.ofNat 32 n + 1 := by
  simp [BitVec.ofNat_add]

theorem ofNat_sub_one : BitVec.ofNat 32 (n + 1) - 1 = BitVec.ofNat 32 n := by
  rw [ofNat_add_one, BitVec.add_sub_cancel]

end Counters

/-! ## The invariant -/

/-- The lists agree with the fields of the PCBs, and the processes form a forest. -/
structure KTags (k : Kernel View) : Prop where
  blocked : ∀ p s, p ∈ k.lists.blocked s ↔ (k.g.pcb p).pSemAdd = s ∧ s ≠ NULL
  prio : ∀ q p, p ∈ k.lists.ready q → (k.g.pcb p).pPrio = q.prio
  parent : ∀ p, p ∉ k.lists.free → ∀ q, (k.g.pcb p).pParent = some q ↔ p ∈ k.lists.child q
  /-- No cycle of parents. -/
  rank : ∃ rank : PcbId → Nat, ∀ p q, p ∈ k.lists.child q → rank q < rank p

section Tags

variable {v : View} {g g' : Globals} {p : PcbId}

theorem KTags.congr (h : KTags ⟨v, g⟩) (hs : SameTags g g') : KTags ⟨v, g'⟩ where
  blocked p s := by rw [h.blocked, hs.semAdd]
  prio q p hp := by rw [hs.prio, h.prio q p hp]
  parent p hp q := by rw [hs.parent, h.parent p hp q]
  rank := h.rank

theorem KTags.eraseChild (h : KTags ⟨v, g⟩) (hw : v.Wf) :
    KTags ⟨v.eraseChild p, g.setPcb p fun c => { c with pParent := none }⟩ where
  blocked r s := by
    rw [setPcb_pcb]
    split
    · next e => subst e; exact h.blocked r s
    · exact h.blocked r s
  prio q r hr := by
    rw [setPcb_pcb]
    split
    · next e => subst e; exact h.prio q r hr
    · exact h.prio q r hr
  parent r hr q := by
    change _ ↔ r ∈ (v.child q).erase p
    rw [setPcb_pcb]
    split
    · next e =>
      subst e
      simpa using (hw.siblings q).not_mem_erase
    · next e => rw [h.parent r hr q, List.mem_erase_of_ne e]
  rank := by
    obtain ⟨rk, hrk⟩ := h.rank
    exact ⟨rk, fun r q hr => hrk r q (List.mem_of_mem_erase hr)⟩

end Tags

variable [Layout]

/-- The lists and the PIDs agree with the fields of the PCBs. -/
structure KCore (k : Kernel View) : Prop extends KTags k where
  pidLive : ∀ p, p ∉ k.lists.free → (k.g.pcb p).pPid = Layout.toAddresses.pcbAddr p
  pidFree : ∀ p, (k.g.pcb p).pPid = 0 ∨ (k.g.pcb p).pPid = Layout.toAddresses.pcbAddr p

/-- The representation invariant of the nucleus. -/
structure KInv (k : Kernel View) : Prop extends KCore k where
  procs : k.g.procsCount = BitVec.ofNat 32 k.lists.alive.card
  sb : k.g.sbProcs = BitVec.ofNat 32 k.g.waiting.card

section Core

variable {v : View} {g g' : Globals} {p r : PcbId} {q : Queue} {s : Word}

theorem KCore.congr (h : KCore ⟨v, g⟩) (hs : SameTags g g') : KCore ⟨v, g'⟩ where
  toKTags := h.toKTags.congr hs
  pidLive p hp := by rw [hs.pid, h.pidLive p hp]
  pidFree p := by rw [hs.pid]; exact h.pidFree p

theorem KInv.congr (h : KInv ⟨v, g⟩) (hs : SameTags g g') (hp : g'.procsCount = g.procsCount)
    (hsb : g'.sbProcs = g.sbProcs) : KInv ⟨v, g'⟩ where
  toKCore := h.toKCore.congr hs
  procs := by rw [hp, h.procs]
  sb := by rw [hsb, hs.waiting, h.sb]

/-- A PCB that is in no list has no semaphore. -/
theorem KCore.semAdd_of_loose (h : KCore ⟨v, g⟩) (hp : v.Loose p) :
    (g.pcb p).pSemAdd = NULL := by
  by_contra hne
  exact hp.2.2 _ ((h.blocked p _).mpr ⟨rfl, hne⟩)

theorem KCore.semAdd_of_blocked (h : KCore ⟨v, g⟩) (hp : p ∈ v.blocked s) :
    (g.pcb p).pSemAdd = s := ((h.blocked p s).mp hp).1

theorem KCore.ne_null_of_blocked (h : KCore ⟨v, g⟩) (hp : p ∈ v.blocked s) : s ≠ NULL :=
  ((h.blocked p s).mp hp).2

/-- A change of the ready queues. -/
theorem KCore.setReady (h : KCore ⟨v, g⟩) {ready : Queue → List PcbId}
    (hr : ∀ q p, p ∈ ready q → p ∈ v.ready q ∨ (g.pcb p).pPrio = q.prio) :
    KCore ⟨{ v with ready := ready }, g⟩ where
  blocked := h.blocked
  prio q p hp := (hr q p hp).elim (h.prio q p) id
  parent := h.parent
  rank := h.rank
  pidLive := h.pidLive
  pidFree := h.pidFree

theorem KCore.pushReady (h : KCore ⟨v, g⟩) (hprio : (g.pcb p).pPrio = q.prio) :
    KCore ⟨v.pushReady q p, g⟩ := by
  refine h.setReady fun q' r hr => ?_
  by_cases e : q' = q
  · subst e
    rw [Function.update_self, List.mem_append, List.mem_singleton] at hr
    exact hr.imp_right fun (e : r = p) => by rw [e, hprio]
  · rw [Function.update_of_ne e] at hr
    exact .inl hr

theorem KCore.popReady (h : KCore ⟨v, g⟩) : KCore ⟨v.popReady q, g⟩ := by
  refine h.setReady fun q' r hr => .inl ?_
  rw [Function.update_apply] at hr
  split at hr
  · next e => subst e; exact List.mem_of_mem_tail hr
  · exact hr

/-- A change of the semaphore queues: `p` and its `p_semAdd` change. -/
theorem KCore.setBlocked (h : KCore ⟨v, g⟩) {blocked : Word → List PcbId} {a : Word}
    (hb : ∀ r s, r ∈ blocked s ↔ (if r = p then a else (g.pcb r).pSemAdd) = s ∧ s ≠ NULL) :
    KCore ⟨{ v with blocked := blocked }, g.setPcb p fun c => { c with pSemAdd := a }⟩ where
  blocked r s := by
    rw [hb r s, setPcb_pcb]
    by_cases e : r = p <;> simp [e]
  prio q' r hr := by
    rw [setPcb_pcb]
    split
    · next e => subst e; exact h.prio q' r hr
    · exact h.prio q' r hr
  parent r hr q' := by
    refine Iff.trans ?_ (h.parent r hr q')
    rw [setPcb_pcb]
    split
    · next e => subst e; rfl
    · rfl
  rank := h.rank
  pidLive r hr := by
    rw [setPcb_pcb]
    split
    · next e => subst e; exact h.pidLive r hr
    · exact h.pidLive r hr
  pidFree r := by
    rw [setPcb_pcb]
    split
    · next e => subst e; exact h.pidFree r
    · exact h.pidFree r

theorem KCore.pushBlocked (h : KCore ⟨v, g⟩) (hp : v.Loose p) (hs : s ≠ NULL) :
    KCore ⟨v.pushBlocked s p, g.setPcb p fun c => { c with pSemAdd := s }⟩ := by
  refine h.setBlocked fun r s' => ?_
  have hnull := h.semAdd_of_loose hp
  rw [Function.update_apply]
  by_cases hr : r = p
  · subst hr
    have hnot : r ∉ v.blocked s' := hp.2.2 s'
    by_cases e : s' = s
    · subst e; simp [hs]
    · simp [e, Ne.symm e, hnot]
  · rw [if_neg hr, ← h.blocked r s']
    split
    · next e => subst e; simp [hr]
    · rfl

/-- `p` leaves the queue of `s`, whose other elements are those of `ps`. -/
theorem KCore.leaveBlocked (h : KCore ⟨v, g⟩) {ps : List PcbId} (hp : p ∈ v.blocked s)
    (hps : ∀ r, r ∈ ps ↔ r ∈ v.blocked s ∧ r ≠ p) :
    KCore ⟨{ v with blocked := Function.update v.blocked s ps },
      g.setPcb p fun c => { c with pSemAdd := NULL }⟩ := by
  refine h.setBlocked fun r s' => ?_
  rw [Function.update_apply]
  by_cases hr : r = p
  · subst hr
    have hrhs : ¬ (NULL = s' ∧ s' ≠ NULL) := fun hc => hc.2 hc.1.symm
    simp only [if_true, hrhs, iff_false]
    split
    · exact fun hc => ((hps r).mp hc).2 rfl
    · next e =>
      intro hmem
      exact e ((h.semAdd_of_blocked hmem).symm.trans (h.semAdd_of_blocked hp))
  · rw [if_neg hr, ← h.blocked r s']
    split
    · next e => subst e; simp [hps, hr]
    · rfl

theorem KCore.popBlocked (h : KCore ⟨v, g⟩) (hw : v.Wf) {ps : List PcbId}
    (hg : v.blocked s = p :: ps) :
    KCore ⟨v.popBlocked s, g.setPcb p fun c => { c with pSemAdd := NULL }⟩ := by
  have hnd := hw.blocked_nodup s
  rw [hg, List.nodup_cons] at hnd
  refine h.leaveBlocked (by rw [hg]; exact List.mem_cons_self) fun r => ?_
  rw [hg, List.tail_cons, List.mem_cons]
  constructor
  · exact fun hr => ⟨.inr hr, fun e => hnd.1 (e ▸ hr)⟩
  · exact fun hr => hr.1.resolve_left hr.2

/-- The first process: the first free PCB, with its fields assigned. -/
theorem KCore.popFree (h : KCore ⟨v, g⟩) (hw : v.Wf) {ps : List PcbId} (hf : v.free = p :: ps)
    {f : Pcb → Pcb} (hfp : (f (g.pcb p)).pParent = none) (hfs : (f (g.pcb p)).pSemAdd = NULL)
    (hfi : (f (g.pcb p)).pPid = Layout.toAddresses.pcbAddr p) :
    KCore ⟨v.popFree, g.setPcb p f⟩ := by
  have hpf : p ∈ v.free := by rw [hf]; exact List.mem_cons_self
  have hfree : ∀ c, c ∉ v.free.tail → c ≠ p → c ∉ v.free := by
    intro c hc hcp hmem
    rw [hf, List.mem_cons] at hmem
    rcases hmem with rfl | hmem
    · exact hcp rfl
    · exact hc (by rw [hf]; exact hmem)
  refine ⟨⟨?blocked, ?prio, ?parent, ?rank⟩, ?pidLive, ?pidFree⟩
  case blocked =>
    intro c s
    change c ∈ v.blocked s ↔ _
    rw [setPcb_pcb]
    split
    · next e =>
      subst e
      have hrhs : ¬ (NULL = s ∧ s ≠ NULL) := fun hc => hc.2 hc.1.symm
      simpa only [hfs, hrhs, iff_false] using hw.free_blocked c hpf s
    · exact h.blocked c s
  case prio =>
    intro q c hc
    have hcp : c ≠ p := fun e => hw.free_ready p hpf q (e ▸ hc)
    rw [setPcb_pcb, if_neg hcp]
    exact h.prio q c hc
  case parent =>
    intro c hc q
    change _ ↔ c ∈ v.child q
    rw [setPcb_pcb]
    split
    · next e =>
      subst e
      simpa only [hfp, reduceCtorEq, false_iff] using (hw.leaf c hpf).2 q
    · next e => exact h.parent c (hfree c hc e) q
  case rank => exact h.rank
  case pidLive =>
    intro c hc
    rw [setPcb_pcb]
    split
    · next e => subst e; exact hfi
    · next e => exact h.pidLive c (hfree c hc e)
  case pidFree =>
    intro c
    rw [setPcb_pcb]
    split
    · next e => subst e; exact .inr hfi
    · exact h.pidFree c

/-- A new child of a live process: the first free PCB, with its fields assigned. -/
theorem KCore.create (h : KCore ⟨v, g⟩) (hw : v.Wf) {ps : List PcbId} (hf : v.free = p :: ps)
    (hact : r ∉ v.free) {f : Pcb → Pcb} (hfp : (f (g.pcb p)).pParent = some r)
    (hfs : (f (g.pcb p)).pSemAdd = NULL)
    (hfi : (f (g.pcb p)).pPid = Layout.toAddresses.pcbAddr p) :
    KCore ⟨v.popFree.pushChild r p, g.setPcb p f⟩ := by
  have hpf : p ∈ v.free := by rw [hf]; exact List.mem_cons_self
  have hleaf := hw.leaf p hpf
  have hpr : p ≠ r := fun e => hact (e ▸ hpf)
  have hfree : ∀ c, c ∉ v.free.tail → c ≠ p → c ∉ v.free := by
    intro c hc hcp hmem
    rw [hf, List.mem_cons] at hmem
    rcases hmem with rfl | hmem
    · exact hcp rfl
    · exact hc (by rw [hf]; exact hmem)
  refine ⟨⟨?blocked, ?prio, ?parent, ?rank⟩, ?pidLive, ?pidFree⟩
  case blocked =>
    intro c s
    change c ∈ v.blocked s ↔ _
    rw [setPcb_pcb]
    split
    · next e =>
      subst e
      have hrhs : ¬ (NULL = s ∧ s ≠ NULL) := fun hc => hc.2 hc.1.symm
      simpa only [hfs, hrhs, iff_false] using hw.free_blocked c hpf s
    · exact h.blocked c s
  case prio =>
    intro q c hc
    have hcp : c ≠ p := fun e => hw.free_ready p hpf q (e ▸ hc)
    rw [setPcb_pcb, if_neg hcp]
    exact h.prio q c hc
  case parent =>
    intro c hc q
    change c ∉ v.free.tail at hc
    change _ ↔ c ∈ Function.update v.child r (p :: v.child r) q
    rw [setPcb_pcb]
    by_cases hcp : c = p
    · subst hcp
      rw [if_pos rfl, hfp]
      by_cases hq : q = r
      · subst hq; simp
      · simp [hq, Ne.symm hq, hleaf.2 q]
    · rw [if_neg hcp, h.parent c (hfree c hc hcp) q]
      by_cases hq : q = r
      · subst hq; simp [hcp]
      · simp [hq]
  case rank =>
    obtain ⟨rk, hrk⟩ := h.rank
    refine ⟨Function.update rk p (rk r + 1), fun c q hc => ?_⟩
    change c ∈ Function.update v.child r (p :: v.child r) q at hc
    have hold : ∀ c q, c ∈ v.child q → c ≠ p ∧ q ≠ p := fun c q hc =>
      ⟨fun e => hleaf.2 q (e ▸ hc), fun e => by rw [e, hleaf.1] at hc; cases hc⟩
    rw [Function.update_apply] at hc
    split at hc
    · next e =>
      subst e
      rcases List.mem_cons.mp hc with rfl | hc
      · simp [hpr.symm]
      · obtain ⟨hcp, hqp⟩ := hold c q hc
        simpa [hcp, hqp] using hrk c q hc
    · obtain ⟨hcp, hqp⟩ := hold c q hc
      simpa [hcp, hqp] using hrk c q hc
  case pidLive =>
    intro c hc
    rw [setPcb_pcb]
    split
    · next e => subst e; exact hfi
    · next e => exact h.pidLive c (hfree c hc e)
  case pidFree =>
    intro c
    rw [setPcb_pcb]
    split
    · next e => subst e; exact .inr hfi
    · exact h.pidFree c

end Core

end Rocm
