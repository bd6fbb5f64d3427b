import Rocm.Proofs.Pids

/-!
# What the outcomes leave behind

Every outcome of a handler keeps the invariant, and the action it returns fits the place where
it leaves the running process: a process that is to go on is in no list.
-/

namespace Rocm

namespace View

variable {v : View} {p : PcbId} {q : Queue} {s : Word}

theorem mem_popBlocked {s' : Word} (h : p ∈ (v.popBlocked s).blocked s') : p ∈ v.blocked s' := by
  change p ∈ Function.update v.blocked s (v.blocked s).tail s' at h
  rw [Function.update_apply] at h
  split at h
  · next e => subst e; exact List.mem_of_mem_tail h
  · exact h

theorem Wf.popBlocked (h : v.Wf) : (v.popBlocked s).Wf where
  free_nodup := h.free_nodup
  ready_nodup := h.ready_nodup
  blocked_nodup s' := by
    change (Function.update v.blocked s (v.blocked s).tail s').Nodup
    rw [Function.update_apply]
    split
    · exact (h.blocked_nodup s).tail
    · exact h.blocked_nodup s'
  free_ready := h.free_ready
  free_blocked p hp s' hs := h.free_blocked p hp s' (mem_popBlocked hs)
  ready_blocked q p hp s' hs := h.ready_blocked q p hp s' (mem_popBlocked hs)
  ready_unique := h.ready_unique
  siblings := h.siblings
  parent := h.parent
  leaf := h.leaf

theorem Wf.enqueue (h : v.Wf) (hp : v.Loose p) (prio : Word) : (v.enqueue p prio).Wf where
  free_nodup := by rw [enqueue_free]; exact h.free_nodup
  ready_nodup q := by
    rw [enqueue_ready]
    split
    · exact List.nodup_append'.mpr ⟨h.ready_nodup q, List.nodup_singleton p,
        List.disjoint_singleton.mpr (hp.2.1 q)⟩
    · exact h.ready_nodup q
  blocked_nodup := by rw [enqueue_blocked]; exact h.blocked_nodup
  free_ready r hr q hq := by
    rw [enqueue_free] at hr
    rcases mem_enqueue_ready.mp hq with hq | ⟨rfl, -⟩
    exacts [h.free_ready r hr q hq, hp.1 hr]
  free_blocked := by rw [enqueue_free, enqueue_blocked]; exact h.free_blocked
  ready_blocked q r hq s hs := by
    rw [enqueue_blocked] at hs
    rcases mem_enqueue_ready.mp hq with hq | ⟨rfl, -⟩
    exacts [h.ready_blocked q r hq s hs, hp.2.2 s hs]
  ready_unique r q q' hq hq' := by
    rcases mem_enqueue_ready.mp hq with hq | ⟨rfl, e⟩ <;>
      rcases mem_enqueue_ready.mp hq' with hq' | ⟨e', e''⟩
    · exact h.ready_unique r q q' hq hq'
    · exact absurd (e' ▸ hq) (hp.2.1 q)
    · exact absurd hq' (hp.2.1 q')
    · have := e.symm.trans e''
      cases q <;> cases q' <;> first | rfl | exact absurd this (by decide)
  siblings := by rw [enqueue_child]; exact h.siblings
  parent := by rw [enqueue_child]; exact h.parent
  leaf := by rw [enqueue_free, enqueue_child]; exact h.leaf

theorem Wf.pushBlocked (h : v.Wf) (hp : v.Loose p) : (v.pushBlocked s p).Wf where
  free_nodup := h.free_nodup
  ready_nodup := h.ready_nodup
  blocked_nodup s' := by
    change (Function.update v.blocked s (v.blocked s ++ [p]) s').Nodup
    rw [Function.update_apply]
    split
    · exact List.nodup_append'.mpr ⟨h.blocked_nodup s, List.nodup_singleton p,
        List.disjoint_singleton.mpr (hp.2.2 s)⟩
    · exact h.blocked_nodup s'
  free_ready := h.free_ready
  free_blocked r hr s' hs := by
    rcases mem_pushBlocked.mp hs with hs | ⟨rfl, -⟩
    exacts [h.free_blocked r hr s' hs, hp.1 hr]
  ready_blocked q r hq s' hs := by
    rcases mem_pushBlocked.mp hs with hs | ⟨rfl, -⟩
    exacts [h.ready_blocked q r hq s' hs, hp.2.1 q hq]
  ready_unique := h.ready_unique
  siblings := h.siblings
  parent := h.parent
  leaf := h.leaf

theorem Wf.popReady (h : v.Wf) (q : Queue) : (v.popReady q).Wf := by
  have hsub : ∀ q', ((v.popReady q).ready q').Sublist (v.ready q') := fun q' => by
    change (Function.update v.ready q (v.ready q).tail q').Sublist (v.ready q')
    rw [Function.update_apply]
    split
    · next e => subst e; exact List.tail_sublist _
    · exact List.Sublist.refl _
  exact {
    free_nodup := h.free_nodup
    ready_nodup := fun q' => (hsub q').nodup (h.ready_nodup q')
    blocked_nodup := h.blocked_nodup
    free_ready := fun p hp q' hq => h.free_ready p hp q' ((hsub q').subset hq)
    free_blocked := h.free_blocked
    ready_blocked := fun q' p hp => h.ready_blocked q' p ((hsub q').subset hp)
    ready_unique := fun p q' q'' hp hp' =>
      h.ready_unique p q' q'' ((hsub q').subset hp) ((hsub q'').subset hp')
    siblings := h.siblings
    parent := h.parent
    leaf := h.leaf }

theorem Wf.popFree (h : v.Wf) : v.popFree.Wf where
  free_nodup := (List.tail_sublist _).nodup h.free_nodup
  ready_nodup := h.ready_nodup
  blocked_nodup := h.blocked_nodup
  free_ready := fun p hp => h.free_ready p (List.mem_of_mem_tail hp)
  free_blocked := fun p hp => h.free_blocked p (List.mem_of_mem_tail hp)
  ready_blocked := h.ready_blocked
  ready_unique := h.ready_unique
  siblings := h.siblings
  parent := h.parent
  leaf := fun p hp => h.leaf p (List.mem_of_mem_tail hp)

theorem mem_remove_child {S : List PcbId} {a : PcbId} (h : p ∈ (v.remove S).child a) :
    p ∈ v.child a ∧ a ∉ S ∧ p ∉ S := by
  change p ∈ (if a ∈ S then [] else (v.child a).filter (· ∉ S)) at h
  split at h
  · cases h
  · next ha =>
    obtain ⟨hm, hS⟩ := List.mem_filter.mp h
    exact ⟨hm, ha, by simpa using hS⟩

theorem mem_filter_notMem {S l : List PcbId} (h : p ∈ l.filter (· ∉ S)) : p ∈ l ∧ p ∉ S := by
  obtain ⟨hm, hS⟩ := List.mem_filter.mp h
  exact ⟨hm, by simpa using hS⟩

theorem Wf.remove (h : v.Wf) {S : List PcbId} (hn : S.Nodup) (hS : ∀ p ∈ S, p ∉ v.free) :
    (v.remove S).Wf where
  free_nodup := List.nodup_append'.mpr ⟨hn, h.free_nodup, hS⟩
  ready_nodup q := (h.ready_nodup q).filter _
  blocked_nodup s := (h.blocked_nodup s).filter _
  free_ready r hr q hq := by
    obtain ⟨hq, hnot⟩ := mem_filter_notMem hq
    exact (List.mem_append.mp hr).elim hnot fun hf => h.free_ready r hf q hq
  free_blocked r hr s hs := by
    obtain ⟨hs, hnot⟩ := mem_filter_notMem hs
    exact (List.mem_append.mp hr).elim hnot fun hf => h.free_blocked r hf s hs
  ready_blocked q r hq s hs :=
    h.ready_blocked q r (mem_filter_notMem hq).1 s (mem_filter_notMem hs).1
  ready_unique r q q' hq hq' :=
    h.ready_unique r q q' (mem_filter_notMem hq).1 (mem_filter_notMem hq').1
  siblings q := by
    change (if q ∈ S then [] else (v.child q).filter (· ∉ S)).Nodup
    split
    · exact List.nodup_nil
    · exact (h.siblings q).filter _
  parent r q q' hq hq' := h.parent r q q' (mem_remove_child hq).1 (mem_remove_child hq').1
  leaf r hr := by
    refine ⟨?_, fun q hq => ?_⟩
    · change (if r ∈ S then [] else (v.child r).filter (· ∉ S)) = []
      split
      · rfl
      · next hnot =>
        rw [(h.leaf r ((List.mem_append.mp hr).resolve_left hnot)).1]
        rfl
    · obtain ⟨hm, -, hnot⟩ := mem_remove_child hq
      exact (h.leaf r ((List.mem_append.mp hr).resolve_left hnot)).2 q hm

/-- The lists with a new process that is in no queue yet. -/
theorem Wf.newChild (h : v.Wf) {c a : PcbId} {cs : List PcbId} (hf : v.free = c :: cs)
    (ha : a ∉ v.free) :
    (v.popFree.pushChild a c).Wf ∧ (v.popFree.pushChild a c).Loose c := by
  have hc : c ∈ v.free := by rw [hf]; exact List.mem_cons_self
  have hnd := h.free_nodup
  rw [hf, List.nodup_cons] at hnd
  have hcs : c ∉ v.free.tail := by rw [hf]; exact hnd.1
  have hleaf := h.leaf c hc
  have hmem : ∀ r q, r ∈ (v.popFree.pushChild a c).child q ↔ r ∈ v.child q ∨ r = c ∧ q = a := by
    intro r q
    change r ∈ Function.update v.child a (c :: v.child a) q ↔ _
    rw [Function.update_apply]
    split
    · next e => subst e; simp [or_comm]
    · next e => simp [e]
  refine ⟨?_, hcs, h.free_ready c hc, h.free_blocked c hc⟩
  exact {
    free_nodup := h.free_nodup.tail
    ready_nodup := h.ready_nodup
    blocked_nodup := h.blocked_nodup
    free_ready := fun r hr => h.free_ready r (List.mem_of_mem_tail hr)
    free_blocked := fun r hr => h.free_blocked r (List.mem_of_mem_tail hr)
    ready_blocked := h.ready_blocked
    ready_unique := h.ready_unique
    siblings := fun q => by
      change (Function.update v.child a (c :: v.child a) q).Nodup
      rw [Function.update_apply]
      split
      · exact List.nodup_cons.mpr ⟨hleaf.2 a, h.siblings a⟩
      · exact h.siblings q
    parent := fun r q q' hq hq' => by
      rcases (hmem r q).mp hq with hq | ⟨rfl, rfl⟩ <;>
        rcases (hmem r q').mp hq' with hq' | ⟨e, e'⟩
      · exact h.parent r q q' hq hq'
      · exact absurd (e ▸ hq) (hleaf.2 q)
      · exact absurd hq' (hleaf.2 q')
      · exact e'.symm
    leaf := fun r hr => by
      have hr' := List.mem_of_mem_tail hr
      have hrc : r ≠ c := fun e => hcs (e ▸ hr)
      refine ⟨?_, fun q hq => ((hmem r q).mp hq).elim ((h.leaf r hr').2 q) fun e => hrc e.1⟩
      change Function.update v.child a (c :: v.child a) r = []
      have hra : r ≠ a := fun e => ha (e ▸ hr')
      rw [Function.update_of_ne hra]
      exact (h.leaf r hr').1 }

end View

variable {k k' : Kernel View} {act p : PcbId} {s : Word} {r : EhAct}

theorem PStep.actProc (hp : PStep s act k r k') : k'.g.actProc = k.g.actProc := by
  cases hp <;> rfl

theorem PStep.yieldedProc (hp : PStep s act k r k') : k'.g.yieldedProc = k.g.yieldedProc := by
  cases hp <;> rfl

theorem storeWord_actProc (g : Globals) (a v : Word) : (g.storeWord a v).actProc = g.actProc := by
  unfold Globals.storeWord; split <;> rfl

theorem storeWord_yieldedProc (g : Globals) (a v : Word) :
    (g.storeWord a v).yieldedProc = g.yieldedProc := by
  unfold Globals.storeWord; split <;> rfl

theorem storeWord_pcb (g : Globals) (a v : Word) : (g.storeWord a v).pcb = g.pcb := by
  unfold Globals.storeWord; split <;> rfl

/-- Where a handler that returns `r` leaves the running process. -/
structure Placed (k : Kernel View) (r : EhAct) (k' : Kernel View) : Prop where
  act : k'.g.actProc = k.g.actProc
  loose : r = .continue ∨ r = .renqueue → ∀ p, k.g.actProc = some p → k'.lists.Loose p
  yielded : ∀ y, k'.g.yieldedProc = some y →
    r = .nothing ∧ k.g.actProc = some y ∧ k'.lists.Loose y

/-- A change of registers only. -/
theorem Placed.mapG (h : Placed k r k') {f : Globals → Globals}
    (ha : (f k'.g).actProc = k'.g.actProc) (hy : (f k'.g).yieldedProc = k'.g.yieldedProc) :
    Placed k r (k'.mapG f) :=
  ⟨ha.trans h.act, h.loose, fun y h' => h.yielded y (hy.symm.trans h')⟩

variable [Layout]

/-- The invariant, and the shape of the lists. -/
structure Sound (k : Kernel View) : Prop where
  inv : KInv k
  wf : k.lists.Wf

theorem Sound.block (h : Sound k) (hp : k.lists.Loose p) (hs : s &&& 3 = 0) : Sound (k.block s p) :=
  ⟨h.inv.block hp (by rintro rfl; exact absurd hs (by decide)), h.wf.pushBlocked hp⟩

theorem Sound.wake (h : Sound k) {w : PcbId} {ws : List PcbId} (hs : k.lists.blocked s = w :: ws) :
    Sound (k.wake s w) :=
  ⟨h.inv.wake h.wf hs, h.wf.popBlocked.enqueue (h.inv.toKCore.loose_popBlocked h.wf hs) _⟩

theorem Sound.kill (h : Sound k) {S : List PcbId} (hS : k.lists.Subtree p S)
    (hp : p ∉ k.lists.free) : Sound (k.kill S) :=
  ⟨h.inv.kill hS.nodup hS.closed (hS.alive h.wf hp),
    h.wf.remove hS.nodup (hS.alive h.wf hp)⟩

theorem Sound.mapG (h : Sound k) {f : Globals → Globals} (hs : SameTags k.g (f k.g))
    (hp : (f k.g).procsCount = k.g.procsCount) (hsb : (f k.g).sbProcs = k.g.sbProcs) :
    Sound (k.mapG f) := ⟨h.inv.mapG hs hp hsb, h.wf⟩

theorem Sound.create (h : Sound k) {c : PcbId} {cs : List PcbId} (hf : k.lists.free = c :: cs)
    (hp : p ∉ k.lists.free) (a b d : Word) : Sound (k.create c p a b d) := by
  obtain ⟨hw, hl⟩ := h.wf.newChild hf hp
  exact ⟨h.inv.create h.wf hf hp a b d, hw.enqueue hl b⟩

/-- What every waking up keeps, waking up the whole queue keeps. -/
theorem wakeAll_induct {P : Kernel View → Prop} (ws : List PcbId)
    (step : ∀ k w ws, Sound k → P k → k.lists.blocked s = w :: ws → P (k.wake s w)) :
    ∀ {k : Kernel View}, Sound k → P k → k.lists.blocked s = ws →
      Sound (k.wakeAll s ws) ∧ P (k.wakeAll s ws) := by
  induction ws with
  | nil => exact fun h hp _ => ⟨h, hp⟩
  | cons w ws ih =>
    intro k h hp hs
    exact ih (h.wake hs) (step k w ws h hp hs) (wake_blocked k hs)

/-- The state of the nucleus at the entry of a handler, with the registers saved. -/
structure Entered (k : Kernel View) : Prop extends Sound k where
  loose : ∀ p, k.g.actProc = some p → k.lists.Loose p
  yielded : k.g.yieldedProc = none
  /-- No process runs when a device is served that nobody has waited for. -/
  served : ∀ d, k.g.served = some d → k.g.int (Layout.toAddresses.semAddr (.dev d)) = 1 →
    k.g.actProc = none

theorem Placed.refl (h : Entered k) (r : EhAct) : Placed k r k :=
  ⟨rfl, fun _ => h.loose, fun y hy => by rw [h.yielded] at hy; cases hy⟩

theorem placed_wake (h : Entered k) {w : PcbId} {ws : List PcbId}
    (hs : k.lists.blocked s = w :: ws) (r : EhAct) : Placed k r (k.wake s w) := by
  refine ⟨rfl, fun _ p hp => (h.loose p hp).wake ?_, fun y hy => ?_⟩
  · rintro rfl
    exact (h.loose p hp).2.2 s (by rw [hs]; exact List.mem_cons_self)
  · change k.g.yieldedProc = some y at hy
    rw [h.yielded] at hy
    cases hy

theorem placed_gone {k' : Kernel View} (h : Entered k) (ha : k'.g.actProc = k.g.actProc)
    (hy : k'.g.yieldedProc = k.g.yieldedProc) : Placed k .nothing k' :=
  ⟨ha, by simp, by simp [hy, h.yielded]⟩

theorem PStep.placed (h : Entered k) (hp : PStep s act k r k') : Placed k r k' := by
  cases hp with
  | block => exact placed_gone h rfl rfl
  | wake _ hs => exact placed_wake h hs _
  | take => exact (Placed.refl h _).mapG rfl rfl

theorem PStep.sound (h : Entered k) (hs : s &&& 3 = 0) (hact : k.g.actProc = some act)
    (hp : PStep s act k r k') : Sound k' := by
  cases hp with
  | block => exact h.toSound.block (h.loose act hact) hs
  | wake _ hq => exact h.toSound.wake hq
  | take => exact h.toSound.mapG (.of_pcb rfl) rfl rfl

theorem VStep.sound {p : Option PcbId} (h : Entered k) (hs : s &&& 3 = 0)
    (hv : VStep s k p k') : Sound k' := by
  cases hv with
  | idle => exact h.toSound
  | block _ hact => exact h.toSound.block (h.loose _ hact) hs
  | wake _ hq => exact h.toSound.wake hq
  | give => exact h.toSound.mapG (.of_pcb rfl) rfl rfl

/-- A V of the running process, or of an interrupt handler that does not block it. -/
theorem VStep.placed {p : Option PcbId} (h : Entered k) (hv : VStep s k p k')
    (hr : r = .continue ∨ r = .renqueue → k.g.int s = 1 → k.g.actProc = none) : Placed k r k' := by
  cases hv with
  | idle => exact .refl h _
  | block hone hact =>
    refine ⟨rfl, fun hr' => ?_, fun y hy => ?_⟩
    · rw [hr hr' hone] at hact
      cases hact
    · change k.g.yieldedProc = some y at hy
      rw [h.yielded] at hy
      cases hy
  | wake _ hq => exact placed_wake h hq _
  | give => exact (Placed.refl h _).mapG rfl rfl

theorem Placed.create (h : Entered k) {c : PcbId} {cs : List PcbId} (hf : k.lists.free = c :: cs)
    (a b d : Word) (r : EhAct) : Placed k r (k.create c act a b d) := by
  refine ⟨rfl, fun _ p hp => ?_, fun y hy => ?_⟩
  · have hl := h.loose p hp
    have hne : p ≠ c := by
      rintro rfl
      exact hl.1 (by rw [hf]; exact List.mem_cons_self)
    have hl' : (k.lists.popFree.pushChild act c).Loose p :=
      ⟨fun hm => hl.1 (List.mem_of_mem_tail hm), hl.2.1, hl.2.2⟩
    exact hl'.enqueue hne
  · change k.g.yieldedProc = some y at hy
    rw [h.yielded] at hy
    cases hy

theorem Placed.kill (h : Entered k) {S : List PcbId} (hact : k.g.actProc = some act) :
    Placed k (if act ∈ S then .nothing else .renqueue) (k.kill S) := by
  refine ⟨rfl, fun hr p hp => ?_, fun y hy => ?_⟩
  · have hS : act ∉ S := fun hm => by simp [hm] at hr
    obtain rfl : act = p := Option.some.inj (hact.symm.trans hp)
    exact (h.loose act hact).remove hS
  · change k.g.yieldedProc = some y at hy
    rw [h.yielded] at hy
    cases hy

theorem Sound.storeWord (h : Sound k) (a v : Word) : Sound (k.mapG (·.storeWord a v)) := by
  refine h.mapG (.of_pcb (storeWord_pcb _ a v)) ?_ ?_ <;> unfold Globals.storeWord <;> split <;> rfl

theorem Sound.setPS (h : Sound k) (f : ProcState → ProcState) : Sound (k.mapG (·.setPS p f)) :=
  h.mapG (sameTags_setPS k.g p f) rfl rfl

theorem SysOutcome.placed {s : ProcState} (h : Entered k) (hact : k.g.actProc = some act)
    (ho : SysOutcome k act s r k') : Placed k r k' := by
  cases ho with
  | value => exact (Placed.refl h _).mapG rfl rfl
  | full => exact .refl h _
  | create _ hf => exact (Placed.create h hf _ _ _ _).mapG rfl rfl
  | terminate => exact .kill h hact
  | passeren _ _ _ hp => exact hp.placed h
  | verhogen _ _ _ hv =>
    refine hv.placed h fun hr hone => ?_
    cases hv with
    | idle _ hn => exact hn
    | block => simp at hr
    | wake hne => exact absurd hone hne
    | give hne => exact absurd hone hne
  | @doio r2 k2 _ _ _ _ _ hp =>
    have hpl := hp.placed h
    refine placed_gone h ?_ ?_
    · rw [mapG_g, storeWord_actProc, hpl.act]
    · rw [mapG_g, storeWord_yieldedProc, hp.yieldedProc]
  | clockwait _ hp => exact hp.placed h
  | yield =>
    refine ⟨rfl, by simp, fun y hy => ?_⟩
    obtain rfl : act = y := Option.some.inj hy
    exact ⟨rfl, hact, h.loose act hact⟩
  | unknown => exact placed_gone h rfl rfl

theorem SysOutcome.sound {s : ProcState} (h : Entered k) (hact : k.g.actProc = some act)
    (ho : SysOutcome k act s r k') : Sound k' := by
  have hlive := (h.loose act hact).1
  cases ho with
  | value => exact h.toSound.setPS _
  | full => exact h.toSound
  | create _ hf => exact (h.toSound.create hf hlive _ _ _).setPS _
  | terminate _ _ hq hS => exact h.toSound.kill hS hq
  | passeren _ hal _ hp => exact hp.sound h hal hact
  | verhogen _ hal _ hv => exact hv.sound h hal
  | doio _ _ _ _ hal hp => exact (hp.sound h hal hact).storeWord _ _
  | clockwait _ hp => exact hp.sound h (Layout.sem_aligned .it) hact
  | yield => exact h.toSound.mapG (.of_pcb rfl) rfl rfl
  | unknown _ _ hS => exact h.toSound.kill hS hlive

/-- What a tick of the clock leaves of a property that every waking up keeps. -/
theorem tick_induct {P : Kernel View → Prop} (h : Sound k)
    (step : ∀ k w ws, Sound k → P k →
      k.lists.blocked Layout.toAddresses.semIt = w :: ws → P (k.wake Layout.toAddresses.semIt w))
    (timer : P (k.mapG fun g => { g with intervalTimer := PSECOND }))
    (int : ∀ k, P k →
      P (k.mapG fun g => (g.setInt Layout.toAddresses.semIt 1).setInt Layout.toAddresses.semIt 0)) :
    Sound k.tick ∧ P k.tick := by
  have hinv : Sound (k.mapG fun g => { g with intervalTimer := PSECOND }) :=
    h.mapG (.of_pcb rfl) rfl rfl
  obtain ⟨h1, h2⟩ := wakeAll_induct _ step hinv timer rfl
  exact ⟨Sound.mapG (f := fun g => (g.setInt _ 1).setInt _ 0) h1 (.of_pcb rfl) rfl rfl, int _ h2⟩

theorem Outcome.sound (h : Entered k) (ho : Outcome k r k') : Sound k' := by
  cases ho with
  | slice => exact h.toSound.mapG (.of_pcb rfl) rfl rfl
  | unserved => exact h.toSound
  | spurious => exact h.toSound
  | tick => exact (tick_induct (P := fun _ => True) h.toSound (by simp) trivial (by simp)).1
  | @served d p k2 _ _ hv =>
    have hs := hv.sound h (Layout.sem_aligned _)
    cases p with
    | none => exact hs.mapG (.of_pcb rfl) rfl rfl
    | some p =>
      exact hs.mapG
        ((sameTags_setPS k2.g p (·.setReg regV0 (k.g.dev d).status)).trans (.of_pcb rfl)) rfl rfl
  | sys hact _ ho => exact (ho.sound h hact).setPS _
  | die _ hact _ hS => exact (h.toSound.setPS _).kill hS (h.loose _ hact).1

theorem Outcome.placed (h : Entered k) (ho : Outcome k r k') : Placed k r k' := by
  cases ho with
  | slice => exact (Placed.refl h _).mapG rfl rfl
  | unserved => exact .refl h _
  | spurious => exact .refl h _
  | tick =>
    refine (tick_induct (P := fun j => Placed k .continue j) h.toSound ?_ ?_ ?_).2
    · intro j w ws _ hj hs
      refine ⟨hj.act, fun hr p hp => (hj.loose hr p hp).wake ?_, fun y hy => ?_⟩
      · rintro rfl
        exact (hj.loose hr p hp).2.2 _ (by rw [hs]; exact List.mem_cons_self)
      · exact absurd (hj.yielded y hy).1 (by decide)
    · exact (Placed.refl h _).mapG rfl rfl
    · exact fun j hj => hj.mapG rfl rfl
  | @served d p k2 _ hs hv =>
    refine (hv.placed h fun _ => h.served d hs).mapG ?_ ?_ <;> cases p <;> rfl
  | sys hact _ ho => exact (ho.placed h hact).mapG rfl rfl
  | die => exact placed_gone h rfl rfl

end Rocm
