import Rocm.Lib.Fifo
import Rocm.Properties.Sample

/-!
# Nobody overtakes

Whatever the system does in between, those who are ahead of a process in a ready queue or in the
queue of a semaphore can only become fewer while it stays there, and each time that the processor
is handed to one of the queue they do.
-/

namespace Rocm

open ProcTable Runs Fifo

/-- A queue that processes wait in. -/
inductive Line where
  | ready (q : Queue)
  | blocked (s : Word)

/-- The processes in it. -/
def View.line (v : View) : Line → List PcbId
  | .ready q => v.ready q
  | .blocked s => v.blocked s

/-- Nothing that makes processes ready or lets them block moves `p` into `c`. -/
structure Apart (v : View) (p : PcbId) (c : Line) : Prop where
  free : p ∉ v.free
  blocked : ∀ q, c = .ready q → ∀ s, p ∉ v.blocked s

section Lists

variable {v : View} {p w : PcbId} {c : Line}

theorem View.Wf.line_nodup (h : v.Wf) (c : Line) : (v.line c).Nodup := by
  cases c with
  | ready q => exact h.ready_nodup q
  | blocked s => exact h.blocked_nodup s

theorem View.Loose.notMem_line (h : v.Loose p) (c : Line) : p ∉ v.line c := by
  cases c with
  | ready q => exact h.2.1 q
  | blocked s => exact h.2.2 s

/-- Who is in a ready queue comes into no ready queue, and who is in the queue of a semaphore into
    no such queue. -/
theorem View.Wf.apart_ready (h : v.Wf) {q : Queue} (hp : p ∈ v.ready q) (c : Line) :
    Apart v p c :=
  ⟨fun hf => h.free_ready p hf q hp, fun _ _ => h.ready_blocked q p hp⟩

theorem View.Wf.apart (h : v.Wf) (hp : p ∈ v.line c) : Apart v p c := by
  cases c with
  | ready q => exact h.apart_ready hp _
  | blocked s => exact ⟨fun hf => h.free_blocked p hf s hp, nofun⟩

theorem moved_enqueue (hne : w ≠ p) (prio : Word) (c : Line) :
    Moved p (v.line c) ((v.enqueue w prio).line c) := by
  cases c with
  | ready q =>
    change Moved p (v.ready q) ((v.enqueue w prio).ready q)
    rw [View.enqueue_ready]
    split
    · exact .join _ hne
    · exact .refl ..
  | blocked s =>
    change Moved p (v.blocked s) ((v.enqueue w prio).blocked s)
    rw [View.enqueue_blocked]
    exact .refl ..

theorem moved_pushBlocked (hne : w ≠ p) (s : Word) (c : Line) :
    Moved p (v.line c) ((v.pushBlocked s w).line c) := by
  cases c with
  | ready q => exact .refl ..
  | blocked s' =>
    change Moved p (v.blocked s') (Function.update v.blocked s (v.blocked s ++ [w]) s')
    rw [Function.update_apply]
    split
    · next e => exact e ▸ .join _ hne
    · exact .refl ..

theorem moved_popBlocked (s : Word) (c : Line) :
    Moved p (v.line c) ((v.popBlocked s).line c) := by
  cases c with
  | ready q => exact .refl ..
  | blocked s' =>
    refine .leave ?_
    change (Function.update v.blocked s (v.blocked s).tail s').Sublist (v.blocked s')
    rw [Function.update_apply]
    split
    · next e => exact e ▸ List.tail_sublist _
    · exact .refl _

theorem moved_popReady (q : Queue) (c : Line) : Moved p (v.line c) ((v.popReady q).line c) := by
  cases c with
  | ready q' =>
    refine .leave ?_
    change (Function.update v.ready q (v.ready q).tail q').Sublist (v.ready q')
    rw [Function.update_apply]
    split
    · next e => exact e ▸ List.tail_sublist _
    · exact .refl _
  | blocked s => exact .refl ..

theorem moved_remove (S : List PcbId) (c : Line) : Moved p (v.line c) ((v.remove S).line c) := by
  cases c with
  | ready q => exact .leave List.filter_sublist
  | blocked s => exact .leave List.filter_sublist

end Lists

/-! ## What a handler does -/

section Handlers

variable {k k' : Kernel View} {act p w : PcbId} {s : Word} {c : Line} {r : EhAct} {e : Exit}

/-- The first in the queue of a semaphore becomes ready, in front of nobody. -/
theorem moved_wake (h : Apart k.lists p c) {ws : List PcbId} (hs : k.lists.blocked s = w :: ws) :
    Moved p (k.lists.line c) ((k.wake s w).lists.line c) := by
  refine (moved_popBlocked s c).trans ?_
  cases c with
  | ready q =>
    refine moved_enqueue ?_ _ _
    rintro rfl
    exact h.blocked q rfl s (by rw [hs]; exact List.mem_cons_self)
  | blocked s' =>
    change Moved p ((k.lists.popBlocked s).blocked s')
      (((k.lists.popBlocked s).enqueue w _).blocked s')
    rw [View.enqueue_blocked]
    exact .refl ..

theorem Apart.wake (h : Apart k.lists p c) : Apart (k.wake s w).lists p c where
  free := by
    change p ∉ ((k.lists.popBlocked s).enqueue w _).free
    rw [View.enqueue_free]
    exact h.free
  blocked q hq s' hm := by
    change p ∈ ((k.lists.popBlocked s).enqueue w _).blocked s' at hm
    rw [View.enqueue_blocked] at hm
    exact h.blocked q hq s' (View.mem_popBlocked hm)

theorem moved_wakeAll (ws : List PcbId) (h : Apart k.lists p c) (hs : k.lists.blocked s = ws) :
    Moved p (k.lists.line c) ((k.wakeAll s ws).lists.line c) := by
  induction ws generalizing k with
  | nil => exact .refl ..
  | cons w ws ih => exact (moved_wake h hs).trans (ih h.wake (wake_blocked k hs))

theorem PStep.moved (h : Apart k.lists p c) (hne : act ≠ p) (hp : PStep s act k r k') :
    Moved p (k.lists.line c) (k'.lists.line c) := by
  cases hp with
  | block => exact moved_pushBlocked hne s c
  | wake _ hs => exact moved_wake h hs
  | take => exact .refl ..

theorem VStep.moved {o : Option PcbId} (h : Apart k.lists p c) (hne : k.g.actProc ≠ some p)
    (hv : VStep s k o k') : Moved p (k.lists.line c) (k'.lists.line c) := by
  cases hv with
  | idle => exact .refl ..
  | block _ hact =>
    refine moved_pushBlocked ?_ s c
    rintro rfl
    exact hne hact
  | wake _ hs => exact moved_wake h hs
  | give => exact .refl ..

variable [Layout]

theorem SysOutcome.moved {st : ProcState} (h : Apart k.lists p c) (hact : k.g.actProc = some act)
    (hne : act ≠ p) (ho : SysOutcome k act st r k') :
    Moved p (k.lists.line c) (k'.lists.line c) := by
  cases ho with
  | value => exact .refl ..
  | full => exact .refl ..
  | @create ch cs _ hf =>
    have hpop : Moved p (k.lists.line c) ((k.lists.popFree.pushChild act ch).line c) := by
      cases c <;> exact .refl ..
    refine hpop.trans (moved_enqueue ?_ _ _)
    rintro rfl
    exact h.free (by rw [hf]; exact List.mem_cons_self)
  | terminate => exact moved_remove _ _
  | passeren _ _ _ hp => exact hp.moved h hne
  | verhogen _ _ _ hv => exact hv.moved h fun e => hne (Option.some.inj (hact.symm.trans e))
  | doio _ _ _ _ _ hp =>
    have hm := hp.moved h hne
    exact hm
  | clockwait _ hp => exact hp.moved h hne
  | yield => exact .refl ..
  | unknown => exact moved_remove _ _

theorem Outcome.moved (h : Apart k.lists p c) (hne : k.g.actProc ≠ some p) (ho : Outcome k r k') :
    Moved p (k.lists.line c) (k'.lists.line c) := by
  cases ho with
  | slice => exact .refl ..
  | tick =>
    exact moved_wakeAll (k := k.mapG fun g => { g with intervalTimer := PSECOND }) _ h rfl
  | served _ _ hv =>
    have hm := hv.moved h hne
    exact hm
  | unserved => exact .refl ..
  | spurious => exact .refl ..
  | sys hact _ hs =>
    have hm := hs.moved h hact fun e => hne (e ▸ hact)
    exact hm
  | die => exact moved_remove _ _

/-! ## Handing on the processor -/

omit [Layout] in
theorem moved_flushYielded (hy : k.g.yieldedProc ≠ some p) :
    Moved p (k.lists.line c) (k.flushYielded.lists.line c) := by
  unfold Kernel.flushYielded
  split
  · exact .refl ..
  · next y e =>
    refine moved_enqueue ?_ _ _
    rintro rfl
    exact hy e

theorem Dispatch.moved (hy : k.g.yieldedProc ≠ some p) (hd : Dispatch k e k') :
    Moved p (k.lists.line c) (k'.lists.line c) := by
  cases hd with
  | high =>
    exact (moved_popReady .high c).trans (moved_flushYielded (k := ⟨k.lists.popReady .high, k.g⟩) hy)
  | low =>
    exact (moved_popReady .low c).trans (moved_flushYielded (k := ⟨k.lists.popReady .low, k.g⟩) hy)
  | halt => exact .refl ..
  | wait => exact moved_flushYielded hy
  | deadlock => exact .refl ..

/-- What a handler leaves, before the processor is handed on. -/
structure Leaves (o : Obs) (k : Kernel View) : Prop where
  yielded : ∀ p, o.k.g.actProc ≠ some p → k.g.yieldedProc ≠ some p
  moved : ∀ p c, Apart o.k.lists p c → o.k.g.actProc ≠ some p →
    Moved p (o.k.lists.line c) (k.lists.line c)

omit [Layout] in
theorem Leaves.refl {o : Obs} (hy : o.k.g.yieldedProc = none) : Leaves o o.k :=
  ⟨fun p _ => by rw [hy]; nofun, fun _ _ _ _ => .refl ..⟩

theorem Outcome.leaves {o : Obs} (hen : Entered k) (hl : k.lists = o.k.lists)
    (hact : k.g.actProc = o.k.g.actProc) (ho : Outcome k r k') : Leaves o k' := by
  refine ⟨fun p hp hy => hp ?_, fun p c ha hp => ?_⟩
  · rw [← hact]
    exact ((ho.placed hen).yielded p hy).2.1
  · rw [← hl] at ha ⊢
    exact ho.moved ha (hact ▸ hp)

/-- The time slice of the running process ends. -/
def Globals.SliceTaken (g : Globals) : Prop := g.IntTaken ∧ g.servedLine = some 1

/-- A step leaves the processor to who has it, which the end of a time slice never does, or comes to
    `scheduler_next`. -/
inductive Passes (o : Obs) (slice : Prop) : Obs → Prop where
  | keeps {j j' x} : Leaves o j → j'.lists = j.flushYielded.lists →
      j'.g.actProc = o.k.g.actProc → ¬ slice → Passes o slice ⟨j', x⟩
  | dispatch {j j' x} : Leaves o j → Dispatch j x j' → Passes o slice ⟨j', x⟩

theorem Finish.passes {o : Obs} {slice : Prop} (h : Leaves o k) (hact : k.g.actProc = o.k.g.actProc)
    (hs : r = .continue → ¬ slice) (hf : Finish k r e k') : Passes o slice ⟨k', e⟩ := by
  have hage : ∀ p, Leaves o (k.mapG (·.age p)) := fun p => ⟨h.yielded, h.moved⟩
  cases hf with
  | none _ hd => exact .dispatch h hd
  | @«continue» p hp => exact .keeps (hage p) rfl (hp.symm.trans hact) (hs rfl)
  | @renqueue p _ _ hp hd =>
    have hq : Leaves o ⟨k.lists.enqueue p (k.g.pcb p).pPrio, k.g.age p⟩ := by
      refine ⟨h.yielded, fun r c ha hr => (h.moved r c ha hr).trans (moved_enqueue ?_ _ c)⟩
      rintro rfl
      exact hr (hact.symm.trans hp)
    exact .dispatch hq hd
  | @nothing p _ _ _ _ _ _ hd => exact .dispatch (hage p) hd

/-- The end of a time slice is answered with RENQUEUE. -/
theorem Outcome.of_slice (ho : Outcome k r k') (hs : k.g.SliceTaken) : r = .renqueue := by
  obtain ⟨hint, hl⟩ := hs
  cases ho with
  | slice => rfl
  | tick _ hl' => exact absurd (hl.symm.trans hl') (by decide)
  | served _ hd =>
    rw [Globals.served, hl] at hd
    cases hd
  | unserved _ hl' h1 => exact absurd (Option.some.inj (hl'.symm.trans hl)) h1
  | spurious => rfl
  | sys _ hc => exact absurd hint (not_intTaken hc)
  | die ht => exact absurd hint ht.1

omit [Layout] in
theorem sliceTaken_save (g : Globals) : g.save.SliceTaken ↔ g.SliceTaken := by
  rw [save_eq]
  rfl

/-- An exception that is handled hands the processor on, if the machine goes on. -/
theorem Handled.passes {o : Obs} (h : Ready k) (hl : k.lists = o.k.lists)
    (hact : k.g.actProc = o.k.g.actProc) (hh : Handled k e k') (hgo : e.ongoing) :
    Passes o k.g.SliceTaken ⟨k', e⟩ := by
  have hact' : (k.mapG (·.save)).g.actProc = o.k.g.actProc := (save_actProc _).trans hact
  have hslice := sliceTaken_save k.g
  have hy : (k.mapG (·.save)).g.yieldedProc = Option.none := (save_yieldedProc _).trans h.yielded
  have hstay : ∀ {k' e}, k'.g.yieldedProc = (k.mapG (·.save)).g.yieldedProc →
      k'.g.actProc = (k.mapG (·.save)).g.actProc →
      (∀ p c, Apart k.lists p c → k.g.actProc ≠ some p →
        Moved p (k.lists.line c) (k'.lists.line c)) →
      ¬ k.g.IntTaken → Passes o k.g.SliceTaken ⟨k', e⟩ := by
    intro k' e hyk hak hm hs
    have hyk' : k'.g.yieldedProc = Option.none := hyk.trans hy
    have hL : Leaves o k' := ⟨fun p _ => by rw [hyk']; nofun, fun p c ha hp => by
      rw [← hl] at ha ⊢
      exact hm p c ha (hact ▸ hp)⟩
    exact .keeps hL (by rw [flushYielded_eq hyk']) (hak.trans hact') fun hsl => hs hsl.1
  have hint : (k.mapG (·.save)).g.IntTaken ↔ k.g.IntTaken := by
    rw [mapG_g, save_eq]
    rfl
  cases hh with
  | exit he =>
    cases he with
    | trap ht => exact hstay rfl rfl (fun _ _ _ _ => .refl ..) (mt hint.mpr ht.1)
    | user ht => exact hstay rfl rfl (fun _ _ _ _ => .refl ..) (mt hint.mpr ht.1)
    | sys ha hc hs =>
      have hni : ¬ k.g.IntTaken := mt hint.mpr (not_intTaken hc)
      cases hs with
      | passUp => exact hstay rfl rfl (fun _ _ _ _ => .refl ..) hni
      | sem => exact hstay rfl rfl (fun _ _ _ _ => .refl ..) hni
      | doioSem => exact hstay rfl rfl (fun _ _ _ _ => .refl ..) hni
      | doio _ _ _ hp =>
        refine hstay hp.yieldedProc hp.actProc (fun p c hap hne => ?_) hni
        refine hp.moved (k := k.mapG (·.save)) hap ?_
        rintro rfl
        exact hne ((save_actProc _).symm.trans ha)
      | _ => rcases hgo with hgo | hgo <;> cases hgo
  | finish ho hf =>
    have hpl := ho.placed h.save.toEntered
    refine hf.passes (ho.leaves h.save.toEntered hl hact') (hpl.act.trans hact') fun hr hs => ?_
    exact absurd ((ho.of_slice (hslice.mpr hs)).symm.trans hr) (by decide)

variable {o o' : Obs} {ev : Event} {slice : Prop}

/-- The event ends the time slice of the running process. -/
def EndsSlice (o : Obs) : Event → Prop
  | .exception saved status pending junk => (o.k.g.enter saved status pending junk).SliceTaken
  | .addressError saved status pending junk => (o.k.g.enter saved status pending junk).SliceTaken
  | _ => False

theorem Next.passes (hg : Good o) (hc : Contract o ev) (hn : Next o ev o')
    (hgo : o'.exit.ongoing) : Passes o (EndsSlice o ev) o' := by
  have hy := (hn.poised hg hc).yielded
  have hkeep : ∀ {f : Globals → Globals}, (f o.k.g).actProc = o.k.g.actProc →
      Passes o False ⟨o.k.mapG f, o.exit⟩ := fun hf =>
    .keeps (.refl hy) (by rw [flushYielded_eq hy]; rfl) hf id
  cases hn with
  | exception hcan hh =>
    have hready := (hg.stable (live_of_canTake hcan)).ready hcan hc
    have hpass := Handled.passes hready rfl rfl hh hgo
    exact hpass
  | resume he hd => exact .dispatch (.refl hy) hd
  | complete => exact hkeep rfl
  | store => exact hkeep rfl
  | storeState => exact hkeep rfl
  | storeSupport => exact hkeep rfl
  | addressError he herr hh =>
    have hpass := Handled.passes (hg.ready_fault he hc herr) rfl rfl hh hgo
    exact hpass

/-- The queue of a waiting process after a step. -/
theorem Passes.moved (h : Passes o slice o') (ha : Apart o.k.lists p c) (hp : o.k.g.actProc ≠ some p) :
    Moved p (o.k.lists.line c) (o'.k.lists.line c) := by
  cases h with
  | keeps hL hl =>
    dsimp only
    rw [hl]
    exact (hL.moved p c ha hp).trans (moved_flushYielded (hL.yielded p hp))
  | dispatch hL hd => exact (hL.moved p c ha hp).trans (hd.moved (hL.yielded p hp))

end Handlers

/-! ## Runs -/

section Runs

variable [Layout] {m m' : Mach Heap} {tr : List (Mach Heap × Event × Mach Heap)} {p : PcbId}
  {c : Line} {q : Queue}

/-- A process stays in a queue during a step. -/
def Stays (p : PcbId) (c : Line) (o o' : Obs) : Prop :=
  o'.exit.ongoing ∧ p ∈ o.k.lists.line c ∧ p ∈ o'.k.lists.line c

/-- A step of the machine during which `p` stays in the queue. -/
structure WaitStep (p : PcbId) (c : Line) (m : Mach Heap) (ev : Event) (m' : Mach Heap) : Prop where
  step : Step Contract m ev m'
  stays : Stays p c m.obs m'.obs

theorem Poised.notMem {k : Kernel View} (h : Poised k) (hp : p ∈ k.lists.line c) :
    k.g.actProc ≠ some p := fun e => (h.loose p e).notMem_line c hp

theorem Reached.waits (hr : Reached m) {ev : Event} (hs : WaitStep p c m ev m') :
    Reached m' ∧ (m.obs.k.lists.line c).Nodup ∧
      Moved p (m.obs.k.lists.line c) (m'.obs.k.lists.line c) := by
  have hn := (hr.next hs.step)
  have hst := hn.1.poised hr.good hs.step.2
  exact ⟨hn.2, hst.wf.line_nodup c, (hn.1.passes hr.good hs.step.2 hs.stays.1).moved
    (hst.wf.apart hs.stays.2.1) (hst.notMem hs.stays.2.1)⟩

omit [Layout] in
/-- The first process creates two children and its time slice ends: the second child waits behind
    the first one. -/
theorem second_child_waits :
    letI := sampleLayout
    ∃ tr m m', Execution sampleGlobals tr m ∧ WaitStep 2 (.ready .low) m sliceEvent m' ∧
      m.obs.k.lists.ready .low = [1, 2] := by
  let _ := sampleLayout
  obtain ⟨tr, m, htr, hP⟩ := Mach.exists_run_of_play Contract (boot sampleGlobals)
    [createLowEvent, createLowEvent] (P := fun _ m =>
      decide (m.obs.k.lists.ready .low = [1, 2] ∧ Contract m.obs sliceEvent) &&
        (m.next sliceEvent).any fun m' : Mach Heap =>
          decide (m'.exit.live ∧ m'.obs.k.lists.ready .low = [2, 0])) (by decide +kernel)
  obtain ⟨hready, hnext⟩ := Bool.and_eq_true_iff.mp hP
  obtain ⟨hready, hc⟩ := of_decide_eq_true hready
  obtain ⟨m', hm', hP'⟩ := (Option.any_eq_true _ _).mp hnext
  obtain ⟨hlive, hready'⟩ := of_decide_eq_true hP'
  refine ⟨tr, m, m', htr, ⟨⟨hm', hc⟩, .inl hlive, ?_, ?_⟩, hready⟩
  · change 2 ∈ m.obs.k.lists.ready .low
    rw [hready]
    simp
  · change 2 ∈ m'.obs.k.lists.ready .low
    rw [hready']
    simp

/-- While a process stays in a queue, those who are ahead of it can only leave. -/
theorem no_overtaking {g : Globals} (hg : PowerOn g)
    {tr₀ : List (Mach Heap × Event × Mach Heap)} (h₀ : Execution g tr₀ m)
    (h : Run (WaitStep p c) m tr m') :
    (ahead p (m'.obs.k.lists.line c)).Sublist (ahead p (m.obs.k.lists.line c)) := by
  suffices hall : Reached m' ∧
      (ahead p (m'.obs.k.lists.line c)).Sublist (ahead p (m.obs.k.lists.line c)) from hall.2
  refine h.invariant (I := fun a => Reached a ∧
    (ahead p (a.obs.k.lists.line c)).Sublist (ahead p (m.obs.k.lists.line c)))
    ⟨h₀.reached hg, .refl _⟩ ?_
  rintro a ev b ⟨ha, hsub⟩ hs
  obtain ⟨hb, hnd, hm⟩ := ha.waits hs
  exact ⟨hb, (hm.ahead_sublist hnd hs.stays.2.2).trans hsub⟩

omit [Layout] in
theorem no_overtaking_second :
    letI := sampleLayout
    ∃ (m m' : Mach Heap), m.obs.k.lists.ready .low = [1, 2] ∧
      (ahead 2 (m'.obs.k.lists.line (.ready .low))).Sublist
        (ahead 2 (m.obs.k.lists.line (.ready .low))) := by
  let _ := sampleLayout
  obtain ⟨tr, m, m', htr, hs, hready⟩ := second_child_waits
  exact ⟨m, m', hready, no_overtaking sampleGlobals_powerOn htr (Run.nil.snoc hs)⟩

/-- The processor goes to somebody of the queue, or, since no other comes before it, from the high
    queue to anybody else or at the end of a time slice. -/
def Turn (q : Queue) (x : Mach Heap × Event × Mach Heap) : Prop :=
  (∃ w ∈ x.1.obs.k.lists.ready q, x.2.2.k.g.actProc = some w) ∨
    q = .high ∧ (x.2.2.k.g.actProc ≠ x.1.k.g.actProc ∨ EndsSlice x.1.obs x.2.1)

/-- Whoever is dispatched while `p` waits has been ahead of it. -/
theorem Dispatch.passed {o : Obs} {j j' : Kernel View} {e : Exit} (hst : Poised o.k)
    (hL : Leaves o j) (hd : Dispatch j e j') (hp : p ∈ o.k.lists.ready q)
    (hpj : p ∈ j.lists.ready q) (hne : e.current ≠ some p)
    (hq : q = .high ∨ ∃ w ∈ o.k.lists.ready q, e.current = some w) :
    ∃ w ∈ ahead p (o.k.lists.ready q), e.current = some w := by
  -- the first of the queue, where it is this queue that is served
  have hfirst : ∀ {w ws}, j.lists.ready q = w :: ws → w ≠ p → w ∈ ahead p (o.k.lists.ready q) := by
    intro w ws hw hwp
    have hm := hL.moved p (.ready q) (hst.wf.apart (c := .ready q) hp)
      (hst.notMem (c := .ready q) hp)
    change Moved p (o.k.lists.ready q) (j.lists.ready q) at hm
    rw [hw] at hm hpj
    exact hm.first_ahead (hst.wf.ready_nodup q) hpj hwp
  cases hd with
  | @high w ws hh =>
    have hwp : w ≠ p := fun he => hne (congrArg some he)
    cases q with
    | high => exact ⟨w, hfirst hh hwp, rfl⟩
    | low =>
      -- nobody of the low queue has come to the high one
      obtain ⟨w', hw', he⟩ := hq.resolve_left (by decide)
      obtain rfl : w = w' := Option.some.inj he
      have hm := hL.moved w (.ready .high) (hst.wf.apart_ready hw' _)
        (hst.notMem (c := .ready .low) hw')
      have hhigh : w ∈ o.k.lists.ready .high := hm.mem (by
        change w ∈ j.lists.ready .high
        rw [hh]
        exact List.mem_cons_self)
      exact absurd (hst.wf.ready_unique w _ _ hw' hhigh) (by decide)
  | @low w ws hh hl =>
    cases q with
    | high => exact absurd hpj (by rw [hh]; simp)
    | low => exact ⟨w, hfirst hl fun he => hne (congrArg some he), rfl⟩
  | halt he => exact absurd hpj (by rw [he q]; simp)
  | wait he => exact absurd hpj (by rw [he q]; simp)
  | deadlock he => exact absurd hpj (by rw [he q]; simp)

/-- With every turn somebody who was ahead leaves the queue. -/
theorem Reached.turn (hr : Reached m) {ev : Event} (hs : WaitStep p (.ready q) m ev m')
    (ht : Turn q (m, ev, m')) :
    ∃ w ∈ ahead p (m.obs.k.lists.ready q), w ∉ m'.obs.k.lists.ready q := by
  obtain ⟨hn, hr'⟩ := hr.next hs.step
  obtain ⟨hgo, hp, hp'⟩ := hs.stays
  have hst := hn.poised hr.good hs.step.2
  have hpass := hn.passes hr.good hs.step.2 hgo
  generalize hslice : EndsSlice m.obs ev = slice at hpass
  generalize ho : m'.obs = o' at hpass
  cases hpass with
  | keeps hL hl he hns =>
    have hact : m'.k.g.actProc = m.k.g.actProc := by
      rw [← Mach.obs_g, ho]
      exact he
    rcases ht with ⟨w, hw, e⟩ | ⟨-, e | e⟩
    · exact absurd (hact.symm.trans e) (hst.notMem (c := .ready q) hw)
    · exact absurd hact e
    · exact absurd (hslice ▸ e) hns
  | @dispatch j j' x hL hd =>
    have hx : m'.exit = x := by rw [← Mach.obs_exit, ho]
    have hst' := hr'.good.stable (hgo.resolve_right (by rw [Mach.obs_exit, hx]; exact hd.ne_fault))
    have hcur : m'.k.g.actProc = x.current := hx ▸ hst'.current
    have hj : p ∈ j.lists.ready q := by
      refine (hd.moved (c := .ready q) (hL.yielded p (hst.notMem (c := .ready q) hp))).mem ?_
      rw [ho] at hp'
      exact hp'
    obtain ⟨w, hw, he⟩ := hd.passed hst hL hp hj (hcur ▸ hst'.notMem (c := .ready q) hp')
      (hcur ▸ ht.symm.imp_left And.left)
    refine ⟨w, hw, fun hm => hst'.notMem (c := .ready q) ?_ (hcur.trans he)⟩
    rw [ho]
    exact hm

/-- A process that stays in a ready queue lets no more than those pass who are ahead of it when it
    begins: so many times at most the processor goes to one of its queue, and, while it waits in the
    high queue, to anybody else, or a time slice ends. -/
theorem ready_wait_bounded {g : Globals} (hg : PowerOn g)
    {tr₀ : List (Mach Heap × Event × Mach Heap)} (h₀ : Execution g tr₀ m)
    (h : Run (WaitStep p (.ready q)) m tr m') :
    (turns (fun _ => Turn q) tr).card ≤ (ahead p (m.obs.k.lists.ready q)).length := by
  refine h.turns_le (I := fun _ a n => Reached a ∧ n = (ahead p (a.obs.k.lists.ready q)).length)
    ⟨h₀.reached hg, rfl⟩ ?_
  rintro tr a ev b n ⟨ha, rfl⟩ hs
  obtain ⟨hb, hnd, hm⟩ := ha.waits hs
  refine ⟨_, ⟨hb, rfl⟩, (hm.ahead_sublist hnd hs.stays.2.2).length_le, fun ht => ?_⟩
  obtain ⟨w, hw, hnot⟩ := ha.turn hs ht
  exact hm.ahead_lt hnd hs.stays.2.2 hw hnot

omit [Layout] in
theorem ready_wait_bounded_second :
    letI := sampleLayout
    ∃ (m m' : Mach Heap), m.obs.k.lists.ready .low = [1, 2] ∧
      (turns (fun _ => Turn .low) [(m, sliceEvent, m')]).card ≤
        (ahead 2 (m.obs.k.lists.ready .low)).length := by
  let _ := sampleLayout
  obtain ⟨tr, m, m', htr, hs, hready⟩ := second_child_waits
  exact ⟨m, m', hready, ready_wait_bounded sampleGlobals_powerOn htr (Run.nil.snoc hs)⟩

end Runs

end Rocm
