import Rocm.Properties.Sample

/-!
# The time slice

The machine with the time that the running process has been granted since it was dispatched from a
ready queue, and with what remains on the processor-local timer. Every answer CONTINUE loads the
timer anew.
-/

namespace Rocm

open Prog ProcTable Runs

/-- The machine, what remains on the timer, and the time the running process has had since it was
    taken from a ready queue. -/
structure Timed where
  m : Mach Heap
  left : Nat
  ran : Nat

/-- A process of low priority has the processor. -/
def Timed.low (t : Timed) : Prop :=
  t.m.exit.ongoing ∧ ∃ p, t.m.k.g.actProc = some p ∧ (t.m.k.g.pcb p).pPrio = PROCESS_PRIO_LOW

instance (t : Timed) : Decidable t.low := inferInstanceAs (Decidable (_ ∧ _))

variable [Layout]

/-- One time slice, on the timer. -/
def slice : Nat := (TIMESLICE * Layout.toAddresses.timescale).toNat

/-- `exception_handler` answers with CONTINUE while a process runs. -/
def Mach.continues (m : Mach Heap) : Event → Bool
  | .exception saved status pending junk =>
    m.exit.running && match handleException (m.k.mapG (·.enter saved status pending junk)) with
      | .ok r _ => r = .continue
      | .error _ _ => false
  | _ => false

/-- An event after the process has run for the time `e`, and the machine `m` after it. The timer is
    loaded with every `LDST` and `WAIT`, and goes on with an `LDCXT` and through an address error of
    the nucleus. -/
def Timed.after (t : Timed) (ev : Event) (e : Nat) (m : Mach Heap) : Timed :=
  match ev with
  | .exception .. | .resume | .addressError .. =>
    if m.exit.keeps then ⟨m, t.left - e, t.ran + e⟩
    else ⟨m, m.k.g.timer.toNat, if t.m.continues ev then t.ran + e else 0⟩
  | _ => { t with m := m }

/-- A step of the timed machine: a process of low priority runs no longer than the timer lets it. -/
structure TimedStep (t : Timed) (ev : Event × Nat) (t' : Timed) : Prop where
  step : Step Contract t.m ev.1 t'.m
  timer : t.low → ev.2 ≤ t.left
  after : t' = t.after ev.1 ev.2 t'.m

/-- The machine after boot. -/
def Timed.boot (g : Globals) : Timed :=
  ⟨Rocm.boot g, (Rocm.boot g : Mach Heap).k.g.timer.toNat, 0⟩

/-- What the running process has been granted and what the timer still grants it are no more than
    one slice. -/
def WithinSlice (t : Timed) : Prop := t.low → t.ran + t.left ≤ slice

/-- An exception of a process of low priority that is answered with CONTINUE comes before the
    process has used any of its slice. -/
def FreshContinue (t : Timed) (ev : Event × Nat) : Prop :=
  t.low → t.m.continues ev.1 → t.ran + ev.2 = 0

section Timer

variable {k k' : Kernel View} {p : PcbId} {r : EhAct} {e : Exit}

theorem Dispatch.timer (h : Dispatch k (.ldst p) k') : k'.g.timer.toNat = slice := by
  cases h <;> rfl

theorem Finish.timer (h : Finish k r (.ldst p) k') : k'.g.timer.toNat = slice := by
  cases h with
  | none _ hd => exact hd.timer
  | «continue» => rfl
  | renqueue _ hd => exact hd.timer
  | nothing _ _ _ hd => exact hd.timer

theorem EarlyExit.ne_ldst (h : EarlyExit k e k') : e ≠ .ldst p := by
  cases h with
  | trap => nofun
  | user => nofun
  | sys _ _ hs => cases hs <;> nofun

/-- A process that is loaded has a whole slice on the timer; where the timer goes on, the process
    keeps the processor and its priority. -/
theorem Handled.timer (h : Handled k e k') : (∀ p, e = .ldst p → k'.g.timer.toNat = slice) ∧
    (e.keeps → k'.g.actProc = k.g.actProc ∧ ∀ q, (k'.g.pcb q).pPrio = (k.g.pcb q).pPrio) := by
  cases h with
  | exit he =>
    obtain ⟨hact, hprio⟩ := he.kept
    exact ⟨fun _ hl => absurd hl he.ne_ldst, fun _ => ⟨hact.trans (save_actProc k.g), fun q =>
      (hprio q).trans ((sameTags_save k.g).prio q)⟩⟩
  | finish _ hf =>
    refine ⟨?_, fun hk => absurd hk (by rw [hf.not_keeps]; nofun)⟩
    rintro p rfl
    exact hf.timer

end Timer

variable {t t' : Timed} {ev : Event × Nat} {tr : List (Timed × (Event × Nat) × Timed)}

/-- The nucleus has been entered. -/
def Event.enters : Event → Bool
  | .exception .. => true
  | .resume => true
  | .addressError .. => true
  | _ => false

/-- A step that leaves a process with the processor dispatched it, or left it with the timer going on,
    or did not enter the nucleus. -/
theorem Next.low_cases {o o' : Obs} {e : Event} (h : Good o) (hc : Contract o e) (hn : Next o e o')
    {p : PcbId} (hgo : o'.exit.ongoing) (hp : o'.k.g.actProc = some p) :
    e.enters = true ∧ (o'.exit = .ldst p ∧ o'.k.g.timer.toNat = slice ∨
        o'.exit.keeps ∧ o.exit.ongoing ∧ o.k.g.actProc = some p ∧
          (o'.k.g.pcb p).pPrio = (o.k.g.pcb p).pPrio) ∨
      e.enters = false ∧ o'.exit = o.exit ∧ o'.k.g.actProc = o.k.g.actProc ∧
        o'.k.g.pcb = o.k.g.pcb := by
  have hgood := hn.good h hc
  -- who has the processor after the nucleus has been entered
  have hexit : o'.exit.keeps = true ∨ o'.exit = .ldst p := by
    rcases hgo with hl | he
    · have hcur : o'.exit.current = some p := (hgood.stable hl).current.symm.trans hp
      cases he : o'.exit <;> rw [he] at hcur <;> cases hcur <;> first | exact .inl rfl | exact .inr rfl
    · exact .inl (by rw [he]; rfl)
  have hhandled : ∀ {saved status pending junk e' k'}, o.exit.ongoing → o' = ⟨k', e'⟩ →
      Handled (o.k.mapG (·.enter saved status pending junk)) e' k' →
      o'.exit = .ldst p ∧ o'.k.g.timer.toNat = slice ∨ o'.exit.keeps ∧ o.exit.ongoing ∧
        o.k.g.actProc = some p ∧ (o'.k.g.pcb p).pPrio = (o.k.g.pcb p).pPrio := by
    rintro saved status pending junk e' k' hon rfl hh
    obtain ⟨htimer, hkeep⟩ := hh.timer
    rcases hexit with hk | hl
    · exact .inr ⟨hk, hon, (hkeep hk).1.symm.trans hp, (hkeep hk).2 p⟩
    · exact .inl ⟨hl, htimer p hl⟩
  cases hn with
  | exception hcan hh => exact .inl ⟨rfl, hhandled (.inl (live_of_canTake hcan)) rfl hh⟩
  | addressError he _ hh => exact .inl ⟨rfl, hhandled (.inr he) rfl hh⟩
  | resume he hd =>
    refine .inl ⟨rfl, .inl ?_⟩
    rcases hexit with hk | hl
    · cases hd <;> cases hk
    · change _ = Exit.ldst p at hl
      subst hl
      exact ⟨rfl, hd.timer⟩
  | complete => exact .inr ⟨rfl, rfl, rfl, rfl⟩
  | store => exact .inr ⟨rfl, rfl, rfl, rfl⟩
  | storeState => exact .inr ⟨rfl, rfl, rfl, rfl⟩
  | storeSupport => exact .inr ⟨rfl, rfl, rfl, rfl⟩

/-- A process that is answered with CONTINUE goes on with a new timer. -/
theorem Mach.continues_spec {m m' : Mach Heap} (h : Reached m) {e : Event}
    (hs : Step Contract m e m') (hc : m.continues e) {p : PcbId} (hp : m.exit.current = some p) :
    m'.exit = .ldst p ∧ m'.k.g.timer.toNat = slice ∧
      (m'.k.g.pcb p).pPrio = (m.k.g.pcb p).pPrio := by
  cases e with
  | exception saved status pending junk =>
    simp only [Mach.continues, Bool.and_eq_true] at hc
    have hc := hc.2
    split at hc
    · next r k1 hk =>
      obtain rfl : r = .continue := of_decide_eq_true hc
      obtain ⟨ho, hact, m1, hm1, hf⟩ := h.answered (canTake_of_current hp) hs.2 hk
      obtain rfl : m1 = m' := Option.some.inj (hm1.symm.trans hs.1)
      have hst := h.good.stable (live_of_current hp)
      have hactp : m.obs.k.g.actProc = some p := hst.current.trans hp
      obtain ⟨he, hk'⟩ := hf.of_continue (hact.trans hactp)
      have hprio := ho.prio (q := p) (hst.loose p hactp).1
      rw [caught_sameTags.prio] at hprio
      refine ⟨he, (he ▸ hf : Finish _ _ (.ldst p) _).timer, ?_⟩
      change (m1.obs.k.g.pcb p).pPrio = _
      rw [hk', Kernel.load_prio, mapG_g, age_prio]
      exact hprio
    · cases hc
  | _ => cases hc

/-! ## Runs of the timed machine -/

theorem Timed.after_of_enters {e : Event} (h : e.enters = true) (n : Nat) (m : Mach Heap) :
    t.after e n m = if m.exit.keeps then ⟨m, t.left - n, t.ran + n⟩
      else ⟨m, m.k.g.timer.toNat, if t.m.continues e then t.ran + n else 0⟩ := by
  cases e <;> first | rfl | cases h

theorem Timed.after_of_not_enters {e : Event} (h : e.enters = false) (n : Nat) (m : Mach Heap) :
    t.after e n m = { t with m := m } := by
  cases e <;> first | rfl | cases h

/-- Who is answered with CONTINUE had the processor. -/
theorem Mach.continues_current {m : Mach Heap} {e : Event} (h : m.continues e) :
    ∃ q, m.exit.current = some q := by
  cases e with
  | exception =>
    simp only [Mach.continues, Bool.and_eq_true] at h
    cases hexit : m.exit <;> rw [hexit] at h <;> first | exact ⟨_, rfl⟩ | cases h.1
  | _ => cases h

/-- A step keeps within the slice if a CONTINUE comes only to a fresh process. -/
theorem TimedStep.within (hr : Reached t.m) (hs : TimedStep t ev t') (ht : WithinSlice t)
    (hf : FreshContinue t ev) : WithinSlice t' := by
  rintro ⟨hgo, p, hp, hprio⟩
  have hnext := (hr.next hs.step).1
  have hafter := hs.after
  rcases hnext.low_cases hr.good hs.step.2 hgo hp with ⟨hen, ⟨he, htimer⟩ |
    ⟨hkeep, hon, hcur, hsame⟩⟩ | ⟨hen, he, hact, hpcb⟩
  · -- `p` has been dispatched or goes on
    have hexit : t'.m.exit = .ldst p := he
    have hleft : t' = ⟨t'.m, t'.m.k.g.timer.toNat,
        if t.m.continues ev.1 then t.ran + ev.2 else 0⟩ := by
      refine hafter.trans ((Timed.after_of_enters hen _ _).trans ?_)
      rw [hexit]
      rfl
    have hran : t'.ran = 0 := by
      rw [hleft]
      change (if _ then _ else 0) = 0
      split
      · next hc =>
        obtain ⟨q, hq⟩ := Mach.continues_current hc
        obtain ⟨he', -, hprio'⟩ := Mach.continues_spec hr hs.step hc hq
        obtain rfl : q = p := by
          have := he'.symm.trans he
          cases this
          rfl
        have hl := live_of_current hq
        have hactq : t.m.k.g.actProc = some q := (hr.actProc hl).trans hq
        exact hf ⟨.inl hl, q, hactq, hprio'.symm.trans hprio⟩ hc
      · rfl
    have hl : t'.left = slice := by rw [hleft]; exact htimer
    omega
  · -- `p` keeps the processor, and the timer goes on
    have hlow : t.low := ⟨hon, p, hcur, hsame.symm.trans hprio⟩
    have heq : t' = ⟨t'.m, t.left - ev.2, t.ran + ev.2⟩ := by
      refine hafter.trans ((Timed.after_of_enters hen _ _).trans ?_)
      exact if_pos hkeep
    have hle := hs.timer hlow
    have hsum := ht hlow
    rw [heq]
    change t.ran + ev.2 + (t.left - ev.2) ≤ slice
    omega
  · -- the nucleus has not been entered
    have hlow : t.low := by
      refine ⟨?_, p, hact.symm.trans hp, ?_⟩
      · rw [← Mach.obs_exit, ← he]
        exact hgo
      · rw [← hprio]
        exact congrArg (fun pcb => (pcb p).pPrio) hpcb.symm
    have heq : t' = { t with m := t'.m } := hafter.trans (Timed.after_of_not_enters hen _ _)
    rw [heq]
    exact ht hlow

/-- A step that keeps within the slice was no CONTINUE of a process that had used some of it. -/
theorem TimedStep.fresh (hr : Reached t.m) (hs : TimedStep t ev t') (ht' : WithinSlice t') :
    FreshContinue t ev := by
  rintro ⟨-, p, hact, hprio⟩ hc
  obtain ⟨q, hq⟩ := Mach.continues_current hc
  obtain rfl : q = p := Option.some.inj
    ((hq.symm.trans (hr.actProc (live_of_current hq)).symm).trans hact)
  obtain ⟨he, htimer, hsame⟩ := Mach.continues_spec hr hs.step hc hq
  have hlive : t'.m.exit.live := by rw [he]; rfl
  have hact' : t'.m.k.g.actProc = some q :=
    ((hr.next hs.step).2.actProc hlive).trans (by rw [he]; rfl)
  have hsum := ht' ⟨.inl hlive, q, hact', hsame.trans hprio⟩
  have hen : ev.1.enters = true := by
    cases h : ev.1 with
    | exception => rfl
    | _ => rw [h] at hc; cases hc
  have hev : t.after ev.1 ev.2 t'.m = ⟨t'.m, t'.m.k.g.timer.toNat, t.ran + ev.2⟩ := by
    rw [Timed.after_of_enters hen, he, hc]
    rfl
  rw [hs.after, hev] at hsum
  change t.ran + ev.2 + t'.m.k.g.timer.toNat ≤ slice at hsum
  omega

theorem boot_within {g : Globals} (hg : PowerOn g) : WithinSlice (Timed.boot g) := by
  rintro -
  obtain ⟨k, -, -, hd⟩ := boot_dispatch hg
  have hsim := boot_sim hg
  rw [← hsim.exit, boot_exit hg] at hd
  have htimer : (Rocm.boot g : Mach Lists).k.g.timer.toNat = slice := hd.timer
  change 0 + (Rocm.boot g : Mach Heap).k.g.timer.toNat ≤ slice
  rw [hsim.sim.globals]
  omega

theorem timed_reached {g : Globals} (hg : PowerOn g) (h : Run TimedStep (Timed.boot g) tr t) :
    Reached t.m :=
  h.invariant (I := fun t => Reached t.m) (boot_reached hg) fun ha hs => (ha.next hs.step).2

/-- In a run no process of low priority is granted more than one slice between its dispatch from
    the ready queue and the end of its slice if and only if every exception of such a process that
    is answered with CONTINUE comes before it has used any of its slice. -/
theorem within_slice_iff {g : Globals} (hg : PowerOn g) (h : Run TimedStep (Timed.boot g) tr t) :
    (WithinSlice t ∧ ∀ x ∈ tr, WithinSlice x.1) ↔ ∀ x ∈ tr, FreshContinue x.1 x.2.1 := by
  induction h with
  | nil => simp [boot_within hg]
  | @snoc tr t ev t' hrun hs ih =>
    have hr := timed_reached hg hrun
    simp only [List.mem_append, List.mem_singleton, or_imp, forall_and, forall_eq]
    constructor
    · rintro ⟨ht', htr, ht⟩
      exact ⟨ih.mp ⟨ht, htr⟩, hs.fresh hr ht'⟩
    · rintro ⟨hf, hft⟩
      obtain ⟨ht, htr⟩ := ih.mpr hf
      exact ⟨hs.within hr ht hft, htr, ht⟩

/-- The timed machine after an event, if it can occur. -/
def Timed.next (t : Timed) (ev : Event × Nat) : Option Timed :=
  if t.low → ev.2 ≤ t.left then (t.m.next ev.1).map (t.after ev.1 ev.2) else none

theorem Timed.after_m (t : Timed) (e : Event) (n : Nat) (m : Mach Heap) : (t.after e n m).m = m := by
  cases hen : e.enters with
  | false => rw [Timed.after_of_not_enters hen]
  | true =>
    rw [Timed.after_of_enters hen]
    split <;> rfl

theorem Timed.step_of_next (h : t.next ev = some t') (hc : Contract t.m.obs ev.1) :
    TimedStep t ev t' := by
  rw [Timed.next, Option.ite_none_right_eq_some] at h
  obtain ⟨htimer, h⟩ := h
  obtain ⟨m, hm, rfl⟩ := Option.map_eq_some_iff.mp h
  have he := Timed.after_m t ev.1 ev.2 m
  exact ⟨by rw [he]; exact ⟨hm, hc⟩, htimer, by rw [he]⟩

/-- A GETTIME. -/
def getTimeEvent : Event := sysEvent GETTIME 0 0 0

omit [Layout] in
/-- The first process calls GETTIME at once; then it runs for three ticks, and its slice ends. -/
theorem within_slice_iff_getTime :
    letI := sampleLayout
    ∃ t1 t2, (Timed.boot sampleGlobals).m.continues getTimeEvent ∧
      (Timed.boot sampleGlobals).low ∧ t1.low ∧
      ((WithinSlice t2 ∧ ∀ x ∈ [(Timed.boot sampleGlobals, (getTimeEvent, 0), t1),
          (t1, (sliceEvent, 3), t2)], WithinSlice x.1) ↔
        ∀ x ∈ [(Timed.boot sampleGlobals, (getTimeEvent, 0), t1), (t1, (sliceEvent, 3), t2)],
          FreshContinue x.1 x.2.1) := by
  let _ := sampleLayout
  have hplay : ((Timed.boot sampleGlobals).next (getTimeEvent, 0)).any fun t1 : Timed =>
      (t1.next (sliceEvent, 3)).isSome &&
        decide (Contract (boot sampleGlobals : Mach Heap).obs getTimeEvent ∧
          (Timed.boot sampleGlobals).m.continues getTimeEvent ∧ (Timed.boot sampleGlobals).low ∧
          t1.low ∧ Contract t1.m.obs sliceEvent) := by decide +kernel
  obtain ⟨t1, h1, hP⟩ := (Option.any_eq_true _ _).mp hplay
  obtain ⟨h2, hP⟩ := Bool.and_eq_true_iff.mp hP
  obtain ⟨hc, hcont, hlow, hlow1, hc1⟩ := of_decide_eq_true hP
  obtain ⟨t2, h2⟩ := Option.isSome_iff_exists.mp h2
  have hrun := (Run.nil.snoc (Timed.step_of_next h1 hc)).snoc (Timed.step_of_next h2 hc1)
  exact ⟨t1, t2, hcont, hlow, hlow1, within_slice_iff sampleGlobals_powerOn hrun⟩

omit [Layout] in
/-- The first process runs for one tick and calls GETTIME: it has a whole slice before it again. -/
theorem slice_exceeded :
    letI := sampleLayout
    ∃ tr t, Run TimedStep (Timed.boot sampleGlobals) tr t ∧ ¬ WithinSlice t := by
  let _ := sampleLayout
  have hr := boot_reached sampleGlobals_powerOn
  have hplay : ((Timed.boot sampleGlobals).next (getTimeEvent, 1)).isSome ∧
      Contract (boot sampleGlobals : Mach Heap).obs getTimeEvent ∧ (Timed.boot sampleGlobals).low ∧
      (Timed.boot sampleGlobals).m.continues getTimeEvent := by decide +kernel
  obtain ⟨hsome, hc, hlow, hcont⟩ := hplay
  obtain ⟨t, ht⟩ := Option.isSome_iff_exists.mp hsome
  have hs := Timed.step_of_next ht hc
  exact ⟨_, t, Run.nil.snoc hs, fun hw => absurd (hs.fresh hr hw hlow hcont) (by simp)⟩

end Rocm
