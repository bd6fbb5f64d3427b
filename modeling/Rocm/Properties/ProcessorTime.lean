import Rocm.Properties.Sample
import Rocm.Properties.Waiting

/-!
# The processor time of a process

`p_time` is brought up to date when `exception_handler` has dealt with the exception of the running
process, but GETTIME reads it before. What the processes have used is read off a run: a process has
the processor from the reading of the clock in `load_proc` to the one in `exception_handler`, and
keeps it where its exception is passed up.
-/

namespace Rocm

open Prog ProcTable Runs

/-- What each process has used of the processor, and when it was loaded last. -/
structure Usage where
  total : PcbId → Word
  since : PcbId → Word

/-- The last reading that the nucleus has taken. -/
def Clock.last (c : Clock) : Word := c.reading (c.next - 1)

/-- What a step adds. Its first reading is for the exception itself, the next one is taken when
    `exception_handler` has dealt with it, the last one in `load_proc`. What the nucleus takes up to
    the reading of `exception_handler` counts as the time of the process. A PCB that is free has used
    nothing. -/
def Usage.step (u : Usage) (o : Obs) (ev : Event) (o' : Obs) : Usage :=
  match ev with
  | .exception .. | .resume | .addressError .. =>
    let left := o.k.g.clock.reading (o.k.g.clock.next + 1)
    { total := fun q =>
        if q ∈ o.k.lists.free then 0
        else if o.k.g.actProc = some q ∧ ¬ o'.exit.keeps then
          u.total q + (left - u.since q)
        else u.total q
      since := fun q => if o'.exit = .ldst q then o'.k.g.clock.last else u.since q }
  | _ => u

section Steps

variable {k k' : Kernel View} {p q : PcbId} {r : EhAct} {e : Exit}

theorem wakeAll_clock (s : Word) (ws : List PcbId) :
    (k.wakeAll s ws).g.clock = k.g.clock := by
  induction ws generalizing k with
  | nil => rfl
  | cons w ws ih => exact ih.trans rfl

theorem PStep.clock {s : Word} (h : PStep s p k r k') : k'.g.clock = k.g.clock := by
  cases h <;> rfl

theorem VStep.clock {s : Word} {w : Option PcbId} (h : VStep s k w k') :
    k'.g.clock = k.g.clock := by
  cases h <;> rfl

theorem storeWord_clock (g : Globals) (a v : Word) : (g.storeWord a v).clock = g.clock := by
  unfold Globals.storeWord
  split <;> rfl

theorem deliver_clock (g : Globals) (w : Option PcbId) (v : Word) :
    (g.deliver w v).clock = g.clock := by
  cases w <;> rfl

theorem save_clock (g : Globals) : g.save.clock = g.clock := by
  unfold Globals.save
  split <;> rfl

theorem PStep.free {s : Word} (h : PStep s p k r k') : k'.lists.free = k.lists.free := by
  cases h with
  | block => rfl
  | wake => exact View.enqueue_free
  | take => rfl

theorem VStep.free {s : Word} {w : Option PcbId} (h : VStep s k w k') :
    k'.lists.free = k.lists.free := by
  cases h with
  | idle => rfl
  | block => rfl
  | wake => exact View.enqueue_free
  | give => rfl

theorem wakeAll_free (s : Word) (ws : List PcbId) :
    (k.wakeAll s ws).lists.free = k.lists.free := by
  induction ws generalizing k with
  | nil => rfl
  | cons w ws ih => exact ih.trans View.enqueue_free

theorem age_time (g : Globals) (p q : PcbId) : ((g.age p).pcb q).pTime =
    if q = p then (g.pcb q).pTime + (g.clock.reading g.clock.next - (g.pcb q).pTmUpdt)
    else (g.pcb q).pTime := by
  rw [Globals.age, setPcb_pcb]
  split
  · next e => rw [e]
  · rfl

variable [Layout]

theorem SysOutcome.clock {s : ProcState} (h : SysOutcome k p s r k') :
    k'.g.clock = k.g.clock := by
  cases h with
  | passeren _ _ _ hp => exact hp.clock
  | verhogen _ _ _ hv => exact hv.clock
  | doio _ _ _ _ _ hp => exact (storeWord_clock _ _ _).trans hp.clock
  | clockwait _ hp => exact hp.clock
  | _ => rfl

/-- The handlers of exceptions do not read the clock. -/
theorem Outcome.clock (h : Outcome k r k') : k'.g.clock = k.g.clock := by
  cases h with
  | tick =>
    exact wakeAll_clock (k := k.mapG fun g => { g with intervalTimer := PSECOND }) _ _
  | served _ _ hv => exact (deliver_clock _ _ _).trans hv.clock
  | sys _ _ hs => exact hs.clock
  | _ => rfl

/-- A PCB that stops being free belongs to a process that has used nothing. -/
theorem SysOutcome.born {s : ProcState} (h : SysOutcome k p s r k') (hq : q ∈ k.lists.free) :
    q ∈ k'.lists.free ∨ (k'.g.pcb q).pTime = 0 := by
  cases h with
  | @create c cs _ hf =>
    by_cases hc : q = c
    · subst hc
      refine .inr ?_
      rw [mapG_g, (Pcb.time_of_frame (setPS_frame _ _ _ _)).1]
      simp only [Kernel.create, Globals.create, setPcb_pcb, if_true]
      rfl
    · refine .inl ?_
      change q ∈ ((k.lists.popFree.pushChild p c).enqueue c s.arg2).free
      rw [View.enqueue_free]
      change q ∈ k.lists.free.tail
      rw [hf] at hq ⊢
      exact (List.mem_cons.mp hq).resolve_left hc
  | terminate => exact .inl (List.mem_append_right _ hq)
  | unknown => exact .inl (List.mem_append_right _ hq)
  | passeren _ _ _ hp => exact .inl (hp.free ▸ hq)
  | verhogen _ _ _ hv => exact .inl (hv.free ▸ hq)
  | doio _ _ _ _ _ hp => exact .inl (hp.free ▸ hq)
  | clockwait _ hp => exact .inl (hp.free ▸ hq)
  | _ => exact .inl hq

theorem Outcome.born (h : Outcome k r k') (hq : q ∈ k.lists.free) :
    q ∈ k'.lists.free ∨ (k'.g.pcb q).pTime = 0 := by
  cases h with
  | tick =>
    have hfree := wakeAll_free (k := k.mapG fun g => { g with intervalTimer := PSECOND })
      (Layout.toAddresses.semAddr .it) (k.lists.blocked (Layout.toAddresses.semAddr .it))
    refine .inl ?_
    change q ∈ (Kernel.wakeAll _ _ _).lists.free
    rw [hfree]
    exact hq
  | served _ _ hv => exact .inl (hv.free ▸ hq)
  | sys _ _ hs =>
    refine (hs.born hq).imp id fun h => ?_
    rw [mapG_g, (Pcb.time_of_frame (setPS_frame _ _ _ _)).1]
    exact h
  | die => exact .inl (List.mem_append_right _ hq)
  | _ => exact .inl hq

/-! ## Dispatching -/

/-- `load_proc` notes the time and leaves the accumulated ones. -/
theorem load_time (k : Kernel View) (p q : PcbId) :
    ((k.load p).g.pcb q).pTime = (k.g.pcb q).pTime ∧
      ((k.load p).g.pcb p).pTmUpdt = (k.load p).g.clock.last := by
  have hflush : k.flushYielded.g.pcb = k.g.pcb := flushYielded_pcb k
  constructor
  · change ((k.flushYielded.g.load p).pcb q).pTime = _
    rw [Globals.load, setPcb_pcb, hflush]
    split
    · next e => rw [e]
    · rfl
  · change ((k.flushYielded.g.load p).pcb p).pTmUpdt = _
    rw [Globals.load, setPcb_pcb, if_pos rfl]
    rfl

theorem Dispatch.time (h : Dispatch k e k') : (k'.g.pcb q).pTime = (k.g.pcb q).pTime ∧
    (e = .ldst q → (k'.g.pcb q).pTmUpdt = k'.g.clock.last) := by
  cases h with
  | high =>
    obtain ⟨htime, hupd⟩ := load_time (⟨k.lists.popReady .high, k.g⟩ : Kernel View) _ q
    exact ⟨htime, fun he => by cases he; exact hupd⟩
  | low =>
    obtain ⟨htime, hupd⟩ := load_time (⟨k.lists.popReady .low, k.g⟩ : Kernel View) _ q
    exact ⟨htime, fun he => by cases he; exact hupd⟩
  | wait =>
    refine ⟨congrArg (fun pcb => (pcb q).pTime) (flushYielded_pcb k), nofun⟩
  | halt => exact ⟨rfl, nofun⟩
  | deadlock => exact ⟨rfl, nofun⟩

/-- The time of the running process is added when its exception has been dealt with. -/
theorem Finish.time (h : Finish k r e k') :
    ((k'.g.pcb q).pTime = if k.g.actProc = some q then
        (k.g.pcb q).pTime + (k.g.clock.reading k.g.clock.next - (k.g.pcb q).pTmUpdt)
      else (k.g.pcb q).pTime) ∧
    (e = .ldst q → (k'.g.pcb q).pTmUpdt = k'.g.clock.last) := by
  have hif : ∀ {p : PcbId}, k.g.actProc = some p → (k.g.actProc = some q ↔ q = p) := fun hp => by
    rw [hp, Option.some.injEq, eq_comm]
  cases h with
  | none hn hd => rw [if_neg (by rw [hn]; exact nofun)]; exact hd.time
  | @«continue» p hp =>
    obtain ⟨htime, hupd⟩ := load_time (k.mapG (·.age p)) p q
    refine ⟨?_, fun he => by cases he; exact hupd⟩
    rw [htime, mapG_g, age_time]
    simp only [hif hp]
  | @renqueue p _ _ hp hd =>
    refine ⟨?_, hd.time.2⟩
    rw [hd.time.1, age_time]
    simp only [hif hp]
  | @nothing p _ _ _ hp _ _ hd =>
    refine ⟨?_, hd.time.2⟩
    rw [hd.time.1, mapG_g, age_time]
    simp only [hif hp]

end Steps

/-! ## Runs -/

variable [Layout]

/-- The PCBs hold what the processes have used up to their last period. -/
structure Accounts (u : Usage) (o : Obs) : Prop where
  total : ∀ q ∉ o.k.lists.free, u.total q = (o.k.g.pcb q).pTime
  since : ∀ p, o.k.g.actProc = some p → u.since p = (o.k.g.pcb p).pTmUpdt

/-- An exception that is not answered leaves the times alone. -/
theorem EarlyExit.time {k k' : Kernel View} {e : Exit} (h : EarlyExit k e k') (hgo : e.ongoing) :
    e.keeps ∧ k'.lists.free = k.lists.free ∧ ∀ q, (k'.g.pcb q).frame = (k.g.pcb q).frame := by
  cases h with
  | trap => exact ⟨rfl, rfl, fun _ => rfl⟩
  | user => exact ⟨rfl, rfl, fun q => setPS_frame _ _ _ q⟩
  | sys _ _ hs =>
    cases hs with
    | passUp => exact ⟨rfl, rfl, fun _ => rfl⟩
    | sem => exact ⟨rfl, rfl, fun _ => rfl⟩
    | doioSem => exact ⟨rfl, rfl, fun _ => rfl⟩
    | doio _ _ _ hp => exact ⟨rfl, hp.free, fun _ => hp.frame⟩
    | _ => rcases hgo with h | h <;> cases h

/-- The running process after a dispatch is the one that was loaded. -/
theorem Finish.current {k k' : Kernel View} {r : EhAct} {e : Exit} (h : Finish k r e k') {p : PcbId}
    (hp : e.current = some p) : e = .ldst p := by
  have hd : ∀ {k k'}, Dispatch k e k' → e = .ldst p := by
    rintro k k' (_ | _ | _ | _ | _) <;> cases hp <;> rfl
  cases h with
  | none _ h => exact hd h
  | «continue» => cases hp; rfl
  | renqueue _ h => exact hd h
  | nothing _ _ _ h => exact hd h

section Exception

variable {o : Obs} {u : Usage} {saved : ProcState} {status junk : Word} {pending : Fin 3 → Bool}
  {k' : Kernel View} {e : Exit}

omit [Layout] in
theorem caught_frame (q : PcbId) :
    ((o.k.caught saved status pending junk).g.pcb q).frame = (o.k.g.pcb q).frame := by
  rw [Kernel.caught, mapG_g, Globals.save]
  split
  · exact setPS_frame _ _ _ q
  · rfl

/-- The times after an exception that leaves the processor to its process, or stops the nucleus. -/
theorem EarlyExit.accounts (he : EarlyExit (o.k.caught saved status pending junk) e k')
    (hgo : e.ongoing) (h : Accounts u o) :
    Accounts (u.step o (.exception saved status pending junk) ⟨k', e⟩) ⟨k', e⟩ := by
  obtain ⟨hkeep, hfree, hpcb⟩ := he.time hgo
  have hact : k'.g.actProc = o.k.g.actProc := he.kept.1.trans caught_actProc
  have htime : ∀ q, (k'.g.pcb q).frame = (o.k.g.pcb q).frame := fun q =>
    (hpcb q).trans (caught_frame q)
  refine ⟨fun q hq => ?_, fun p hp => ?_⟩
  · have hq0 : q ∉ o.k.lists.free := by
      change q ∉ k'.lists.free at hq
      rwa [hfree] at hq
    simp only [Usage.step, hkeep, not_true_eq_false, and_false, if_false, if_neg hq0]
    rw [h.total q hq0]
    exact (Pcb.time_of_frame (htime q)).1.symm
  · have hne : e ≠ .ldst p := fun he => by
      rw [he] at hkeep
      cases hkeep
    simp only [Usage.step, if_neg hne]
    rw [h.since p (hact.symm.trans hp)]
    exact (Pcb.time_of_frame (htime p)).2.symm

/-- The times after an exception that ends with an `eh_act`. -/
theorem Outcome.accounts {r : EhAct} {k1 : Kernel View}
    (hready : Ready (o.k.mapG (·.enter saved status pending junk))) (hgood : Good ⟨k', e⟩)
    (ho : Outcome (o.k.caught saved status pending junk) r k1) (hf : Finish k1 r e k')
    (hgo : e.ongoing) (h : Accounts u o) :
    Accounts (u.step o (.exception saved status pending junk) ⟨k', e⟩) ⟨k', e⟩ := by
  have hpl := ho.placed hready.save.toEntered
  have hclock : k1.g.clock = (o.k.g.enter saved status pending junk).clock :=
    ho.clock.trans (save_clock _)
  have hact : k1.g.actProc = o.k.g.actProc := hpl.act.trans (caught_actProc (k := o.k))
  have hkeep := hf.not_keeps
  have hfree := hf.free
  refine ⟨fun q hq => ?_, fun p hp => ?_⟩
  · have hq1 : q ∉ k1.lists.free := by
      change q ∉ k'.lists.free at hq
      rwa [hfree] at hq
    change _ = (k'.g.pcb q).pTime
    rw [hf.time.1, hact, hclock]
    simp only [Usage.step, hkeep]
    by_cases hq0 : q ∈ o.k.lists.free
    · have hborn := (ho.born (q := q) hq0).resolve_left hq1
      have hne : o.k.g.actProc ≠ some q := fun e => (hready.loose q e).1 hq0
      rw [if_pos hq0, if_neg hne, hborn]
    · have hsame := Pcb.time_of_frame ((ho.frame hq0).trans (caught_frame q))
      rw [if_neg hq0, hsame.1, hsame.2, h.total q hq0]
      by_cases hq' : o.k.g.actProc = some q
      · rw [if_pos hq', if_pos ⟨hq', (by simp)⟩, h.since q hq']
        rfl
      · rw [if_neg hq', if_neg fun hh => hq' hh.1]
  · have hlive : e.live := hgo.resolve_right hf.ne_fault
    have he := hf.current ((hgood.stable hlive).current.symm.trans hp)
    simp only [Usage.step, he, if_true]
    exact (hf.time.2 he).symm

/-- The times after an exception; `u'` is what the step makes of `u`. -/
theorem Handled.accounts {u' : Usage} (hready : Ready (o.k.mapG (·.enter saved status pending junk)))
    (hgood : Good ⟨k', e⟩) (hu : u' = u.step o (.exception saved status pending junk) ⟨k', e⟩)
    (hh : Handled (o.k.mapG (·.enter saved status pending junk)) e k') (hgo : e.ongoing)
    (h : Accounts u o) : Accounts u' ⟨k', e⟩ := by
  subst hu
  cases hh with
  | exit he => exact EarlyExit.accounts he hgo h
  | finish ho hf => exact Outcome.accounts hready hgood ho hf hgo h

end Exception

theorem Next.accounts {o o' : Obs} {ev : Event} {u : Usage} (hg : Good o) (hc : Contract o ev)
    (hn : Next o ev o') (hgo : o'.exit.ongoing) (h : Accounts u o) :
    Accounts (u.step o ev o') o' := by
  have hgood := hn.good hg hc
  cases hn with
  | exception hcan hh =>
    exact hh.accounts ((hg.stable (live_of_canTake hcan)).ready hcan hc) hgood rfl hgo h
  | addressError he herr hh => exact hh.accounts (hg.ready_fault he hc herr) hgood rfl hgo h
  | @resume e k' he hd =>
    have hact : o.k.g.actProc = none :=
      (hg.stable (by rw [he]; rfl)).current.trans (by rw [he]; rfl)
    have hpart := hd.semPart (s := 0)
    simp only [Kernel.semPart, Prod.mk.injEq] at hpart
    refine ⟨fun q hq => ?_, fun p hp => ?_⟩
    · have hq0 : q ∉ o.k.lists.free := by rw [← hpart.2.2]; exact hq
      simp only [Usage.step, hact, reduceCtorEq, false_and, if_false, if_neg hq0]
      rw [h.total q hq0]
      exact hd.time.1.symm
    · have hcur : e.current = some p :=
        (hgood.stable (hgo.resolve_right hd.ne_fault)).current.symm.trans hp
      have hexit : e = .ldst p := by
        cases hd <;> cases hcur <;> rfl
      simp only [Usage.step, hexit, if_true]
      exact (hd.time.2 hexit).symm
  | complete => exact ⟨h.total, h.since⟩
  | store => exact ⟨h.total, h.since⟩
  | storeState => exact ⟨h.total, h.since⟩
  | storeSupport => exact ⟨h.total, h.since⟩

/-- What the processes have used in a run from boot. -/
def used (g : Globals) (tr : List (Mach Heap × Event × Mach Heap)) : Usage :=
  tr.foldl (fun u x => u.step x.1.obs x.2.1 x.2.2.obs)
    ⟨fun _ => 0, fun _ => (boot g : Mach Heap).k.g.clock.last⟩

theorem boot_accounts {g : Globals} (hg : PowerOn g) :
    Accounts (used g []) (boot g : Mach Heap).obs := by
  obtain ⟨k, -, -, hd⟩ := boot_dispatch hg
  have hobs := (boot_sim hg).obs
  have hb := boot_booted hg
  have hexit : (boot g : Mach Lists).exit = .ldst 0 := (boot_sim hg).exit ▸ boot_exit hg
  rw [hobs] at hb ⊢
  have htime := hd.time (q := 0)
  refine ⟨fun q hq => ?_, fun p hp => ?_⟩
  · have hq0 : q = 0 := by
      rw [hb.free] at hq
      by_contra hne
      have hmem : ∀ q : PcbId, q ≠ 0 → q ∈ (List.finRange MAXPROC).tail := by decide
      exact hq (hmem q hne)
    subst hq0
    have hzero : ((k.first Layout.toAddresses.instantiatorProc).g.pcb 0).pTime = 0 := by
      simp [Kernel.first, firstPcb]
    exact ((htime.1).trans hzero).symm
  · obtain rfl : 0 = p := Option.some.inj (hb.act.symm.trans hp)
    refine Eq.trans ?_ (htime.2 hexit).symm
    exact congrArg (fun o : Obs => o.k.g.clock.last) hobs

theorem run_accounts {g : Globals} (hg : PowerOn g) {tr : List (Mach Heap × Event × Mach Heap)}
    {m : Mach Heap} (h : Execution g tr m) (hgo : m.exit.ongoing) : Accounts (used g tr) m.obs := by
  induction h with
  | nil => exact boot_accounts hg
  | @snoc tr m ev m' hrun hs ih =>
    have hr := Execution.reached hg hrun
    have hacc := ih (ongoing_of_next hs.1)
    rw [used, List.foldl_append]
    exact (hr.next hs).1.accounts hr.good hs.2 hgo hacc

/-- What a GETTIME does. -/
theorem SysOutcome.of_getTime {k k' : Kernel View} {p : PcbId} {s : ProcState} {r : EhAct}
    (h : SysOutcome k p s r k') (hn : s.number = GETTIME) :
    r = .continue ∧ k' = k.mapG (·.setPS p (·.setReg regV0 (k.g.pcb p).pTime)) := by
  have hne : ∀ {w}, s.number = w → w ≠ GETTIME → False := fun h hw => hw (h ▸ hn)
  cases h with
  | value hv =>
    rw [Globals.sysResult, if_pos hn, Option.some.injEq] at hv
    exact ⟨rfl, by rw [hv]⟩
  | full h => exact (hne h (by decide)).elim
  | create h => exact (hne h (by decide)).elim
  | terminate h => exact (hne h (by decide)).elim
  | passeren h => exact (hne h (by decide)).elim
  | verhogen h => exact (hne h (by decide)).elim
  | doio h => exact (hne h (by decide)).elim
  | clockwait h => exact (hne h (by decide)).elim
  | yield h => exact (hne h (by decide)).elim
  | unknown h => exact absurd (by rw [hn]; simp [sysNumbers]) h

/-- What the process `p` has used of the processor in a run up to an exception in its end state. -/
def usedUpTo (g : Globals) (tr : List (Mach Heap × Event × Mach Heap)) (m : Mach Heap) (p : PcbId) :
    Word :=
  (used g tr).total p + (m.k.g.clock.reading m.k.g.clock.next - (used g tr).since p)

/-- GETTIME returns the time that the process had when it was loaded last. -/
theorem Reached.getTime {m : Mach Heap} (h : Reached m) {p : PcbId}
    (hp : m.exit.current = some p) {saved : ProcState} {status : Word}
    (hcall : KernelCallOf saved status) (hn : saved.number = GETTIME) (pending : Fin 3 → Bool)
    (junk : Word) : ∃ m', m.next (.exception saved status pending junk) = some m' ∧
      (m'.k.g.pcb p).pS.gpr regV0 = (m.k.g.pcb p).pTime := by
  have hne : ∀ {w}, saved.number = w → w ≠ GETTIME → False := fun h hw => hw (h ▸ hn)
  have hok : CallOk m.obs.k junk saved :=
    ⟨fun h => (hne h (by decide)).elim,
      fun h => h.elim (fun h => (hne h (by decide)).elim) fun h => (hne h (by decide)).elim,
      fun h => (hne h (by decide)).elim⟩
  obtain ⟨m', hm', -, hx | ⟨r, k1, hs, hf⟩⟩ := h.kernelCall hp hcall pending hok
  · have hnum := hx.number
    rw [hn] at hnum
    exact absurd hnum (by decide)
  · obtain ⟨rfl, rfl⟩ := hs.of_getTime hn
    have hact : m.obs.k.g.actProc = some p := (h.actProc (live_of_current hp)).trans hp
    refine ⟨m', hm', ?_⟩
    obtain ⟨-, hload⟩ := hf.of_continue ((caught_actProc (k := m.obs.k)).trans hact)
    change (m'.obs.k.g.pcb p).pS.gpr regV0 = (m.obs.k.g.pcb p).pTime
    have htime : ((m.obs.k.caught saved status pending junk).g.pcb p).pTime =
        (m.obs.k.g.pcb p).pTime := by
      rw [caught_pcb hact, if_pos rfl]
    rw [hload, ← htime]
    change (((Kernel.flushYielded _).g.load p).pcb p).pS.gpr regV0 = _
    rw [load_gpr, flushYielded_pcb]
    simp [Globals.setPS, setPcb_pcb]

/-- GETTIME returns what the process has used of the processor, up to the GETTIME itself, if and
    only if no time has passed since the process was loaded. -/
theorem getTime_iff {g : Globals} (hg : PowerOn g) {tr : List (Mach Heap × Event × Mach Heap)}
    {m : Mach Heap} (h : Execution g tr m) {p : PcbId} (hp : m.exit.current = some p)
    {saved : ProcState} {status : Word} (hcall : KernelCallOf saved status)
    (hn : saved.number = GETTIME) (pending : Fin 3 → Bool) (junk : Word) :
    ∃ m', m.next (.exception saved status pending junk) = some m' ∧
      ((m'.k.g.pcb p).pS.gpr regV0 = usedUpTo g tr m p ↔
        m.k.g.clock.reading m.k.g.clock.next = (used g tr).since p) := by
  have hr := Execution.reached hg h
  have hlive := live_of_current hp
  obtain ⟨m', hm', hv⟩ := hr.getTime hp hcall hn pending junk
  refine ⟨m', hm', ?_⟩
  have halive := ((hr.good.stable hlive).loose p ((hr.actProc hlive).trans hp)).1
  rw [hv, usedUpTo, (run_accounts hg h (.inl hlive)).total p halive]
  change (m.k.g.pcb p).pTime = (m.k.g.pcb p).pTime + _ ↔ _
  rw [left_eq_add, sub_eq_zero]

/-- A machine at power on whose clock advances with its first readings. -/
def stoppingGlobals : Globals :=
  { sampleGlobals with clock := ⟨fun n => BitVec.ofNat 32 (min n 2), 0⟩ }

omit [Layout] in
theorem stoppingGlobals_powerOn : PowerOn stoppingGlobals :=
  ⟨fun _ => rfl, fun _ => ⟨rfl, rfl, rfl⟩⟩

omit [Layout] in
/-- The first process uses its slice up, is dispatched again and calls GETTIME at once. -/
theorem getTime_iff_slice :
    letI := sampleLayout
    ∃ tr m, Execution stoppingGlobals tr m ∧ usedUpTo stoppingGlobals tr m 0 = 2 ∧
      m.k.g.clock.reading m.k.g.clock.next = (used stoppingGlobals tr).since 0 ∧
      ∃ m', m.next (.exception (sysState GETTIME 0 0 0) 0 (fun _ => false) 0) = some m' ∧
        ((m'.k.g.pcb 0).pS.gpr regV0 = usedUpTo stoppingGlobals tr m 0 ↔
          m.k.g.clock.reading m.k.g.clock.next = (used stoppingGlobals tr).since 0) := by
  let _ := sampleLayout
  obtain ⟨tr, m, htr, hP⟩ := Mach.exists_run_of_play Contract (boot stoppingGlobals) [sliceEvent]
    (P := fun tr m => decide (m.exit.current = some 0 ∧ usedUpTo stoppingGlobals tr m 0 = 2 ∧
      m.k.g.clock.reading m.k.g.clock.next = (used stoppingGlobals tr).since 0))
    (by decide +kernel)
  obtain ⟨hcur, hused, hsince⟩ := of_decide_eq_true hP
  exact ⟨tr, m, htr, hused, hsince, getTime_iff stoppingGlobals_powerOn htr hcur
    (sysState_call (by decide) _ _ _) rfl _ _⟩

/-- A machine at power on whose clock advances by one with each reading. -/
def tickingGlobals : Globals :=
  { sampleGlobals with clock := ⟨fun n => BitVec.ofNat 32 n, 0⟩ }

omit [Layout] in
/-- The first process calls GETTIME some time after it was loaded: it is told nothing of it. -/
theorem getTime_short :
    letI := sampleLayout
    let m : Mach Heap := boot tickingGlobals
    m.exit.current = some 0 ∧
      ∃ m', m.next (.exception (sysState GETTIME 0 0 0) 0 (fun _ => false) 0) = some m' ∧
        (m'.k.g.pcb 0).pS.gpr regV0 = 0 ∧ usedUpTo tickingGlobals [] m 0 ≠ 0 := by
  let _ := sampleLayout
  have hplay : ((boot tickingGlobals : Mach Heap).next
      (.exception (sysState GETTIME 0 0 0) 0 (fun _ => false) 0)).any
        (fun m' => (m'.k.g.pcb 0).pS.gpr regV0 = 0) = true := by decide +kernel
  obtain ⟨m', hm', hv⟩ := (Option.any_eq_true _ _).mp hplay
  exact ⟨by decide +kernel, m', hm', of_decide_eq_true hv, by decide +kernel⟩

end Rocm
