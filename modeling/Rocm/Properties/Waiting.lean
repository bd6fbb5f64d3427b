import Rocm.Properties.Steps

/-!
# Processes that do not run

What a step does to a process that does not run: nothing, but for the completion interrupt of the
device it waits for and for the status bits set when it is loaded.
-/

namespace Rocm

open Prog ProcTable Runs

/-- The state as `load_proc` leaves it. -/
def ProcState.loaded (s : ProcState) (prio : Word) : ProcState :=
  { s with status := loadStatus prio s.status }

section Untouched

variable {k k' k'' : Kernel View} {act q : PcbId} {s : Word} {r : EhAct}

theorem wake_pS {w : PcbId} : ((k.wake s w).g.pcb q).pS = (k.g.pcb q).pS := by
  simp only [Kernel.wake, Globals.unblock, setPcb_pcb]
  split
  · next e => rw [e]
  · rfl

theorem block_pS {p : PcbId} : ((k.block s p).g.pcb q).pS = (k.g.pcb q).pS := by
  simp only [Kernel.block, Globals.block, setPcb_pcb]
  split
  · next e => rw [e]
  · rfl

theorem setPS_pS_ne {g : Globals} {f : ProcState → ProcState} (h : q ≠ act) :
    ((g.setPS act f).pcb q).pS = (g.pcb q).pS := by
  rw [Globals.setPS, setPcb_pcb, if_neg h]

theorem wakeAll_pS (ws : List PcbId) : ((k.wakeAll s ws).g.pcb q).pS = (k.g.pcb q).pS := by
  induction ws generalizing k with
  | nil => rfl
  | cons w ws ih => exact ih.trans wake_pS

theorem kill_pS (S : List PcbId) : ((k.kill S).g.pcb q).pS = (k.g.pcb q).pS := by
  simp only [Kernel.kill, Globals.kill]
  split <;> rfl

theorem flushYielded_pcb (k : Kernel View) : k.flushYielded.g.pcb = k.g.pcb := by
  unfold Kernel.flushYielded
  split <;> rfl

variable [Layout]

/-- `q` waits for the same devices, in the same state. -/
structure Untouched (q : PcbId) (k k' : Kernel View) : Prop where
  waits : ∀ d, q ∈ k'.lists.blocked (Layout.toAddresses.semAddr (.dev d)) ↔
    q ∈ k.lists.blocked (Layout.toAddresses.semAddr (.dev d))
  state : (k'.g.pcb q).pS = (k.g.pcb q).pS

theorem Untouched.trans (h : Untouched q k k') (h' : Untouched q k' k'') : Untouched q k k'' :=
  ⟨fun d => (h'.waits d).trans (h.waits d), h'.state.trans h.state⟩

theorem Untouched.refl (q : PcbId) (k : Kernel View) : Untouched q k k := ⟨fun _ => .rfl, rfl⟩

theorem Untouched.setPS (h : q ≠ act) (f : ProcState → ProcState) :
    Untouched q k (k.mapG (·.setPS act f)) := ⟨fun _ => .rfl, setPS_pS_ne h⟩

/-- The result of a V reaches another process. -/
theorem Untouched.deliver {w : Option PcbId} (h : w ≠ some q) (d : SubDev) (v cmd : Word) :
    Untouched q k (k.mapG fun g => (g.deliver w v).command d cmd) := by
  refine ⟨fun _ => .rfl, ?_⟩
  cases w with
  | none => rfl
  | some w =>
    exact setPS_pS_ne (g := k.g) (f := (·.setReg regV0 v)) fun e => h (congrArg some e.symm)

theorem Untouched.block (h : q ≠ act) : Untouched q k (k.block s act) := by
  refine ⟨fun d => ?_, block_pS⟩
  refine View.mem_pushBlocked.trans ⟨fun hq => hq.resolve_right fun e => h e.1, .inl⟩

theorem Untouched.wake {w : PcbId} {ws : List PcbId} (hs : k.lists.blocked s = w :: ws)
    (h : q ≠ w ∨ ∀ d, Layout.toAddresses.semAddr (.dev d) ≠ s) : Untouched q k (k.wake s w) := by
  refine ⟨fun d => ?_, wake_pS⟩
  by_cases e : Layout.toAddresses.semAddr (.dev d) = s
  · rw [e, wake_blocked k hs, hs, List.mem_cons]
    have hne := h.resolve_right fun hd => hd d e
    exact ⟨.inr, fun hq => hq.resolve_left hne⟩
  · rw [wake_blocked_ne e]

theorem Untouched.kill {S : List PcbId} (h : q ∉ S) : Untouched q k (k.kill S) := by
  refine ⟨fun d => ?_, kill_pS S⟩
  exact ⟨fun hq => (List.mem_filter.mp hq).1, fun hq => List.mem_filter.mpr ⟨hq, by simpa using h⟩⟩

theorem PStep.untouched (hdev : ∀ d, DevInv k d) (h : q ≠ act) (hp : PStep s act k r k') :
    Untouched q k k' := by
  cases hp with
  | block => exact .block h
  | wake hne hs =>
    -- a semaphore of a device that is not 0 has nobody in its queue
    refine .wake hs (.inr fun d e => ?_)
    rw [← e] at hne hs
    rw [(hdev d).one ((hdev d).range.resolve_left hne)] at hs
    cases hs
  | take => exact ⟨fun _ => .rfl, rfl⟩

theorem VStep.untouched {w : Option PcbId} (hs : ∀ d, Layout.toAddresses.semAddr (.dev d) ≠ s)
    (h : k.g.actProc ≠ some q) (hv : VStep s k w k') : Untouched q k k' := by
  cases hv with
  | idle => exact .refl q k
  | block _ hact => exact .block fun e => h (e ▸ hact)
  | wake _ hq => exact .wake hq (.inr hs)
  | give => exact ⟨fun _ => .rfl, rfl⟩

theorem tick_untouched (q : PcbId) (k : Kernel View) : Untouched q k k.tick := by
  refine ⟨fun d => ?_, wakeAll_pS (k := k.mapG fun g => { g with intervalTimer := PSECOND }) _⟩
  have hpart := wakeAll_semPart (semIt_ne d) (k.lists.blocked Layout.toAddresses.semIt)
    (k := k.mapG fun g => { g with intervalTimer := PSECOND })
  simp only [Kernel.semPart, Prod.mk.injEq] at hpart
  exact iff_of_eq (congrArg (q ∈ ·) hpart.2.1)

/-- A syscall of another process. -/
theorem SysOutcome.untouched {st : ProcState} (hdev : ∀ d, DevInv k d) (hc : CallOk k k.g.junk st)
    (hact : k.g.actProc = some act) (h : q ≠ act) (hq : q ∉ k.lists.free)
    (hq' : q ∉ k'.lists.free) (ho : SysOutcome k act st r k') : Untouched q k k' := by
  have hnot : k.g.actProc ≠ some q := fun e => h (Option.some.inj (e.symm.trans hact))
  cases ho with
  | value => exact .setPS h _
  | full => exact .refl q k
  | @create c cs _ hf =>
    have hne : q ≠ c := fun e => hq (by rw [hf, e]; exact List.mem_cons_self)
    refine Untouched.trans ⟨fun d => ?_, ?_⟩ (.setPS h _)
    · exact iff_of_eq (congrArg (q ∈ ·) (congrFun View.enqueue_blocked _))
    · simp only [Kernel.create, Globals.create, setPcb_pcb, if_neg hne]
  | terminate => exact .kill fun hS => hq' (List.mem_append_left _ hS)
  | passeren _ _ _ hp => exact hp.untouched hdev h
  | verhogen hn _ _ hv =>
    exact hv.untouched (fun d => ne_of_not_isSem (hc.sem (.inr hn)) (.dev d)) hnot
  | doio _ _ _ _ _ hp =>
    refine (hp.untouched hdev h).trans ⟨fun _ => .rfl, ?_⟩
    rw [mapG_g, storeWord_pcb]
  | clockwait _ hp => exact hp.untouched hdev h
  | yield => exact ⟨fun _ => .rfl, rfl⟩
  | unknown => exact .kill fun hS => hq' (List.mem_append_left _ hS)

/-- The completion interrupt of `d` releases `q`. -/
structure Released (d : SubDev) (q : PcbId) (k k' : Kernel View) : Prop where
  int : k.g.IntTaken
  served : k.g.served = some d
  waits : q ∈ k.lists.blocked (Layout.toAddresses.semAddr (.dev d))
  gone : ∀ d', q ∉ k'.lists.blocked (Layout.toAddresses.semAddr (.dev d'))
  state : (k'.g.pcb q).pS = (k.g.pcb q).pS.setReg regV0 (k.g.dev d).status
  acknowledged : k'.g.dev d = (k.g.dev d).store ACK

/-- A process is in the queue of one device at most. -/
theorem KTags.blocked_dev (h : KTags k) {d d' : SubDev}
    (hq : q ∈ k.lists.blocked (Layout.toAddresses.semAddr (.dev d)))
    (hq' : q ∈ k.lists.blocked (Layout.toAddresses.semAddr (.dev d'))) : d = d' := by
  have hs := ((h.blocked q _).mp hq).1.symm.trans ((h.blocked q _).mp hq').1
  cases semAddr_inj hs
  rfl

/-- A completion, seen by a process that does not run. -/
theorem Untouched.served {d : SubDev} {w : Option PcbId} (hs : Sound k) (hdev : ∀ d, DevInv k d)
    (hint : k.g.IntTaken) (hd : k.g.served = some d) (h : k.g.actProc ≠ some q)
    (hv : VStep (Layout.toAddresses.semAddr (.dev d)) k w k') :
    Untouched q k (k'.mapG fun g => (g.deliver w (k.g.dev d).status).command d ACK) ∨
      Released d q k (k'.mapG fun g => (g.deliver w (k.g.dev d).status).command d ACK) := by
  have hz := (hdev d).pending (.inr (served_intr hdev hd))
  have hone : k.g.int (Layout.toAddresses.semAddr (.dev d)) ≠ 1 := by rw [hz]; decide
  cases hv with
  | idle h1 => exact absurd h1 hone
  | block h1 => exact absurd h1 hone
  | @wake w ws _ hq =>
    by_cases e : q = w
    · subst e
      right
      have hmem : q ∈ k.lists.blocked (Layout.toAddresses.semAddr (.dev d)) := by
        rw [hq]; exact List.mem_cons_self
      refine ⟨hint, hd, hmem, fun d' hd' => ?_, ?_, ?_⟩
      · change q ∈ (k.wake _ q).lists.blocked _ at hd'
        by_cases e : d' = d
        · subst e
          rw [wake_blocked k hq] at hd'
          have hnd := hs.wf.blocked_nodup (Layout.toAddresses.semAddr (.dev d'))
          rw [hq, List.nodup_cons] at hnd
          exact hnd.1 hd'
        · rw [wake_blocked_ne fun h' => e (by cases semAddr_inj h'; rfl)] at hd'
          exact e (hs.inv.toKCore.toKTags.blocked_dev hd' hmem)
      · change ((Globals.setPS (k.wake _ q).g q (·.setReg regV0 (k.g.dev d).status)).pcb q).pS = _
        rw [Globals.setPS, setPcb_pcb, if_pos rfl]
        exact congrArg (·.setReg regV0 (k.g.dev d).status) wake_pS
      · exact Function.update_self ..
    · have hw : some w ≠ some q := fun he => e (Option.some.inj he).symm
      exact .inl ((Untouched.wake hq (.inl e)).trans (.deliver hw d (k.g.dev d).status ACK))
  | give =>
    have hg : Untouched q k (k.mapG (·.setInt (Layout.toAddresses.semAddr (.dev d)) 1)) :=
      ⟨fun _ => .rfl, rfl⟩
    exact .inl (hg.trans (.deliver h d (k.g.dev d).status ACK))

/-- What the handler of an exception does to a process that does not run. -/
theorem Outcome.untouched (hs : Sound k) (hdev : ∀ d, DevInv k d)
    (hc : k.g.KernelCall k.g.biosDataPage → CallOk k k.g.junk k.g.biosDataPage)
    (h : k.g.actProc ≠ some q) (hq : q ∉ k.lists.free) (hq' : q ∉ k'.lists.free)
    (ho : Outcome k r k') : Untouched q k k' ∨ ∃ d, Released d q k k' := by
  cases ho with
  | slice => exact .inl ⟨fun _ => .rfl, rfl⟩
  | tick => exact .inl (tick_untouched q k)
  | @served d _ _ hint hd hv =>
    exact (Untouched.served hs hdev hint hd h hv).imp_right fun hr => ⟨d, hr⟩
  | unserved => exact .inl (.refl q k)
  | spurious => exact .inl (.refl q k)
  | @sys act _ k1 hact hcall hsys =>
    have hne : q ≠ act := fun e => h (e ▸ hact)
    have hk1 : Untouched q k k1 := hsys.untouched hdev (hc hcall) hact hne hq hq'
    exact .inl (hk1.trans (.setPS hne _))
  | @die act f S _ hact =>
    have hne : q ≠ act := fun e => h (e ▸ hact)
    exact .inl ((Untouched.setPS hne f).trans (.kill fun hS => hq' (List.mem_append_left _ hS)))

end Untouched

/-! ## Steps -/

section Steps

variable [Layout] {k k' : Kernel View} {p q : PcbId} {r : EhAct} {e : Exit} {d : SubDev}

omit [Layout] in
theorem flushYielded_dev (k : Kernel View) : k.flushYielded.g.dev = k.g.dev := by
  unfold Kernel.flushYielded
  split <;> rfl

theorem Dispatch.dev (hd : Dispatch k e k') : k'.g.dev = k.g.dev := by
  cases hd with
  | high => exact flushYielded_dev _
  | low => exact flushYielded_dev _
  | halt => rfl
  | wait => exact flushYielded_dev _
  | deadlock => rfl

theorem Finish.dev (hf : Finish k r e k') : k'.g.dev = k.g.dev := by
  cases hf with
  | none _ hd => exact hd.dev
  | «continue» => exact flushYielded_dev _
  | renqueue _ hd => exact hd.dev
  | nothing _ _ _ hd => exact hd.dev

theorem load_pS (k : Kernel View) (p : PcbId) :
    ((k.load p).g.pcb q).pS = if q = p then (k.g.pcb q).pS.loaded (k.g.pcb q).pPrio else (k.g.pcb q).pS := by
  change ((k.flushYielded.g.load p).pcb q).pS = _
  split
  · next e =>
    subst e
    rw [Globals.load, setPcb_pcb, if_pos rfl, flushYielded_pcb]
    rfl
  · next e => rw [load_pcb_ne e, flushYielded_pcb]

/-- Dispatching sets status bits of the process that is loaded. -/
theorem Dispatch.pS (hd : Dispatch k e k') :
    (k'.g.pcb q).pS = if e = .ldst q then (k.g.pcb q).pS.loaded (k.g.pcb q).pPrio else (k.g.pcb q).pS := by
  have hldst : ∀ p : PcbId, (if Exit.ldst p = .ldst q then (k.g.pcb q).pS.loaded (k.g.pcb q).pPrio
      else (k.g.pcb q).pS) = if q = p then (k.g.pcb q).pS.loaded (k.g.pcb q).pPrio else (k.g.pcb q).pS := fun p => by
    simp only [Exit.ldst.injEq, eq_comm]
  cases hd with
  | high => rw [hldst, load_pS]
  | low => rw [hldst, load_pS]
  | halt => rfl
  | wait =>
    rw [if_neg nofun, mapG_g]
    exact congrArg (fun pcb => (pcb q).pS) (flushYielded_pcb k)
  | deadlock => rfl

theorem Finish.pS (hf : Finish k r e k') :
    (k'.g.pcb q).pS = if e = .ldst q then (k.g.pcb q).pS.loaded (k.g.pcb q).pPrio else (k.g.pcb q).pS := by
  cases hf with
  | none _ hd => exact hd.pS
  | @«continue» p =>
    rw [load_pS, mapG_g, age_pS, age_prio]
    simp only [Exit.ldst.injEq, eq_comm]
  | @renqueue p _ _ _ hd => rw [hd.pS, age_pS, age_prio]
  | @nothing p _ _ _ _ _ _ hd => rw [hd.pS, mapG_g, age_pS, age_prio]

theorem Dispatch.prio (hd : Dispatch k e k') : (k'.g.pcb q).pPrio = (k.g.pcb q).pPrio := by
  cases hd with
  | high => exact Kernel.load_prio _ _ q
  | low => exact Kernel.load_prio _ _ q
  | halt => rfl
  | wait => exact congrArg (fun pcb => (pcb q).pPrio) (flushYielded_pcb k)
  | deadlock => rfl

theorem Finish.prio (hf : Finish k r e k') : (k'.g.pcb q).pPrio = (k.g.pcb q).pPrio := by
  cases hf with
  | none _ hd => exact hd.prio
  | «continue» => exact (Kernel.load_prio _ _ q).trans age_prio
  | renqueue _ hd => exact hd.prio.trans age_prio
  | nothing _ _ _ hd => exact hd.prio.trans age_prio

theorem Handled.prio (hq : q ∉ k.lists.free) (hh : Handled k e k') :
    (k'.g.pcb q).pPrio = (k.g.pcb q).pPrio := by
  have hsave := (sameTags_save k.g).prio q
  cases hh with
  | exit he => exact (he.kept.2 q).trans hsave
  | finish ho hfin => exact (hfin.prio.trans (ho.prio hq)).trans hsave

/-- A step changes no priority but that of a new process. -/
theorem Next.prio {o o' : Obs} {ev : Event} (hq : q ∉ o.k.lists.free) (hn : Next o ev o') :
    (o'.k.g.pcb q).pPrio = (o.k.g.pcb q).pPrio := by
  cases hn with
  | exception _ hh =>
    exact Handled.prio (k := o.k.mapG _) hq hh
  | addressError _ _ hh =>
    exact Handled.prio (k := o.k.mapG _) hq hh
  | resume _ hd => exact hd.prio
  | _ => rfl

/-- The running process has one of the two priorities. -/
def ActPrio (k : Kernel View) : Prop :=
  ∀ p, k.g.actProc = some p → ∃ q : Queue, (k.g.pcb p).pPrio = q.prio

theorem Dispatch.actPrio (h : KTags k) (hd : Dispatch k e k') (hl : e.live) : ActPrio k' := by
  have hhead : ∀ {p ps q}, k.lists.ready q = p :: ps → ∃ q : Queue, (k.g.pcb p).pPrio = q.prio :=
    fun {p _ q} hq => ⟨q, h.prio q p (by rw [hq]; exact List.mem_cons_self)⟩
  intro p hp
  rw [hd.prio]
  cases hd with
  | high hq =>
    obtain rfl := Option.some.inj hp
    exact hhead hq
  | low _ hq =>
    obtain rfl := Option.some.inj hp
    exact hhead hq
  | halt => cases hl
  | wait => cases hp
  | deadlock => cases hl

theorem Finish.actPrio (h : Settled k) (hact : ActPrio k)
    (hr : r = .renqueue → ∀ p, k.g.actProc = some p → k.lists.Loose p)
    (hy : ∀ y, k.g.yieldedProc = some y → r = .nothing) (hf : Finish k r e k') (hl : e.live) :
    ActPrio k' := by
  have hset : ∀ {k1}, Disposed k r k1 → KTags k1 := fun hd =>
    (hd.settled h hr hy).inv.toKCore.toKTags
  cases hf with
  | none hn hd => exact hd.actPrio (hset (.none hn)) hl
  | @«continue» p ha =>
    intro p' hp'
    obtain rfl := Option.some.inj hp'
    rw [Kernel.load_prio, mapG_g, age_prio]
    exact hact _ ha
  | renqueue ha hd => exact hd.actPrio (hset (.renqueue ha)) hl
  | nothing ha hc hq hd => exact hd.actPrio (hset (.nothing ha hc hq)) hl

omit [Layout] in
theorem ActPrio.congr (h : ActPrio k) (hact : k'.g.actProc = k.g.actProc)
    (hprio : ∀ p, k.g.actProc = some p → (k'.g.pcb p).pPrio = (k.g.pcb p).pPrio) : ActPrio k' := by
  intro p hp
  rw [hact] at hp
  rw [hprio p hp]
  exact h p hp

theorem ActPrio.outcome (h : ActPrio k) (hen : Entered k) (ho : Outcome k r k') : ActPrio k' :=
  h.congr (ho.placed hen).act fun p hp => ho.prio (hen.loose p hp).1

theorem Handled.actPrio (hr : Ready k) (hs : SemsInv k)
    (hc : k.g.KernelCall k.g.biosDataPage → CallOk k k.g.junk k.g.biosDataPage) (h : ActPrio k)
    (hh : Handled k e k') (hgo : e.ongoing) : ActPrio k' := by
  have hsave : ActPrio (k.mapG (·.save)) :=
    h.congr (save_actProc _) fun p _ => (sameTags_save k.g).prio p
  cases hh with
  | exit he => exact hsave.congr he.kept.1 fun p _ => he.kept.2 p
  | finish ho hfin =>
    obtain ⟨hset, hpl⟩ := Outcome.settled hr hs hc ho
    exact hfin.actPrio hset (hsave.outcome hr.save.toEntered ho)
      (fun hr => hpl.loose_act (.inr hr)) (fun y hy => (hpl.yielded y hy).1)
      (hgo.resolve_right hfin.ne_fault)

/-- A step gives the processor only to processes of the two priorities. -/
theorem Next.actPrio {o o' : Obs} {ev : Event} (hg : Good o) (hc : Contract o ev)
    (h : o.exit.ongoing → ActPrio o.k) (hn : Next o ev o') (hgo : o'.exit.ongoing) :
    ActPrio o'.k := by
  have hp := hn.poised hg hc
  have hsems : ∀ saved status pending junk,
      SemsInv (o.k.mapG (·.enter saved status pending junk)) := fun _ _ _ _ =>
    ⟨hp.it, fun d => (hp.dev d).mapG rfl rfl⟩
  cases hn with
  | exception hcan hh =>
    have hlive := live_of_canTake hcan
    exact hh.actPrio ((hg.stable hlive).ready hcan hc) (hsems _ _ _ _) hc.callOk (h (.inl hlive)) hgo
  | addressError he herr hh =>
    exact hh.actPrio (hg.ready_fault he hc herr) (hsems _ _ _ _)
      (fun hcall => absurd hcall herr.not_kernelCall) (h (.inr he)) hgo
  | resume he hd =>
    exact hd.actPrio hp.inv.toKCore.toKTags (hgo.resolve_right hd.ne_fault)
  | complete => exact h hgo
  | store => exact h hgo
  | storeState => exact h hgo
  | storeSupport => exact h hgo

/-- The event is the completion interrupt of `d` that releases `q`. -/
structure CompletedFor (d : SubDev) (q : PcbId) (o : Obs) (ev : Event) (o' : Obs) : Prop where
  event : ∃ saved status pending junk, ev = .exception saved status pending junk ∧
    CAUSE_GET_EXCCODE saved.cause = EXC_INT ∧
      (o.k.g.enter saved status pending junk).served = some d
  waits : q ∈ o.k.lists.blocked (Layout.toAddresses.semAddr (.dev d))
  gone : ∀ d', q ∉ o'.k.lists.blocked (Layout.toAddresses.semAddr (.dev d'))
  /-- The status of the device is in `reg_v0`. -/
  state : (o'.k.g.pcb q).pS =
    let s := (o.k.g.pcb q).pS.setReg regV0 (o.k.g.dev d).status
    if o'.exit = .ldst q then s.loaded (o.k.g.pcb q).pPrio else s
  acknowledged : o'.k.g.dev d = (o.k.g.dev d).store ACK

/-- What a step does to a process that does not run. -/
inductive Bystander (q : PcbId) (o : Obs) (ev : Event) (o' : Obs) : Prop where
  | stays : (∀ d, q ∈ o'.k.lists.blocked (Layout.toAddresses.semAddr (.dev d)) ↔
        q ∈ o.k.lists.blocked (Layout.toAddresses.semAddr (.dev d))) →
      (o'.k.g.pcb q).pS = (if o'.exit = .ldst q then
        (o.k.g.pcb q).pS.loaded (o.k.g.pcb q).pPrio else (o.k.g.pcb q).pS) → Bystander q o ev o'
  | released (d' : SubDev) : CompletedFor d' q o ev o' → Bystander q o ev o'

theorem Finish.blocked (hf : Finish k r e k') (s : Word) :
    k'.lists.blocked s = k.lists.blocked s := by
  have hpart := hf.semPart (s := s)
  simp only [Kernel.semPart, Prod.mk.injEq] at hpart
  exact hpart.2.1

theorem Finish.free (hf : Finish k r e k') : k'.lists.free = k.lists.free := by
  have hpart := hf.semPart (s := 0)
  simp only [Kernel.semPart, Prod.mk.injEq] at hpart
  exact hpart.2.2

omit [Layout] in
theorem caught_pcb_ne {saved : ProcState} {status junk : Word} {pending : Fin 3 → Bool}
    (h : k.g.actProc ≠ some q) : (k.caught saved status pending junk).g.pcb q = k.g.pcb q := by
  change (Globals.save _).pcb q = _
  unfold Globals.save
  split
  · next act hact =>
    have hne : q ≠ act := fun e => h (e ▸ hact)
    rw [Globals.setPS, setPcb_pcb, if_neg hne]
    rfl
  · rfl

theorem Contract.caught {o : Obs} {saved : ProcState} {status junk : Word} {pending : Fin 3 → Bool}
    (hc : Contract o (.exception saved status pending junk)) :
    let k := o.k.caught saved status pending junk
    k.g.KernelCall k.g.biosDataPage → CallOk k k.g.junk k.g.biosDataPage := by
  have h := callOk_save (k := o.k.mapG (·.enter saved status pending junk)) hc.callOk
  exact h

/-- What an exception that is not answered does to a process that does not run. -/
theorem EarlyExit.untouched (hdev : ∀ d, DevInv k d) (he : EarlyExit k e k')
    (h : k.g.actProc ≠ some q) : Untouched q k k' ∧ e ≠ .ldst q := by
  have hne : ∀ {act}, k.g.actProc = some act → q ≠ act := fun hact e => h (e ▸ hact)
  cases he with
  | trap => exact ⟨⟨fun _ => .rfl, rfl⟩, nofun⟩
  | @user act f kind _ hact =>
    exact ⟨(Untouched.setPS (hne hact) f).trans ⟨fun _ => .rfl, rfl⟩, nofun⟩
  | sys hact _ he =>
    cases he with
    | doio _ _ _ hp => exact ⟨hp.untouched hdev (hne hact), nofun⟩
    | _ => exact ⟨⟨fun _ => .rfl, rfl⟩, nofun⟩

/-- An exception either leaves a process that does not run alone or is the completion it waits
    for. -/
theorem Handled.bystander {o : Obs} {saved : ProcState} {status junk : Word}
    {pending : Fin 3 → Bool} (hready : Ready (o.k.mapG (·.enter saved status pending junk)))
    (hdev : ∀ d, DevInv o.k d) (hc : (o.k.caught saved status pending junk).g.KernelCall
        (o.k.caught saved status pending junk).g.biosDataPage →
      CallOk (o.k.caught saved status pending junk) (o.k.caught saved status pending junk).g.junk
        (o.k.caught saved status pending junk).g.biosDataPage)
    (hact : o.k.g.actProc ≠ some q) (hq : q ∉ o.k.lists.free) (hq' : q ∉ k'.lists.free)
    (hh : Handled (o.k.mapG (·.enter saved status pending junk)) e k') :
    Bystander q o (.exception saved status pending junk) ⟨k', e⟩ := by
  have hact' : (o.k.caught saved status pending junk).g.actProc ≠ some q := by
    rwa [caught_actProc]
  have hpcb : (o.k.caught saved status pending junk).g.pcb q = o.k.g.pcb q := caught_pcb_ne hact
  have hdev' : ∀ d, DevInv (o.k.caught saved status pending junk) d := fun d =>
    (hdev d).mapG (f := fun g => (g.enter saved status pending junk).save) caught_dev caught_int
  cases hh with
  | exit he =>
    obtain ⟨hu, hne⟩ := EarlyExit.untouched (k := o.k.caught saved status pending junk) hdev' he
      hact'
    refine .stays hu.waits ?_
    rw [if_neg hne, ← hpcb]
    exact hu.state
  | @finish r k1 _ _ ho hfin =>
    have hsound : Sound (o.k.caught saved status pending junk) := hready.save.toSound
    have hq1 : q ∉ k1.lists.free := by rw [← hfin.free]; exact hq'
    have hprio : (k1.g.pcb q).pPrio = (o.k.g.pcb q).pPrio := (ho.prio hq).trans
      (congrArg Pcb.pPrio hpcb)
    have hst' := hfin.pS (q := q)
    rw [hprio] at hst'
    have hout := Outcome.untouched (k := o.k.caught saved status pending junk) hsound hdev'
      hc hact' hq hq1 ho
    rcases hout with hu | ⟨d, hr⟩
    · refine .stays (fun d => ?_) ?_
      · exact (iff_of_eq (congrArg (q ∈ ·) (hfin.blocked _))).trans (hu.waits d)
      · rw [hst', hu.state, hpcb]
    · refine .released d ⟨⟨saved, status, pending, junk, rfl, ?_, ?_⟩, hr.waits,
        fun d' => ?_, ?_, ?_⟩
      · have hint := hr.int
        rwa [Globals.IntTaken, caught_biosDataPage] at hint
      · have hserved := hr.served
        rwa [Kernel.caught, mapG_g, save_served] at hserved
      · rw [hfin.blocked]
        exact hr.gone d'
      · rw [hst', hr.state, hpcb, caught_dev]
      · rw [hfin.dev, hr.acknowledged, caught_dev]

/-- A step either leaves a process that does not run alone or is the completion it waits for. -/
theorem Next.bystander {o o' : Obs} {ev : Event} (hg : Good o) (hc : Contract o ev)
    (h : o.k.g.actProc ≠ some q) (hq : q ∉ o.k.lists.free) (hq' : q ∉ o'.k.lists.free)
    (hn : Next o ev o') : Bystander q o ev o' := by
  have hp := hn.poised hg hc
  have hexit : o.exit.live → o.exit ≠ .ldst q := fun hl e =>
    h ((hg.stable hl).current.trans (by rw [e]; rfl))
  cases hn with
  | exception hcan hh =>
    have hready := (hg.stable (live_of_canTake hcan)).ready hcan hc
    exact hh.bystander hready hp.dev hc.caught h hq hq'
  | @addressError saved _ _ _ _ _ he herr hh =>
    have hb := hh.bystander (hg.ready_fault he hc herr) hp.dev (fun hcall => by
      rw [caught_biosDataPage] at hcall
      exact absurd hcall herr.not_kernelCall) h hq hq'
    cases hb with
    | stays hw hpS => exact .stays hw hpS
    | released d hcomp =>
      obtain ⟨saved', _, _, _, heq, hint, -⟩ := hcomp.event
      obtain rfl : saved = saved' := by injection heq
      exact absurd hint herr.not_int
  | resume he hd =>
    refine .stays (fun d => ?_) hd.pS
    have hpart := hd.semPart (s := Layout.toAddresses.semAddr (.dev d))
    simp only [Kernel.semPart, Prod.mk.injEq] at hpart
    exact iff_of_eq (congrArg (q ∈ ·) hpart.2.1)
  | complete hl => exact .stays (fun _ => .rfl) (if_neg (hexit hl)).symm
  | store hr => exact .stays (fun _ => .rfl) (if_neg (hexit (live_of_running hr))).symm
  | storeState hr => exact .stays (fun _ => .rfl) (if_neg (hexit (live_of_running hr))).symm
  | storeSupport hr => exact .stays (fun _ => .rfl) (if_neg (hexit (live_of_running hr))).symm

end Steps

end Rocm
