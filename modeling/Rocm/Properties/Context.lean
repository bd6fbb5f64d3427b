import Rocm.Properties.DeviceIO

/-!
# The saved state of a process

Between an exception and the next time the process is loaded, its saved state changes only by what
the process has asked for: the results of its own syscall and the step past the syscall
instruction.
-/

namespace Rocm

open Prog ProcTable Runs

variable [Layout]

/-- The result that a syscall of `act` leaves in `reg_v0` before it returns. -/
def Kernel.answer (k : Kernel View) (act : PcbId) (s : ProcState) : Option Word :=
  match k.g.sysResult act s with
  | some v => some v
  | none =>
    if s.number = CREATEPROCESS then k.lists.free.head?.map Layout.toAddresses.pcbAddr else none

/-- A result, if any, goes to `reg_v0`. -/
def ProcState.withResult (s : ProcState) : Option Word → ProcState
  | some v => s.setReg regV0 v
  | none => s

/-- The state in which the exception of `p` leaves its registers. -/
def Kernel.keeps (k : Kernel View) (p : PcbId) (saved : ProcState) (status : Word)
    (pending : Fin 3 → Bool) (junk : Word) : ProcState :=
  if KernelCallOf saved status then
    (saved.withResult ((k.caught saved status pending junk).answer p saved)).advance
  else saved

/-- The exception is a DOIO on `d`. -/
def OwnDoio (d : SubDev) (saved : ProcState) (status junk : Word) : Prop :=
  KernelCallOf saved status ∧ saved.number = DOIO ∧
    doIoSem junk saved.arg1 = Layout.toAddresses.semAddr (.dev d)

/-- In the steps `tr` the process `p` does not run and is not killed. -/
def Waits (p : PcbId) (tr : List (Mach Heap × Event × Mach Heap)) : Prop :=
  ∀ x ∈ tr, x.1.exit.current ≠ some p ∧ p ∉ x.1.obs.k.lists.free

/-- What `s` can be after the steps `tr` that follow an exception of `p`: the state `kept`, or with
    the status of the device that has completed the DOIO of `p` in `reg_v0`. -/
inductive Resumed (p : PcbId) (kept saved : ProcState) (status junk : Word)
    (tr : List (Mach Heap × Event × Mach Heap)) : ProcState → Prop where
  | same : (∀ x ∈ tr, ∀ d, ¬ CompletedFor d p x.1.obs x.2.1 x.2.2.obs) →
      Resumed p kept saved status junk tr kept
  | device {x d} : OwnDoio d saved status junk → x ∈ tr →
      CompletedFor d p x.1.obs x.2.1 x.2.2.obs →
      Resumed p kept saved status junk tr (kept.setReg regV0 (x.1.k.g.dev d).status)

omit [Layout] in
theorem setReg_self (s : ProcState) (r : Fin 29) : s.setReg r (s.gpr r) = s := by
  rw [ProcState.setReg, Function.update_eq_self]

section Answer

variable {k k' : Kernel View} {p : PcbId} {s : ProcState} {r : EhAct}

theorem answer_none (hn : s.number ≠ GETTIME ∧ s.number ≠ GETSUPPORTPTR ∧
    s.number ≠ GETPROCESSID ∧ s.number ≠ CREATEPROCESS) : k.answer p s = none := by
  rw [Kernel.answer, Globals.sysResult, if_neg hn.1, if_neg hn.2.1, if_neg hn.2.2.1]
  exact if_neg hn.2.2.2

theorem answer_value {v : Word} (h : k.g.sysResult p s = some v) : k.answer p s = some v := by
  rw [Kernel.answer, h]

theorem answer_create (hn : s.number = CREATEPROCESS) :
    k.answer p s = k.lists.free.head?.map Layout.toAddresses.pcbAddr := by
  rw [Kernel.answer, Globals.sysResult, hn, if_neg (by decide), if_neg (by decide),
    if_neg (by decide)]
  exact if_pos rfl

omit [Layout] in
/-- A P of the running process leaves its state alone, and blocks it on no other semaphore. -/
theorem PStep.self {sem : Word} (hp : PStep sem p k r k') (h : k.lists.Loose p) :
    (k'.g.pcb p).pS = (k.g.pcb p).pS ∧ ∀ s', s' ≠ sem → p ∉ k'.lists.blocked s' := by
  refine ⟨?_, fun s' hne hm => ?_⟩
  · cases hp with
    | block => exact block_pS
    | wake => exact wake_pS
    | take => rfl
  · have hpart := hp.semPart hne
    simp only [Kernel.semPart, Prod.mk.injEq] at hpart
    rw [hpart.2.1] at hm
    exact h.2.2 s' hm

omit [Layout] in
theorem VStep.self {sem : Word} {w : Option PcbId} (hv : VStep sem k w k') (h : k.lists.Loose p) :
    (k'.g.pcb p).pS = (k.g.pcb p).pS ∧ ∀ s', s' ≠ sem → p ∉ k'.lists.blocked s' := by
  refine ⟨?_, fun s' hne hm => ?_⟩
  · cases hv with
    | idle => rfl
    | block => exact block_pS
    | wake => exact wake_pS
    | give => rfl
  · have hpart := hv.semPart hne
    simp only [Kernel.semPart, Prod.mk.injEq] at hpart
    rw [hpart.2.1] at hm
    exact h.2.2 s' hm

/-- Where the handler leaves the running process: with the state `s'`, and in the queue of a device
    only by a DOIO. -/
structure SelfAfter (k' : Kernel View) (p : PcbId) (s' : ProcState) (doio : SubDev → Prop) :
    Prop where
  state : (k'.g.pcb p).pS = s'
  waits : ∀ d, p ∈ k'.lists.blocked (Layout.toAddresses.semAddr (.dev d)) → doio d

theorem SelfAfter.mapG {s' : ProcState} {doio : SubDev → Prop} (h : SelfAfter k' p s' doio)
    (f : ProcState → ProcState) : SelfAfter (k'.mapG (·.setPS p f)) p (f s') doio := by
  refine ⟨?_, h.waits⟩
  rw [mapG_g, Globals.setPS, setPcb_pcb, if_pos rfl, ← h.state]

/-- The caller of a syscall. -/
theorem SysOutcome.self (hc : CallOk k k.g.junk s) (hl : k.lists.Loose p)
    (hfree : p ∉ k'.lists.free) (ho : SysOutcome k p s r k') :
    SelfAfter k' p ((k.g.pcb p).pS.withResult (k.answer p s)) fun d =>
      s.number = DOIO ∧ doIoSem k.g.junk s.arg1 = Layout.toAddresses.semAddr (.dev d) := by
  have hout : ∀ {doio : SubDev → Prop}, SelfAfter k p (k.g.pcb p).pS doio :=
    ⟨rfl, fun d hm => absurd hm (hl.2.2 _)⟩
  have hother : ∀ n, s.number = n → n ≠ GETTIME ∧ n ≠ GETSUPPORTPTR ∧ n ≠ GETPROCESSID ∧
      n ≠ CREATEPROCESS → k.answer p s = none := fun n hn hne => answer_none (hn ▸ hne)
  cases ho with
  | value hv =>
    rw [answer_value hv]
    exact hout.mapG _
  | full hn hf =>
    rw [answer_create hn, hf]
    exact hout
  | @create c cs hn hf =>
    rw [answer_create hn, hf]
    have hne : p ≠ c := fun e => hl.1 (by rw [hf, e]; exact List.mem_cons_self)
    have hcr : SelfAfter (k.create c p s.arg1 s.arg2 s.arg3) p (k.g.pcb p).pS fun d =>
        s.number = DOIO ∧ doIoSem k.g.junk s.arg1 = Layout.toAddresses.semAddr (.dev d) := by
      refine ⟨?_, fun d hm => ?_⟩
      · simp only [Kernel.create, Globals.create, setPcb_pcb, if_neg hne]
      · change p ∈ ((k.lists.popFree.pushChild p c).enqueue c s.arg2).blocked _ at hm
        rw [View.enqueue_blocked] at hm
        exact absurd hm (hl.2.2 _)
    exact hcr.mapG _
  | terminate hn _ _ _ =>
    rw [hother _ hn (by decide)]
    exact ⟨kill_pS _, fun d hm => absurd (List.mem_filter.mp hm).1 (hl.2.2 _)⟩
  | passeren hn _ _ hp =>
    rw [hother _ hn (by decide)]
    obtain ⟨hs, hb⟩ := hp.self hl
    exact ⟨hs, fun d hm => absurd hm (hb _ (ne_of_not_isSem (hc.sem (.inl hn)) (.dev d)))⟩
  | verhogen hn _ _ hv =>
    rw [hother _ hn (by decide)]
    obtain ⟨hs, hb⟩ := hv.self hl
    exact ⟨hs, fun d hm => absurd hm (hb _ (ne_of_not_isSem (hc.sem (.inr hn)) (.dev d)))⟩
  | doio hn _ _ _ _ hp =>
    rw [hother _ hn (by decide)]
    obtain ⟨hs, hb⟩ := hp.self hl
    refine ⟨?_, fun d hm => ⟨hn, by_contra fun hne => hb _ (Ne.symm hne) hm⟩⟩
    rw [mapG_g, storeWord_pcb]
    exact hs
  | clockwait hn hp =>
    rw [hother _ hn (by decide)]
    obtain ⟨hs, hb⟩ := hp.self hl
    exact ⟨hs, fun d hm => absurd hm (hb _ (semIt_ne d))⟩
  | yield hn =>
    rw [hother _ hn (by decide)]
    exact ⟨rfl, fun d hm => absurd hm (hl.2.2 _)⟩
  | unknown _ _ hS => exact absurd (List.mem_append_left _ ((hS.mem_iff p).mpr .refl)) hfree

/-- What is done about the completion interrupt of a device. -/
theorem Outcome.of_served {d : SubDev} (h : Outcome k r k') (hint : k.g.IntTaken)
    (hs : k.g.served = some d) : ∃ w k1, r = .continue ∧
      VStep (Layout.toAddresses.semAddr (.dev d)) k w k1 ∧
      k' = k1.mapG fun g => (g.deliver w (k.g.dev d).status).command d ACK := by
  have hline : ∀ line : Fin 8, k.g.servedLine = some line → 3 ≤ line.val := by
    intro line hl
    by_contra hlt
    rw [Globals.served, hl] at hs
    simp only [dif_neg hlt] at hs
    cases hs
  cases h with
  | slice _ hl => exact absurd (hline _ hl) (by decide)
  | tick _ hl => exact absurd (hline _ hl) (by decide)
  | @served d' w k1 _ hd' hv =>
    obtain rfl : d' = d := Option.some.inj (hd'.symm.trans hs)
    exact ⟨w, k1, rfl, hv, rfl⟩
  | unserved _ _ _ _ hn => rw [hs] at hn; cases hn
  | spurious h =>
    rcases h with ⟨-, hn⟩ | ht
    · rw [Globals.served, hn] at hs
      cases hs
    · exact absurd hint ht.1.1
  | sys _ hcall => exact absurd hint (not_intTaken hcall)
  | die ht => exact absurd hint ht.1

/-- The process that runs when an exception is handled. Only a completion that nobody waits for
    could write to its registers. -/
theorem Outcome.self (hen : Entered k) (hdev : ∀ d, DevInv k d)
    (hc : k.g.KernelCall k.g.biosDataPage → CallOk k k.g.junk k.g.biosDataPage)
    (hact : k.g.actProc = some p) (hfree : p ∉ k'.lists.free)
    (hcond : k.g.IntTaken → ∀ d, k.g.served = some d →
      k.lists.blocked (Layout.toAddresses.semAddr (.dev d)) = [] →
      (k.g.pcb p).pS.gpr regV0 = (k.g.dev d).status) (ho : Outcome k r k') :
    SelfAfter k' p (if k.g.KernelCall k.g.biosDataPage then
        ((k.g.pcb p).pS.withResult (k.answer p k.g.biosDataPage)).advance else (k.g.pcb p).pS)
      fun d => k.g.KernelCall k.g.biosDataPage ∧ k.g.biosDataPage.number = DOIO ∧
        doIoSem k.g.junk k.g.biosDataPage.arg1 = Layout.toAddresses.semAddr (.dev d) := by
  have hl := hen.loose p hact
  have hint : k.g.IntTaken → ¬ k.g.KernelCall k.g.biosDataPage := fun hi hc => not_intTaken hc hi
  have hout : ∀ {doio : SubDev → Prop}, SelfAfter k p (k.g.pcb p).pS doio :=
    ⟨rfl, fun d hm => absurd hm (hl.2.2 _)⟩
  cases ho with
  | slice hi =>
    rw [if_neg (hint hi)]
    exact ⟨rfl, hout.waits⟩
  | tick hi =>
    rw [if_neg (hint hi)]
    obtain ⟨hw, hs⟩ := tick_untouched p k
    exact ⟨hs, fun d hm => absurd ((hw d).mp hm) (hl.2.2 _)⟩
  | @served d w k1 hi hd hv =>
    rw [if_neg (hint hi)]
    have hz := (hdev d).pending (.inr (served_intr hdev hd))
    have hone : k.g.int (Layout.toAddresses.semAddr (.dev d)) ≠ 1 := by rw [hz]; decide
    cases hv with
    | idle h1 => exact absurd h1 hone
    | block h1 => exact absurd h1 hone
    | @wake w ws _ hq =>
      have hne : p ≠ w := by
        rintro rfl
        exact hl.2.2 _ (by rw [hq]; exact List.mem_cons_self)
      have hu := (Untouched.wake hq (.inl hne)).trans
        (.deliver (fun e => hne (Option.some.inj e).symm) d (k.g.dev d).status ACK)
      exact ⟨hu.state, fun d' hm => absurd ((hu.waits d').mp hm) (hl.2.2 _)⟩
    | give _ hnil =>
      refine ⟨?_, fun d' hm => absurd hm (hl.2.2 _)⟩
      have hv0 := hcond hi d hd hnil
      rw [hact]
      change ((k.g.setPS p (·.setReg regV0 (k.g.dev d).status)).pcb p).pS = _
      rw [Globals.setPS, setPcb_pcb, if_pos rfl, ← hv0]
      exact setReg_self _ _
  | unserved hi =>
    rw [if_neg (hint hi)]
    exact hout
  | spurious h =>
    rw [if_neg (h.elim (fun h => hint h.1) fun h => h.1.2)]
    exact hout
  | @sys act _ k1 hact' hcall hs =>
    obtain rfl : p = act := Option.some.inj (hact.symm.trans hact')
    rw [if_pos hcall]
    have hself : SelfAfter k1 p _ _ := hs.self (hc hcall) hl hfree
    have hadv := hself.mapG (·.advance)
    exact ⟨hadv.state, fun d hm => ⟨hcall, hadv.waits d hm⟩⟩
  | @die act f S ht hact' _ hS =>
    obtain rfl : p = act := Option.some.inj (hact.symm.trans hact')
    exact absurd (List.mem_append_left _ ((hS.mem_iff p).mpr .refl)) hfree

end Answer

/-! ## Runs -/

section Runs

variable {m m1 m2 : Mach Heap} {p : PcbId} {saved : ProcState} {status junk : Word}
  {pending : Fin 3 → Bool} {tr : List (Mach Heap × Event × Mach Heap)}

/-- When the exception is a completion interrupt, somebody waits for the device, or its status is
    what `reg_v0` holds anyway. -/
def CompletionAwaited (o : Obs) (saved : ProcState) (status : Word) (pending : Fin 3 → Bool)
    (junk : Word) : Prop :=
  CAUSE_GET_EXCCODE saved.cause = EXC_INT → ∀ d,
    (o.k.g.enter saved status pending junk).served = some d →
    o.k.lists.blocked (Layout.toAddresses.semAddr (.dev d)) = [] →
    saved.gpr regV0 = (o.k.g.dev d).status

/-- What is known of `p` after the exception and the steps `tr`. -/
structure Kept (p : PcbId) (kept saved : ProcState) (status junk prio : Word)
    (tr : List (Mach Heap × Event × Mach Heap)) (m : Mach Heap) : Prop where
  samePrio : (m.k.g.pcb p).pPrio = prio
  state : ∃ s, (m.k.g.pcb p).pS = (if m.exit = .ldst p then s.loaded prio else s) ∧
    Resumed p kept saved status junk tr s
  waits : ∀ d, p ∈ m.obs.k.lists.blocked (Layout.toAddresses.semAddr (.dev d)) →
    OwnDoio d saved status junk ∧ ∀ x ∈ tr, ∀ d, ¬ CompletedFor d p x.1.obs x.2.1 x.2.2.obs

/-- An exception that is not answered passes the running process up, or stops the machine. -/
theorem EarlyExit.passedUp {k k' : Kernel View} {e : Exit} (he : EarlyExit k e k')
    (hact : k.g.actProc = some p) (hgo : e.ongoing) : (∃ ctx, e = .ldcxt p ctx) ∨ e = .fault := by
  have hsome : ∀ {act}, k.g.actProc = some act → act = p := fun h =>
    Option.some.inj (h.symm.trans hact)
  cases he with
  | trap _ h => exact .inl ⟨_, by rw [hsome h]⟩
  | user _ h => exact .inl ⟨_, by rw [hsome h]⟩
  | sys h _ he =>
    cases he with
    | passUp => exact .inl ⟨_, by rw [hsome h]⟩
    | sem => exact .inr rfl
    | doioSem => exact .inr rfl
    | doio => exact .inr rfl
    | _ => rcases hgo with h | h <;> cases h

/-- After the exception itself, if it has caused no other. -/
theorem Reached.kept (hr : Reached m) (hp : m.exit.current = some p)
    (hs : Step Contract m (.exception saved status pending junk) m1)
    (hcond : CompletionAwaited m.obs saved status pending junk) (hfree : p ∉ m1.obs.k.lists.free)
    (hcur : m1.exit = .ldst p ∨ m1.exit.current ≠ some p) (hl : m1.exit.live) :
    Kept p (m.obs.k.keeps p saved status pending junk) saved status junk (m.k.g.pcb p).pPrio []
      m1 := by
  have hst := hr.good.stable (live_of_current hp)
  have hact : m.obs.k.g.actProc = some p := hst.current.trans hp
  have hact' : (m.obs.k.caught saved status pending junk).g.actProc = some p := by
    rw [caught_actProc, hact]
  have hready := hst.ready (canTake_of_current hp) hs.2
  obtain ⟨m', hm', -, hh⟩ := hr.exception (canTake_of_current hp) hs.2
  obtain rfl : m' = m1 := Option.some.inj (hm'.symm.trans hs.1)
  have hpcb : (m.obs.k.caught saved status pending junk).g.pcb p =
      { m.obs.k.g.pcb p with pS := saved } := by rw [caught_pcb hact, if_pos rfl]
  have hcall : (m.obs.k.caught saved status pending junk).g.KernelCall saved ↔
      KernelCallOf saved status := by
    rw [Globals.KernelCall, Kernel.caught, mapG_g, save_cpuStatus]
    exact .rfl
  cases hh with
  | exit he =>
    rcases EarlyExit.passedUp (k := m.obs.k.caught saved status pending junk) he hact' (.inl hl)
      with ⟨ctx, he⟩ | he
    · rw [he] at hcur
      exact absurd rfl (hcur.resolve_left (by simp))
    · rw [he] at hl
      cases hl
  | @finish r k1 _ _ ho hfin =>
    have hdev : ∀ d, DevInv (m.obs.k.caught saved status pending junk) d := fun d =>
      (hst.dev d).mapG (f := fun g => (g.enter saved status pending junk).save) caught_dev
        caught_int
    have hself := Outcome.self (k := m.obs.k.caught saved status pending junk)
      hready.save.toEntered hdev hs.2.caught hact' (by rw [← hfin.free]; exact hfree)
      (fun hi d hd hq => by
        rw [hpcb, caught_dev]
        rw [Globals.IntTaken, caught_biosDataPage] at hi
        rw [Kernel.caught, mapG_g, save_served] at hd
        exact hcond hi d hd hq) ho
    rw [caught_biosDataPage, caught_junk, hpcb] at hself
    simp only [hcall] at hself
    have hprio : (k1.g.pcb p).pPrio = (m.k.g.pcb p).pPrio :=
      (ho.prio (hst.loose p hact).1).trans
        ((congrArg Pcb.pPrio hpcb :) : _ = (m.obs.k.g.pcb p).pPrio)
    refine ⟨?_, ⟨_, ?_, .same (by simp)⟩, fun d hd => ⟨?_, by simp⟩⟩
    · exact hfin.prio.trans hprio
    · have hpS := hfin.pS (q := p)
      rw [hprio, hself.state] at hpS
      exact hpS
    · rw [hfin.blocked] at hd
      exact hself.waits d hd

/-- A step in which `p` does not run. -/
theorem Kept.step {kept : ProcState} {prio : Word} {ev : Event} (hr : Reached m)
    (hk : Kept p kept saved status junk prio tr m) (hs : Step Contract m ev m1)
    (hcur : m.k.g.actProc ≠ some p) (hfree : p ∉ m.obs.k.lists.free)
    (hfree' : p ∉ m1.obs.k.lists.free) :
    Kept p kept saved status junk prio (tr ++ [(m, ev, m1)]) m1 := by
  obtain ⟨hprio, ⟨s, hstate, hres⟩, hwaits⟩ := hk
  have hnext := (hr.next hs).1
  have hexit : m.exit ≠ .ldst p := fun e =>
    hcur ((hr.actProc (by rw [e]; rfl)).trans (by rw [e]; rfl))
  rw [if_neg hexit] at hstate
  have hprio' : (m1.k.g.pcb p).pPrio = prio := (hnext.prio hfree).trans hprio
  cases hnext.bystander hr.good hs.2 hcur hfree hfree' with
  | stays hw hpS =>
    have hno : ∀ d, ¬ CompletedFor d p m.obs ev m1.obs := fun d hc =>
      hc.gone d ((hw d).mpr hc.waits)
    have hall : (∀ x ∈ tr, ∀ d, ¬ CompletedFor d p x.1.obs x.2.1 x.2.2.obs) →
        ∀ x ∈ tr ++ [(m, ev, m1)], ∀ d, ¬ CompletedFor d p x.1.obs x.2.1 x.2.2.obs := by
      intro h x hx
      rcases List.mem_append.mp hx with hx | hx
      · exact h x hx
      · rw [List.mem_singleton.mp hx]
        exact hno
    refine ⟨hprio', ⟨s, ?_, ?_⟩, fun d hd => ?_⟩
    · change (m1.obs.k.g.pcb p).pS = _
      rw [hpS, Mach.obs_g, hstate, hprio, Mach.obs_exit]
    · cases hres with
      | same h => exact .same (hall h)
      | device hown hx hc => exact .device hown (List.mem_append_left _ hx) hc
    · obtain ⟨hown, h⟩ := hwaits d ((hw d).mp hd)
      exact ⟨hown, hall h⟩
  | @released d hc =>
    obtain ⟨hown, h⟩ := hwaits d hc.waits
    have hs' : s = kept := by
      cases hres with
      | same => rfl
      | device _ hx hc' => exact absurd hc' (h _ hx _)
    subst hs'
    refine ⟨hprio', ⟨_, ?_, .device hown (List.mem_append_right _ List.mem_cons_self) hc⟩,
      fun d' hd' => absurd hd' (hc.gone d')⟩
    change (m1.obs.k.g.pcb p).pS = _
    rw [hc.state, Mach.obs_g, hstate, hprio, Mach.obs_exit]

/-- An exception that is an address error either kills the process that has the processor or is
    passed up to it. -/
theorem Handled.of_addressError {k k' : Kernel View} {e : Exit} (hh : Handled k e k')
    (hact : (k.mapG (·.save)).g.actProc = some p)
    (herr : (k.mapG (·.save)).g.biosDataPage.IsAddressError) (hfree : p ∉ k'.lists.free) :
    ∃ ctx, e = .ldcxt p ctx := by
  cases hh with
  | exit hx =>
    obtain ⟨act, ctx, ha, rfl⟩ := hx.of_addressError herr
    obtain rfl : p = act := Option.some.inj (hact.symm.trans ha)
    exact ⟨ctx, rfl⟩
  | finish ho hf =>
    obtain ⟨rfl, act, f, S, ha, hS, rfl⟩ := ho.of_addressError herr
    obtain rfl : p = act := Option.some.inj (hact.symm.trans ha)
    refine absurd ?_ hfree
    rw [hf.free]
    exact List.mem_append_left _ ((hS.mem_iff p).mpr .refl)

/-- The exception of `p` has caused an address error of the nucleus: `p` is killed or passed up. -/
theorem Reached.fault_ends (hr : Reached m) {ev : Event} (hs : Step Contract m ev m1)
    (he : m.exit = .fault) (hact : m.k.g.actProc = some p) (hfree : p ∉ m1.obs.k.lists.free) :
    ∃ ctx, m1.exit = .ldcxt p ctx := by
  have hhandled : ∀ {o' : Obs}, Next m.obs ev o' → p ∉ o'.k.lists.free →
      ∃ ctx, o'.exit = .ldcxt p ctx := by
    intro o' hn hfree
    have hexit : m.obs.exit = .fault := he
    cases hn with
    | addressError _ herr hh =>
      refine hh.of_addressError ?_ ?_ hfree
      · exact (caught_actProc (k := m.obs.k)).trans hact
      · exact (caught_biosDataPage (k := m.obs.k)).symm ▸ herr
    | exception hcan => rw [hexit] at hcan; cases hcan
    | resume hw => rw [hexit] at hw; cases hw
    | complete hl => rw [hexit] at hl; cases hl
    | store hl => rw [hexit] at hl; cases hl
    | storeState hl => rw [hexit] at hl; cases hl
    | storeSupport hl => rw [hexit] at hl; cases hl
  exact hhandled (hr.next hs).1 hfree

/-- After the exception and steps in which `p` does not run. -/
theorem Reached.kept_run (hr : Reached m) (hp : m.exit.current = some p)
    (hs : Step Contract m (.exception saved status pending junk) m1)
    (hcond : CompletionAwaited m.obs saved status pending junk)
    (hrun : Run (Step Contract) m1 tr m2) (hwaits : Waits p tr) (hfree : p ∉ m2.obs.k.lists.free)
    (hgo : m2.exit.ongoing) (hcur : m2.exit = .ldst p ∨ m2.exit.current ≠ some p) :
    (m2 = m1 ∧ m1.exit = .fault) ∨
      Kept p (m.obs.k.keeps p saved status pending junk) saved status junk (m.k.g.pcb p).pPrio tr
        m2 ∧ (m2.exit = .ldst p ∨ m2.k.g.actProc ≠ some p) := by
  have hr1 := (hr.next hs).2
  have hactOf : ∀ {m2}, Reached m2 → m2.exit.live → (m2.exit = .ldst p ∨ m2.exit.current ≠ some p) →
      (m2.exit = .ldst p ∨ m2.k.g.actProc ≠ some p) := fun hr2 hl hcur =>
    hcur.imp_right fun hne => by rwa [hr2.actProc hl]
  induction hrun with
  | nil =>
    rcases hgo with hl | he
    · exact .inr ⟨hr.kept hp hs hcond hfree hcur hl, hactOf hr1 hl hcur⟩
    · exact .inl ⟨rfl, he⟩
  | @snoc tr m2 ev m3 hrun hs2 ih =>
    simp only [Waits, List.mem_append, List.mem_singleton, or_imp, forall_and, forall_eq] at hwaits
    obtain ⟨⟨hw1, hw3⟩, hw2, hw4⟩ := hwaits
    have hr2 : Reached m2 := hrun.invariant hr1 fun ha hs => (ha.next hs).2
    have hnext := hr2.next hs2
    rcases ih (fun x hx => ⟨hw1 x hx, hw2 x hx⟩) hw4 (ongoing_of_next hs2.1) (.inr hw3) with
      ⟨rfl, he⟩ | ⟨hk, hact⟩
    · -- `p` itself is at an address error
      have hactp : m2.k.g.actProc = some p :=
        ((hr.next hs).1.actProc_of_fault he).trans
          ((hr.actProc (live_of_current hp)).trans hp)
      obtain ⟨ctx, hx⟩ := hr1.fault_ends hs2 he hactp hfree
      rw [hx] at hcur
      exact absurd rfl (hcur.resolve_left (by simp))
    · have hne : m2.k.g.actProc ≠ some p := hact.resolve_left fun he => hw3 (by rw [he]; rfl)
      refine .inr ⟨hk.step hr2 hs2 hne hw4 hfree, ?_⟩
      rcases hgo with hl | he
      · exact hactOf hnext.2 hl hcur
      · refine .inr ?_
        have hsame : m3.k.g.actProc = m2.k.g.actProc := hnext.1.actProc_of_fault he
        rwa [hsame]

theorem EarlyExit.not_int {k k' : Kernel View} {e : Exit} (he : EarlyExit k e k')
    (hint : k.g.IntTaken) : False := by
  cases he with
  | trap ht => exact ht.1 hint
  | user ht => exact ht.1 hint
  | sys _ hc => exact not_intTaken hc hint

/-- The status of a completion that nobody waits for goes to `reg_v0` of the running process. -/
theorem Reached.given (hr : Reached m) (hp : m.exit.current = some p)
    (hs : Step Contract m (.exception saved status pending junk) m1)
    (hint : CAUSE_GET_EXCCODE saved.cause = EXC_INT) {d : SubDev}
    (hd : (m.obs.k.g.enter saved status pending junk).served = some d)
    (hq : m.obs.k.lists.blocked (Layout.toAddresses.semAddr (.dev d)) = []) :
    m1.exit = .ldst p ∧ (m1.k.g.pcb p).pS =
      (saved.setReg regV0 (m.k.g.dev d).status).loaded (m.k.g.pcb p).pPrio := by
  have hst := hr.good.stable (live_of_current hp)
  have hact : m.obs.k.g.actProc = some p := hst.current.trans hp
  have hact' : (m.obs.k.caught saved status pending junk).g.actProc = some p := by
    rw [caught_actProc, hact]
  have hpcb : (m.obs.k.caught saved status pending junk).g.pcb p =
      { m.obs.k.g.pcb p with pS := saved } := by rw [caught_pcb hact, if_pos rfl]
  have hint' : (m.obs.k.caught saved status pending junk).g.IntTaken := by
    rw [Globals.IntTaken, caught_biosDataPage]
    exact hint
  have hd' : (m.obs.k.caught saved status pending junk).g.served = some d := by
    rw [Kernel.caught, mapG_g, save_served]
    exact hd
  have hdev : ∀ d, DevInv (m.obs.k.caught saved status pending junk) d := fun d =>
    (hst.dev d).mapG (f := fun g => (g.enter saved status pending junk).save) caught_dev
      caught_int
  have hz := (hdev d).pending (.inr (served_intr hdev hd'))
  have hone : (m.obs.k.caught saved status pending junk).g.int
      (Layout.toAddresses.semAddr (.dev d)) ≠ 1 := by rw [hz]; decide
  obtain ⟨m', hm', -, hh⟩ := hr.exception (canTake_of_current hp) hs.2
  obtain rfl : m' = m1 := Option.some.inj (hm'.symm.trans hs.1)
  cases hh with
  | exit he =>
    exact (EarlyExit.not_int (k := m.obs.k.caught saved status pending junk) he hint').elim
  | @finish r k1 _ _ ho hfin =>
    obtain ⟨w, k2, rfl, hv, rfl⟩ :=
      Outcome.of_served (k := m.obs.k.caught saved status pending junk) ho hint' hd'
    cases hv with
    | idle h1 => exact absurd h1 hone
    | block h1 => exact absurd h1 hone
    | wake _ hw => rw [caught_lists, hq] at hw; cases hw
    | give =>
      have hact2 := hact'
      obtain ⟨he, -⟩ := hfin.of_continue (p := p) (by rw [hact']; exact hact')
      refine ⟨he, ?_⟩
      have hpS := hfin.pS (q := p)
      rw [if_pos he, hact'] at hpS
      change (m'.obs.k.g.pcb p).pS = _
      rw [hpS]
      change ProcState.loaded (((m.obs.k.caught saved status pending junk).g.setPS p
        (·.setReg regV0 _)).pcb p).pS (((m.obs.k.caught saved status pending junk).g.setPS p
        (·.setReg regV0 _)).pcb p).pPrio = _
      rw [setPS_prio, Globals.setPS, setPcb_pcb, if_pos rfl, hpcb, caught_dev]
      rfl

/-- The state in which `p` is loaded the next time is that of its exception but for the results of
    its own syscall, if and only if a completion interrupt that it takes has somebody waiting. -/
theorem context_preserved_iff {g : Globals} (hg : PowerOn g)
    {tr0 : List (Mach Heap × Event × Mach Heap)} (h : Execution g tr0 m)
    (hp : m.exit.current = some p)
    (hs : Step Contract m (.exception saved status pending junk) m1) :
    (∀ tr m2, Run (Step Contract) m1 tr m2 → Waits p tr → m2.exit = .ldst p →
      ∃ s, (m2.k.g.pcb p).pS = s.loaded (m.k.g.pcb p).pPrio ∧
        Resumed p (m.obs.k.keeps p saved status pending junk) saved status junk tr s) ↔
      CompletionAwaited m.obs saved status pending junk := by
  have hr := h.reached hg
  have hr1 := (hr.next hs).2
  have hfreeOf : ∀ {m2}, Reached m2 → m2.exit = .ldst p → p ∉ m2.obs.k.lists.free :=
    fun hr2 he => by
      have hst := hr2.good.stable (live_of_current (p := p) (by rw [Mach.obs_exit, he]; rfl))
      exact (hst.loose p (hst.current.trans (by rw [Mach.obs_exit, he]; rfl))).1
  constructor
  · intro hall hint d hd hq
    obtain ⟨he, hpS⟩ := hr.given hp hs hint hd hq
    obtain ⟨s, hstate, hres⟩ := hall [] m1 .nil (by simp [Waits]) he
    have hkeeps : m.obs.k.keeps p saved status pending junk = saved :=
      if_neg fun hc => absurd (hc.1.symm.trans hint) (by decide)
    have hs : s = saved := by
      cases hres with
      | same => exact hkeeps
      | device _ hx => cases hx
    have hv0 := congrArg (·.gpr regV0) (hpS.symm.trans hstate)
    rw [hs] at hv0
    change (saved.setReg regV0 _).gpr regV0 = saved.gpr regV0 at hv0
    rw [setReg_gpr, if_pos rfl] at hv0
    exact hv0.symm
  · intro hcond tr m2 hrun hwaits he
    have hr2 : Reached m2 := hrun.invariant hr1 fun ha hs => (ha.next hs).2
    rcases hr.kept_run hp hs hcond hrun hwaits (hfreeOf hr2 he) (.inl (by rw [he]; rfl))
      (.inl he) with ⟨rfl, hf⟩ | ⟨⟨-, ⟨s, hstate, hres⟩, -⟩, -⟩
    · rw [he] at hf
      cases hf
    · rw [if_pos he] at hstate
      exact ⟨s, hstate, hres⟩

end Runs

/-- An interrupt while nothing is pending but what the devices ask for. -/
def deviceInterrupt : Event := .exception intState 0 (fun _ => false) 0

/-- A child prints and waits, and the printer completes while the first process runs. -/
def awaitedEvents : List Event :=
  [createLowEvent, sliceEvent, printEvent, .complete samplePrinter READY]

omit [Layout] in
theorem context_preserved_iff_awaited :
    letI := sampleLayout
    ∃ tr0 m m1, Execution sampleGlobals tr0 m ∧ m.exit.current = some 0 ∧
      m.obs.k.lists.blocked (sampleAddresses.semAddr (.dev samplePrinter)) = [1] ∧
      (m.k.g.enter intState 0 (fun _ => false) 0).served = some samplePrinter ∧
      Step Contract m deviceInterrupt m1 ∧
      ((∀ tr m2, Run (Step Contract) m1 tr m2 → Waits 0 tr → m2.exit = .ldst 0 →
        ∃ s, (m2.k.g.pcb 0).pS = s.loaded (m.k.g.pcb 0).pPrio ∧
          Resumed 0 (m.obs.k.keeps 0 intState 0 (fun _ => false) 0) intState 0 0 tr s) ↔
        CompletionAwaited m.obs intState 0 (fun _ => false) 0) := by
  let _ := sampleLayout
  obtain ⟨tr0, m, htr, hP⟩ := Mach.exists_run_of_play Contract (boot sampleGlobals) awaitedEvents
    (P := fun _ m => (m.next deviceInterrupt).isSome && decide (m.exit.current = some 0 ∧
      m.obs.k.lists.blocked (sampleAddresses.semAddr (.dev samplePrinter)) = [1] ∧
      (m.k.g.enter intState 0 (fun _ => false) 0).served = some samplePrinter))
    (by decide +kernel)
  obtain ⟨hsome, hP⟩ := Bool.and_eq_true_iff.mp hP
  obtain ⟨m1, hm1⟩ := Option.isSome_iff_exists.mp hsome
  obtain ⟨hcur, hq, hserved⟩ := of_decide_eq_true hP
  have hs : Step Contract m deviceInterrupt m1 := ⟨hm1, fun hcall => absurd hcall.1 (by decide)⟩
  exact ⟨tr0, m, m1, htr, hcur, hq, hserved, hs,
    context_preserved_iff sampleGlobals_powerOn htr hcur hs⟩

omit [Layout] in
/-- The printer completes after its only waiter has been killed: the status goes to `reg_v0` of the
    process that runs. -/
theorem context_overwritten :
    letI := sampleLayout
    ∃ tr0 m m1, Execution sampleGlobals tr0 m ∧ m.exit.current = some 0 ∧
      Step Contract m deviceInterrupt m1 ∧
      ¬ ∀ tr m2, Run (Step Contract) m1 tr m2 → Waits 0 tr → m2.exit = .ldst 0 →
        ∃ s, (m2.k.g.pcb 0).pS = s.loaded (m.k.g.pcb 0).pPrio ∧
          Resumed 0 (m.obs.k.keeps 0 intState 0 (fun _ => false) 0) intState 0 0 tr s := by
  let _ := sampleLayout
  obtain ⟨tr0, m, htr, hP⟩ := Mach.exists_run_of_play Contract (boot sampleGlobals)
    killEvents.dropLast (P := fun _ m => (m.next deviceInterrupt).any fun m1 : Mach Heap =>
      decide (m.exit.current = some 0 ∧ m1.exit = .ldst 0 ∧
        (m1.k.g.pcb 0).pS.gpr regV0 = READY)) (by decide +kernel)
  obtain ⟨m1, hm1, hP⟩ := (Option.any_eq_true _ _).mp hP
  obtain ⟨hcur, he, hv0⟩ := of_decide_eq_true hP
  refine ⟨tr0, m, m1, htr, hcur, ⟨hm1, fun hcall => absurd hcall.1 (by decide)⟩, fun hall => ?_⟩
  obtain ⟨s, hstate, hres⟩ := hall [] m1 .nil (by simp [Waits]) he
  cases hres with
  | same =>
    have hgpr := congrArg (·.gpr regV0) hstate
    change (m1.k.g.pcb 0).pS.gpr regV0 = 0 at hgpr
    rw [hv0] at hgpr
    exact absurd hgpr (by decide)
  | device _ hx => cases hx

end Rocm
