import Rocm.Proofs.Exceptions

/-!
# The invariant of the machine along its steps

As long as processes keep the contract, every step the specification allows leads from a good
state to a good state.
-/

namespace Rocm

theorem storeWord_commandAddr (g : Globals) (d : SubDev) (v : Word) :
    g.storeWord d.commandAddr v = g.command d v := by
  rw [Globals.storeWord, find_commandAddr]

theorem storeWord_other {a : Word} (g : Globals) (h : ∀ d : SubDev, a ≠ d.commandAddr) (v : Word) :
    g.storeWord a v = g.setInt a v := by
  have : (SubDev.all.find? fun d => d.commandAddr = a) = none := by
    rw [List.find?_eq_none]
    intro d _
    simpa using fun e => h d e.symm
  rw [Globals.storeWord, this]

theorem deliver_dev (g : Globals) (p : Option PcbId) (v : Word) : (g.deliver p v).dev = g.dev := by
  cases p <;> rfl

theorem deliver_int (g : Globals) (p : Option PcbId) (v : Word) : (g.deliver p v).int = g.int := by
  cases p <;> rfl

theorem live_of_canTake {e : Exit} {saved : ProcState} (h : e.canTake saved) : e.live := by
  revert h
  unfold Exit.canTake Exit.live
  split <;> simp

theorem live_of_running {e : Exit} (h : e.running) : e.live := by
  revert h
  unfold Exit.running Exit.live
  split <;> simp

variable {k k' : Kernel View}

theorem flushYielded_none : k.flushYielded.g.yieldedProc = none := by
  unfold Kernel.flushYielded
  split
  · assumption
  · rfl

theorem flushYielded_loose {p : PcbId} (h : k.lists.Loose p) (hy : k.g.yieldedProc ≠ some p) :
    k.flushYielded.lists.Loose p := by
  unfold Kernel.flushYielded
  split
  · exact h
  · next y hy' => exact h.enqueue fun e => hy (e ▸ hy')

variable [Layout] {act : PcbId} {s : Word} {r : EhAct} {e : Exit}

/-! ## The semaphores of the nucleus -/

/-- The clock semaphore is 0 and the devices agree with theirs. -/
structure SemsInv (k : Kernel View) : Prop where
  it : k.g.int Layout.toAddresses.semIt = 0
  dev : ∀ d, DevInv k d

theorem semIt_ne (d : SubDev) :
    Layout.toAddresses.semAddr (.dev d) ≠ Layout.toAddresses.semIt := fun h => by
  have : KernelSem.dev d = .it := semAddr_inj h
  cases this

theorem ne_of_not_isSem {a : Word} (h : ¬ Layout.toAddresses.IsSem a) (s : KernelSem) :
    Layout.toAddresses.semAddr s ≠ a := fun e => h (e ▸ Layout.toAddresses.isSem_semAddr s)

theorem SemsInv.frame (h : SemsInv k) (hdev : k'.g.dev = k.g.dev) (hint : k'.g.int = k.g.int)
    (hb : ∀ s, k.lists.blocked s = [] → k'.lists.blocked s = []) : SemsInv k' :=
  ⟨by rw [hint]; exact h.it,
    fun d => (h.dev d).frame (by rw [hdev]) (by rw [hint]) (hb _)⟩

theorem PStep.semsInv (h : SemsInv k) (hp : PStep s act k r k') : SemsInv k' := by
  refine ⟨?_, fun d => (hp.devInv (h.dev d)).1⟩
  cases hp with
  | block => exact h.it
  | wake => exact h.it
  | take =>
    rw [mapG_g, setInt_int]
    split
    · rfl
    · exact h.it

theorem VStep.semsInv {p : Option PcbId} (h : SemsInv k) (hs : ¬ Layout.toAddresses.IsSem s)
    (hv : VStep s k p k') : SemsInv k' := by
  refine ⟨?_, fun d => hv.devInv (h.dev d) (ne_of_not_isSem hs _)⟩
  cases hv with
  | idle => exact h.it
  | block => exact h.it
  | wake => exact h.it
  | give => exact (setInt_int_ne (ne_of_not_isSem hs .it)).trans h.it

theorem SemsInv.kill (h : SemsInv k) (S : List PcbId) : SemsInv (k.kill S) :=
  h.frame rfl rfl fun s hs => by
    change (k.lists.blocked s).filter _ = []
    rw [hs]
    rfl

theorem SemsInv.mapG (h : SemsInv k) {f : Globals → Globals} (hdev : (f k.g).dev = k.g.dev)
    (hint : (f k.g).int = k.g.int) : SemsInv (k.mapG f) := h.frame hdev hint fun _ => id

theorem SysOutcome.semsInv {st : ProcState} (h : SemsInv k) (hc : CallOk k k.g.junk st)
    (ho : SysOutcome k act st r k') : SemsInv k' := by
  cases ho with
  | value => exact h.mapG rfl rfl
  | full => exact h
  | @create c =>
    have hcreate : SemsInv (k.create c act st.arg1 st.arg2 st.arg3) := by
      refine h.frame rfl rfl fun s hs => ?_
      change ((k.lists.popFree.pushChild _ _).enqueue _ _).blocked s = []
      rw [View.enqueue_blocked]
      exact hs
    exact hcreate.mapG rfl rfl
  | terminate => exact h.kill _
  | passeren _ _ _ hp => exact hp.semsInv h
  | verhogen hn _ _ hv => exact hv.semsInv h (hc.sem (.inr hn))
  | @doio _ k2 hn _ _ _ _ hp =>
    have h2 := hp.semsInv h
    by_cases hd : ∃ d : SubDev, st.arg1 = d.commandAddr
    · obtain ⟨d, hd⟩ := hd
      rw [hd, doIoSem_commandAddr] at hp
      have hz := (hp.devInv (h.dev d)).2 rfl
      rw [hd]
      simp only [storeWord_commandAddr]
      refine ⟨h2.it, fun d' => ?_⟩
      by_cases e : d' = d
      · subst e
        exact DevInv.command (h2.dev d') hz _
      · exact (h2.dev d').command_ne e _
    · have hf := ((hc.doio hn).resolve_left hd).1
      have hmap : k2.mapG (·.storeWord st.arg1 st.arg2) = k2.mapG (·.setInt st.arg1 st.arg2) :=
        congrArg (Kernel.mk _) (storeWord_other _ (fun d e => hd ⟨d, e⟩) _)
      rw [hmap]
      refine ⟨(setInt_int_ne (ne_of_not_isSem hf .it)).trans h2.it, fun d => ?_⟩
      exact (h2.dev d).frame rfl (setInt_int_ne (ne_of_not_isSem hf (.dev d))) id
  | clockwait _ hp => exact hp.semsInv h
  | yield => exact h.mapG rfl rfl
  | unknown => exact h.kill _

/-- After the acknowledgement nothing is pending. -/
theorem DevInv.acknowledge {v : View} {g : Globals} {d : SubDev} (hintr : (g.dev d).busy = false)
    (hrange : g.int (Layout.toAddresses.semAddr (.dev d)) = 0 ∨
      g.int (Layout.toAddresses.semAddr (.dev d)) = 1)
    (hone : g.int (Layout.toAddresses.semAddr (.dev d)) = 1 →
      v.blocked (Layout.toAddresses.semAddr (.dev d)) = []) : DevInv ⟨v, g.command d ACK⟩ d := by
  have hdev : (g.command d ACK).dev d =
      { g.dev d with status := READY, command := ACK, intr := false } := by
    change Function.update g.dev d _ d = _
    rw [Function.update_self, DevState.store, if_neg (by simp [hintr]), if_pos rfl]
  refine ⟨hrange, fun hp => ?_, ?_, hone, fun _ hok => ?_⟩
  · rw [hdev, hintr] at hp
    simp at hp
  · rw [hdev]
    simp
  · rw [hdev] at hok
    exact absurd hok (show ¬ okCharTrans READY = true by decide)

/-- A completion: the semaphore was 0, the V wakes somebody or raises it, the device is
    acknowledged. -/
theorem served_semsInv {d : SubDev} {p : Option PcbId} (h : SemsInv k) (hs : k.g.served = some d)
    (hv : VStep (Layout.toAddresses.semAddr (.dev d)) k p k') :
    SemsInv (k'.mapG fun g => (g.deliver p (k.g.dev d).status).command d ACK) := by
  have hintr := served_intr h.dev hs
  have hz := (h.dev d).pending (.inr hintr)
  have hbusy : (k.g.dev d).busy = false := by
    have := (h.dev d).excl
    simpa [hintr] using this
  have hdev := hv.dev
  have hne : k.g.int (Layout.toAddresses.semAddr (.dev d)) ≠ 1 := by rw [hz]; decide
  refine ⟨?_, fun d' => ?_⟩
  · change (k'.g.deliver p _).int _ = 0
    rw [deliver_int]
    cases hv with
    | idle hone => exact absurd hone hne
    | block hone => exact absurd hone hne
    | wake => exact h.it
    | give => exact (setInt_int_ne (semIt_ne d).symm).trans h.it
  · by_cases e : d' = d
    · subst e
      refine DevInv.acknowledge ?_ ?_ ?_
      · rw [deliver_dev, hdev]
        exact hbusy
      · rw [deliver_int]
        cases hv with
        | idle hone => exact absurd hone hne
        | block hone => exact absurd hone hne
        | wake => exact .inl hz
        | give => exact .inr (Function.update_self ..)
      · rw [deliver_int]
        cases hv with
        | idle hone => exact absurd hone hne
        | block hone => exact absurd hone hne
        | wake => exact fun hone => absurd hone hne
        | give _ hnil => exact fun _ => hnil
    · have hs : Layout.toAddresses.semAddr (.dev d') ≠ Layout.toAddresses.semAddr (.dev d) :=
        fun he => e (by have : KernelSem.dev d' = .dev d := semAddr_inj he; cases this; rfl)
      have h' := hv.devInv (h.dev d') hs
      have h'' : DevInv (k'.mapG (·.deliver p (k.g.dev d).status)) d' :=
        h'.mapG (deliver_dev _ _ _) (deliver_int _ _ _)
      exact h''.command_ne e ACK

theorem wakeAll_semsInv (h : SemsInv k) (ws : List PcbId) :
    SemsInv (k.wakeAll Layout.toAddresses.semIt ws) := by
  induction ws generalizing k with
  | nil => exact h
  | cons w ws ih =>
    refine ih ⟨h.it, fun d => (h.dev d).frame rfl rfl fun hb => ?_⟩
    exact (wake_blocked_ne (semIt_ne d)).trans hb

theorem Outcome.semsInv (h : SemsInv k) (hc : k.g.KernelCall k.g.biosDataPage →
      CallOk k k.g.junk k.g.biosDataPage) (ho : Outcome k r k') : SemsInv k' := by
  cases ho with
  | slice => exact h.mapG rfl rfl
  | unserved => exact h
  | spurious => exact h
  | tick =>
    have h' : SemsInv (k.mapG fun g => { g with intervalTimer := PSECOND }) := h.mapG rfl rfl
    have h'' := wakeAll_semsInv h' (k.lists.blocked Layout.toAddresses.semIt)
    refine ⟨Function.update_self .., fun d => (h''.dev d).frame rfl ?_ id⟩
    exact (setInt_int_ne (semIt_ne d)).trans (setInt_int_ne (semIt_ne d))
  | served _ hs hv => exact served_semsInv h hs hv
  | sys _ hcall ho => exact (ho.semsInv h (hc hcall)).mapG rfl rfl
  | die => exact SemsInv.kill (h.mapG rfl rfl) _

/-! ## From exception to exit -/

theorem Good.dead {o : Obs} (hp : o.exit.proper) (hl : o.exit.live = false)
    (hf : o.exit ≠ .fault) : Good o :=
  ⟨hp, fun h => (by rw [hl] at h; cases h), fun h => absurd h hf⟩

theorem Good.of_stable {o : Obs} (hp : o.exit.proper) (hl : o.exit.live) (h : Stable o) : Good o :=
  ⟨hp, fun _ => h, fun he => (by rw [he] at hl; cases hl)⟩

theorem SemsInv.enqueue (h : SemsInv k) (p : PcbId) (prio : Word) :
    SemsInv ⟨k.lists.enqueue p prio, k.g⟩ :=
  h.frame rfl rfl fun s hs => by
    change (k.lists.enqueue p prio).blocked s = []
    rw [View.enqueue_blocked]
    exact hs

theorem SemsInv.flushYielded (h : SemsInv k) : SemsInv k.flushYielded := by
  unfold Kernel.flushYielded
  split
  · exact h
  · exact (h.enqueue _ _).mapG (f := fun g => { g with yieldedProc := none }) rfl rfl

/-- What is known of the state when the handler of an exception is done with it. -/
structure Settled (k : Kernel View) : Prop extends Sound k, SemsInv k where
  yielded : ∀ y, k.g.yieldedProc = some y → k.lists.Loose y

theorem Sound.flushYielded (h : Sound k) (hy : ∀ y, k.g.yieldedProc = some y → k.lists.Loose y) :
    Sound k.flushYielded := by
  refine ⟨h.inv.flushYielded, ?_⟩
  unfold Kernel.flushYielded
  split
  · exact h.wf
  · next y hy' => exact h.wf.enqueue (hy y hy') _

theorem load_good {p : PcbId} (h : Settled k) (hp : k.lists.Loose p)
    (hy : k.g.yieldedProc ≠ some p) : Good ⟨k.load p, .ldst p⟩ := by
  have hs := h.toSemsInv.flushYielded
  have hwf := (h.toSound.flushYielded h.yielded).wf
  refine .of_stable rfl rfl
    ⟨⟨⟨h.inv.load, hwf⟩, flushYielded_none, hs.it, fun d => ?_, fun q hq => ?_⟩, rfl⟩
  · exact (hs.dev d).frame rfl rfl id
  · obtain rfl : p = q := Option.some.inj hq
    exact flushYielded_loose hp hy

theorem dispatch_head {p : PcbId} {ps : List PcbId} {q : Queue} (h : Settled k)
    (hq : k.lists.ready q = p :: ps) : Good ⟨Kernel.load ⟨k.lists.popReady q, k.g⟩ p, .ldst p⟩ := by
  have h' : Settled ⟨k.lists.popReady q, k.g⟩ :=
    ⟨⟨h.inv.popReady, h.wf.popReady q⟩, h.toSemsInv.frame rfl rfl fun _ => id,
      fun y hy => (h.yielded y hy).popReady⟩
  refine load_good h' (h.wf.loose_popReady hq) fun hy => ?_
  exact (h.yielded p hy).2.1 q (by rw [hq]; exact List.mem_cons_self)

theorem Dispatch.good (h : Settled k) (hd : Dispatch k e k') : Good ⟨k', e⟩ := by
  cases hd with
  | high hq => exact dispatch_head h hq
  | low _ hq => exact dispatch_head h hq
  | halt => exact .dead rfl rfl nofun
  | deadlock => exact .dead rfl rfl nofun
  | wait =>
    have hs := h.toSemsInv.flushYielded
    have hwf := (h.toSound.flushYielded h.yielded).wf
    refine .of_stable rfl rfl ⟨⟨⟨h.inv.flushYielded.idle, hwf⟩, flushYielded_none, hs.it,
      fun d => ?_, fun q hq => by cases hq⟩, rfl⟩
    exact (hs.dev d).frame rfl rfl id

theorem Settled.age (h : Settled k) (p : PcbId) : Settled (k.mapG (·.age p)) :=
  ⟨⟨h.inv.age, h.wf⟩, h.toSemsInv.mapG rfl rfl, h.yielded⟩

theorem Disposed.settled (h : Settled k)
    (hr : r = .renqueue → ∀ p, k.g.actProc = some p → k.lists.Loose p)
    (hy : ∀ y, k.g.yieldedProc = some y → r = .nothing) (hd : Disposed k r k') : Settled k' := by
  cases hd with
  | none => exact h
  | @renqueue p hact =>
    refine ⟨⟨?_, h.wf.enqueue (hr rfl p hact) _⟩, ?_, fun y hy' => ?_⟩
    · have := (h.age p).inv.enqueue (p := p)
      rwa [mapG_g, (sameTags_age k.g p).prio] at this
    · exact (h.toSemsInv.enqueue p _).mapG (f := (·.age p)) rfl rfl
    · exact absurd (hy y hy') (by decide)
  | @nothing p => exact h.age p

theorem Finish.good (h : Settled k)
    (hr : r = .continue ∨ r = .renqueue → ∀ p, k.g.actProc = some p → k.lists.Loose p)
    (hy : ∀ y, k.g.yieldedProc = some y → r = .nothing) (hf : Finish k r e k') :
    Good ⟨k', e⟩ := by
  have hset : ∀ {k1}, Disposed k r k1 → Settled k1 := fun hd =>
    hd.settled h (fun e => hr (.inr e)) hy
  cases hf with
  | none hact hd => exact hd.good (hset (.none hact))
  | @«continue» p hact =>
    refine load_good (h.age p) (hr (.inl rfl) p hact) fun hy' => ?_
    exact absurd (hy p hy') (by decide)
  | renqueue hact hd => exact hd.good (hset (.renqueue hact))
  | nothing hact hc hrq hd => exact hd.good (hset (.nothing hact hc hrq))

theorem passUp_good {ctx : Context} (h : Entered k) (hs : SemsInv k)
    (hact : k.g.actProc = some act) (sup : Word) (kind : Fin 2) :
    Good ⟨k.mapG (·.passUp sup kind), .ldcxt act ctx⟩ := by
  have hsound := h.toSound.mapG (f := (·.passUp sup kind)) (.of_pcb rfl) rfl rfl
  refine .of_stable rfl rfl ⟨⟨hsound, h.yielded, hs.it, fun d => ?_, h.loose⟩, hact⟩
  exact (hs.dev d).mapG (f := (·.passUp sup kind)) rfl rfl

theorem Entered.setPS (h : Entered k) (f : ProcState → ProcState) :
    Entered (k.mapG (·.setPS act f)) :=
  ⟨h.toSound.setPS f, h.loose, h.yielded, h.served⟩

/-! An address error of the nucleus. -/

/-- The scheduler causes none. -/
theorem Dispatch.ne_fault (h : Dispatch k e k') : e ≠ .fault := by
  cases h <;> nofun

/-- What follows the handler of an exception causes none. -/
theorem Finish.ne_fault (h : Finish k r e k') : e ≠ .fault := by
  cases h with
  | «continue» => nofun
  | none _ hd => exact hd.ne_fault
  | renqueue _ hd => exact hd.ne_fault
  | nothing _ _ _ hd => exact hd.ne_fault

theorem Entered.good_fault (h : Entered k) (hs : SemsInv k) (hact : k.g.actProc = some act) :
    Good ⟨k, .fault⟩ :=
  ⟨rfl, nofun, fun _ _ => ⟨⟨h.toSound, h.yielded, hs.it, hs.dev, h.loose⟩, by rw [hact]; nofun⟩⟩

/-- A DOIO that has not blocked. -/
theorem PStep.poised (h : Entered k) (hs : SemsInv k) (hact : k.g.actProc = some act)
    (hal : s &&& 3 = 0) (hp : PStep s act k r k') (hu : Unblocked k') :
    Poised k' ∧ k'.g.actProc ≠ none := by
  have hs' := hp.semsInv hs
  have hsound := hp.sound h hal hact
  have hsome : k.g.actProc ≠ none := by rw [hact]; nofun
  cases hp with
  | block =>
    have hmem := (hsound.inv.blocked act s).mp (View.mem_pushBlocked.mpr (.inr ⟨rfl, rfl⟩))
    exact absurd (hmem.1.symm.trans (hu act hact)) hmem.2
  | wake _ hq =>
    exact ⟨⟨hsound, h.yielded, hs'.it, hs'.dev, (placed_wake h hq .renqueue).loose (.inr rfl)⟩, hsome⟩
  | take => exact ⟨⟨hsound, h.yielded, hs'.it, hs'.dev, h.loose⟩, hsome⟩

theorem EarlyExit.good (h : Entered k) (hs : SemsInv k) (he : EarlyExit k e k') :
    Good ⟨k', e⟩ := by
  cases he with
  | trap _ hact => exact passUp_good h hs hact _ _
  | @user act f _ _ hact =>
    have hs' : SemsInv (k.mapG (·.setPS act f)) := hs.mapG rfl rfl
    exact passUp_good (h.setPS f) hs' hact _ _
  | sys hact _ he =>
    cases he with
    | passUp => exact passUp_good h hs hact _ _
    | sem => exact h.good_fault hs hact
    | doioSem => exact h.good_fault hs hact
    | doio _ _ hal hp => exact ⟨rfl, nofun, fun _ => hp.poised h hs hact hal⟩
    | _ => exact .dead rfl rfl nofun

omit [Layout] in
theorem Placed.loose_act {k1 : Kernel View} (h : Placed k r k1) (hr : r = .continue ∨ r = .renqueue) :
    ∀ p, k1.g.actProc = some p → k1.lists.Loose p :=
  fun p hp => h.loose hr p (h.act.symm.trans hp)

theorem Sound.unblocked (h : Sound k) (hl : ∀ p, k.g.actProc = some p → k.lists.Loose p) :
    Unblocked k := fun p hp => h.inv.toKCore.semAdd_of_loose (hl p hp)

/-- An address error of the nucleus leaves its caller unblocked, unless a DOIO has blocked it
    before. -/
theorem EarlyExit.unblocked (h : Entered k)
    (ha : k.g.KernelCall k.g.biosDataPage → k.g.biosDataPage.number = DOIO →
      k.g.biosDataPage.arg1 &&& 3 = 0 ∨ k.g.int (doIoSem k.g.junk k.g.biosDataPage.arg1) ≠ 0)
    (hx : EarlyExit k .fault k') : Unblocked k' := by
  cases hx with
  | sys hact hcall hs =>
    cases hs with
    | sem => exact h.toSound.unblocked h.loose
    | doioSem => exact h.toSound.unblocked h.loose
    | @doio r _ hn hmis hal hp =>
      have hone := (ha hcall hn).resolve_left hmis
      have hr : r = .renqueue := by
        cases hp with
        | block hz => exact absurd hz hone
        | wake => rfl
        | take => rfl
      exact (hp.sound h hal hact).unblocked ((hp.placed h).loose_act (.inr hr))

theorem Poised.ready (h : Poised k) {saved : ProcState} {status junk : Word}
    {pending : Fin 3 → Bool} (hidle : k.g.actProc = none → CAUSE_GET_EXCCODE saved.cause = EXC_INT)
    (hterm : (k.g.enter saved status pending junk).KernelCall saved → TermOk k saved) :
    Ready (k.mapG (·.enter saved status pending junk)) where
  inv := h.inv.mapG (.of_pcb rfl) rfl rfl
  wf := h.wf
  loose := h.loose
  yielded := h.yielded
  served d hd hone := by
    have hdev : ∀ d, DevInv (k.mapG (·.enter saved status pending junk)) d := fun d =>
      (h.dev d).mapG rfl rfl
    have hz := (hdev d).pending (.inr (served_intr hdev hd))
    exact absurd (hz.symm.trans hone) (by decide)
  idle := hidle
  it := h.it
  term := hterm

theorem Stable.ready {o : Obs} (h : Stable o) {saved : ProcState} {status junk : Word}
    {pending : Fin 3 → Bool} (hcan : o.exit.canTake saved)
    (hc : Contract o (.exception saved status pending junk)) :
    Ready (o.k.mapG (·.enter saved status pending junk)) := by
  refine h.toPoised.ready (fun hn => ?_) fun hcall => (hc hcall).term
  have hexit : o.exit.current = none := h.current.symm.trans hn
  unfold Exit.canTake at hcan
  split at hcan
  · rename_i he; rw [he] at hexit; cases hexit
  · rename_i he; rw [he] at hexit; cases hexit
  · exact of_decide_eq_true hcan
  · cases hcan

omit [Layout] in
/-- An address error is no system call. -/
theorem ProcState.IsAddressError.not_kernelCall {g : Globals} {st : ProcState}
    (h : st.IsAddressError) : ¬ g.KernelCall st := fun hcall => by
  rcases h with h | h <;> exact absurd (h.symm.trans hcall.1) (by decide)

omit [Layout] in
theorem ProcState.IsAddressError.not_int {st : ProcState} (h : st.IsAddressError) :
    CAUSE_GET_EXCCODE st.cause ≠ EXC_INT := fun hi => by
  rcases h with h | h <;> exact absurd (h.symm.trans hi) (by decide)

/-- The exception that an address error of the nucleus causes. -/
theorem Good.ready_fault {o : Obs} (h : Good o) (he : o.exit = .fault) (hu : Unblocked o.k)
    {saved : ProcState} (herr : saved.IsAddressError) {status junk : Word} {pending : Fin 3 → Bool} :
    Ready (o.k.mapG (·.enter saved status pending junk)) :=
  (h.fault he hu).1.ready (fun hn => absurd hn (h.fault he hu).2) fun hcall =>
    absurd hcall herr.not_kernelCall

/-- Saving the registers of the running process changes nothing that a syscall depends on. -/
theorem callOk_save (hc : k.g.KernelCall k.g.biosDataPage →
      CallOk k k.g.junk k.g.biosDataPage) :
    let k' := k.mapG (·.save)
    k'.g.KernelCall k'.g.biosDataPage → CallOk k' k'.g.junk k'.g.biosDataPage := by
  simp only [mapG_g, save_biosDataPage, save_junk, Globals.KernelCall, save_cpuStatus]
  intro hcall
  have hok := hc hcall
  refine ⟨?_, hok.sem, hok.doio⟩
  simp only [TermOk, mapG_g, mapG_lists, (sameTags_save k.g).pid]
  exact hok.term

/-- The handler of an exception leaves a settled state and the running process in its place. -/
theorem Outcome.settled {k1 : Kernel View} (h : Ready k) (hs : SemsInv k)
    (hc : k.g.KernelCall k.g.biosDataPage → CallOk k k.g.junk k.g.biosDataPage)
    (ho : Outcome (k.mapG (·.save)) r k1) : Settled k1 ∧ Placed (k.mapG (·.save)) r k1 := by
  have hsave := h.save
  have hsems : SemsInv (k.mapG (·.save)) := hs.mapG (save_dev _) (save_int _)
  have hpl := ho.placed hsave.toEntered
  exact ⟨⟨ho.sound hsave.toEntered, ho.semsInv hsems (callOk_save hc), fun y hy => (hpl.yielded y hy).2.2⟩, hpl⟩

theorem Handled.good (h : Ready k) (hs : SemsInv k) (hc : k.g.KernelCall k.g.biosDataPage →
      CallOk k k.g.junk k.g.biosDataPage) (hh : Handled k e k') : Good ⟨k', e⟩ := by
  cases hh with
  | exit he => exact he.good h.save.toEntered (hs.mapG (save_dev _) (save_int _))
  | finish ho hf =>
    obtain ⟨hset, hpl⟩ := ho.settled h hs hc
    exact hf.good hset hpl.loose_act fun y hy => (hpl.yielded y hy).1

theorem Stable.settled {o : Obs} (h : Stable o) : Settled o.k :=
  ⟨h.toSound, ⟨h.it, h.dev⟩, fun y hy => by rw [h.yielded] at hy; cases hy⟩

theorem Contract.callOk {o : Obs} {saved : ProcState} {status junk : Word} {pending : Fin 3 → Bool}
    (hc : Contract o (.exception saved status pending junk)) :
    let k := o.k.mapG (·.enter saved status pending junk)
    k.g.KernelCall k.g.biosDataPage → CallOk k k.g.junk k.g.biosDataPage := fun hcall =>
  ⟨(hc hcall).term, (hc hcall).sem, (hc hcall).doio⟩

theorem DevInv.complete {v : View} {g : Globals} {d : SubDev} (h : DevInv ⟨v, g⟩ d)
    (status : Word) :
    DevInv ⟨v, { g with dev := Function.update g.dev d ((g.dev d).complete status) }⟩ d := by
  have hdev : (Function.update g.dev d ((g.dev d).complete status)) d =
      (g.dev d).complete status := Function.update_self ..
  have hexcl := h.excl
  refine ⟨h.range, fun hp => h.pending ?_, ?_, h.one, fun ht hok => ?_⟩ <;>
    simp only [hdev, DevState.complete] at * <;> split at * <;> simp_all
  exact h.okChar ht hok

/-- A step that can occur starts from a poised state. -/
theorem Next.poised {o o' : Obs} {ev : Event} (h : Good o) (hc : Contract o ev)
    (hn : Next o ev o') : Poised o.k := by
  cases hn with
  | exception hcan => exact (h.stable (live_of_canTake hcan)).toPoised
  | resume he => exact (h.stable (by rw [he]; rfl)).toPoised
  | complete hl => exact (h.stable hl).toPoised
  | store hr => exact (h.stable (live_of_running hr)).toPoised
  | storeState hr => exact (h.stable (live_of_running hr)).toPoised
  | storeSupport hr => exact (h.stable (live_of_running hr)).toPoised
  | addressError he => exact (h.fault he hc).1

/-- An address error of the nucleus finds the running process unblocked, unless a DOIO with a
    misaligned address has blocked it. -/
theorem Next.unblocked {o o' : Obs} {ev : Event} (h : Good o) (hc : Contract o ev)
    (ha : DoioAligned o ev) (hn : Next o ev o') (he : o'.exit = .fault) : Unblocked o'.k := by
  cases hn with
  | exception hcan hh =>
    subst he
    have hr := (h.stable (live_of_canTake hcan)).ready hcan hc
    cases hh with
    | exit hx =>
      refine hx.unblocked hr.save.toEntered ?_
      simp only [mapG_g, save_biosDataPage, save_junk, save_int, Globals.KernelCall,
        save_cpuStatus]
      exact ha
    | finish _ hf => exact absurd rfl hf.ne_fault
  | addressError _ herr hh =>
    subst he
    cases hh with
    | exit hx =>
      cases hx with
      | sys _ hcall =>
        simp only [mapG_g, save_biosDataPage, Globals.KernelCall, save_cpuStatus] at hcall
        exact absurd hcall herr.not_kernelCall
    | finish _ hf => exact absurd rfl hf.ne_fault
  | resume _ hd => exact absurd he hd.ne_fault
  | complete hl =>
    rw [show o.exit = .fault from he] at hl
    cases hl
  | store hr | storeState hr | storeSupport hr =>
    rw [show o.exit = .fault from he] at hr
    cases hr

/-- Every step that keeps the contract leads from a good state to a good state. -/
theorem Next.good {o o' : Obs} {ev : Event} (h : Good o) (hc : Contract o ev)
    (hn : Next o ev o') : Good o' := by
  cases hn with
  | @exception saved status pending junk e k' hcan hh =>
    have hst := h.stable (live_of_canTake hcan)
    exact hh.good (hst.ready hcan hc) ⟨hst.it, fun d => (hst.dev d).mapG rfl rfl⟩ hc.callOk
  | resume he hd =>
    have hst := h.stable (by rw [he]; rfl)
    exact hd.good hst.settled
  | @complete d status hlive =>
    have hst := h.stable hlive
    refine .of_stable h.proper hlive ⟨⟨⟨hst.inv.mapG (f := fun g => { g with
      dev := Function.update g.dev d ((g.dev d).complete status) }) (.of_pcb rfl) rfl rfl, hst.wf⟩,
      hst.yielded, hst.it, fun d' => ?_, hst.loose⟩, hst.current⟩
    by_cases e : d' = d
    · subst e
      exact (hst.dev d').complete status
    · exact (hst.dev d').frame (Function.update_of_ne e _ _) rfl id
  | @store a v hr ha =>
    have hst := h.stable (live_of_running hr)
    refine .of_stable h.proper (live_of_running hr) ⟨⟨⟨hst.inv.mapG (f := (·.setInt a v))
      (.of_pcb rfl) rfl rfl, hst.wf⟩, hst.yielded,
      (setInt_int_ne (ne_of_not_isSem ha .it)).trans hst.it, fun d => ?_, hst.loose⟩, hst.current⟩
    exact (hst.dev d).frame rfl (setInt_int_ne (ne_of_not_isSem ha (.dev d))) id
  | @storeState a s hr =>
    have hst := h.stable (live_of_running hr)
    exact .of_stable h.proper (live_of_running hr) ⟨⟨⟨hst.inv.mapG (f := fun g => { g with
      states := Function.update g.states a s }) (.of_pcb rfl) rfl rfl, hst.wf⟩,
      hst.yielded, hst.it, fun d => (hst.dev d).frame rfl rfl id, hst.loose⟩, hst.current⟩
  | @storeSupport a s hr =>
    have hst := h.stable (live_of_running hr)
    exact .of_stable h.proper (live_of_running hr) ⟨⟨⟨hst.inv.mapG (f := fun g => { g with
      supports := Function.update g.supports a s }) (.of_pcb rfl) rfl rfl, hst.wf⟩,
      hst.yielded, hst.it, fun d => (hst.dev d).frame rfl rfl id, hst.loose⟩, hst.current⟩
  | addressError he herr hh =>
    have hf := (h.fault he hc).1
    exact hh.good (h.ready_fault he hc herr) ⟨hf.it, fun d => (hf.dev d).mapG rfl rfl⟩
      fun hcall => absurd hcall herr.not_kernelCall

end Rocm
