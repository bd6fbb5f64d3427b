import Rocm.Properties.Sample

/-!
# No process is lost

Whenever a process is loaded or the processor waits, every process runs, is ready or waits for a
semaphore, as long as no CREATEPROCESS fails or is given another priority, and a DOIO blocks exactly
when its address is that of a word.
-/

namespace Rocm

open Prog ProcTable Runs

/-- Every process runs, or is in the ready queue of its priority, or in the queue of the semaphore
    it is tagged with. -/
def Accounted (o : Obs) : Prop :=
  ∀ p, p ∉ o.k.lists.free → o.exit.current = some p ∨
    (∃ q : Queue, (o.k.g.pcb p).pPrio = q.prio ∧ p ∈ o.k.lists.ready q) ∨
    p ∈ o.k.lists.blocked (o.k.g.pcb p).pSemAdd

/-- Every process is the one that is held aside, or ready, or blocked, and has one of the two
    priorities. -/
def Held (k : Kernel View) (aside : Option PcbId) : Prop :=
  ∀ p, p ∉ k.lists.free → ((k.g.pcb p).pPrio = PROCESS_PRIO_LOW ∨
      (k.g.pcb p).pPrio = PROCESS_PRIO_HIGH) ∧
    (aside = some p ∨ (∃ q, p ∈ k.lists.ready q) ∨ ∃ s, p ∈ k.lists.blocked s)

section Held

variable {k k' : Kernel View} {aside aside' : Option PcbId} {p w : PcbId} {s : Word}

theorem KTags.accounted (h : KTags k) {e : Exit} (hh : Held k e.current) : Accounted ⟨k, e⟩ := by
  intro p hp
  rcases (hh p hp).2 with he | ⟨q, hq⟩ | ⟨s, hs⟩
  · exact .inl he
  · exact .inr (.inl ⟨q, h.prio q p hq, hq⟩)
  · have hsem := ((h.blocked p s).mp hs).1
    exact .inr (.inr (by rw [hsem]; exact hs))

/-- Nothing but other fields of the PCBs has changed. -/
theorem Held.congr (h : Held k aside) (hl : k'.lists = k.lists)
    (hp : ∀ q, (k'.g.pcb q).pPrio = (k.g.pcb q).pPrio) : Held k' aside := by
  intro p hfree
  rw [hl] at hfree ⊢
  rw [hp]
  exact h p hfree

theorem Held.setPS (h : Held k aside) (f : ProcState → ProcState) :
    Held (k.mapG (·.setPS p f)) aside :=
  h.congr rfl fun q => by rw [mapG_g, setPS_prio]

/-- Nothing but plain variables has changed. -/
theorem Held.mapG (h : Held k aside) {f : Globals → Globals} (hp : (f k.g).pcb = k.g.pcb) :
    Held (k.mapG f) aside :=
  h.congr rfl fun q => by rw [mapG_g, hp]

theorem mem_enqueue {v : View} {prio : Word}
    (h : prio = PROCESS_PRIO_LOW ∨ prio = PROCESS_PRIO_HIGH) :
    ∃ q, p ∈ (v.enqueue p prio).ready q := by
  rcases h with rfl | rfl
  · exact ⟨.low, View.mem_enqueue_ready.mpr (.inr ⟨rfl, rfl⟩)⟩
  · exact ⟨.high, View.mem_enqueue_ready.mpr (.inr ⟨rfl, rfl⟩)⟩

/-- The process that was held aside becomes ready. -/
theorem Held.enqueue (h : Held k (some p)) :
    Held ⟨k.lists.enqueue p (k.g.pcb p).pPrio, k.g⟩ none := by
  intro r hr
  rw [View.enqueue_free] at hr
  obtain ⟨hprio, hplace⟩ := h r hr
  refine ⟨hprio, .inr ?_⟩
  rw [View.enqueue_blocked]
  rcases hplace with he | ⟨q, hq⟩ | hs
  · obtain rfl : p = r := Option.some.inj he
    exact .inl (mem_enqueue hprio)
  · exact .inl ⟨q, View.mem_enqueue_ready.mpr (.inl hq)⟩
  · exact .inr hs

/-- Nobody is held aside, so it does not matter who is. -/
theorem Held.mono (h : Held k none) (aside : Option PcbId) : Held k aside := fun p hp =>
  ⟨(h p hp).1, .inr ((h p hp).2.resolve_left (by simp))⟩

/-- The first in a semaphore queue becomes ready. -/
theorem Held.wake (h : Held k aside) {ws : List PcbId} (hs : k.lists.blocked s = w :: ws) :
    Held (k.wake s w) aside := by
  intro p hp
  have hfree : p ∉ k.lists.free := by
    change p ∉ ((k.lists.popBlocked s).enqueue w _).free at hp
    rwa [View.enqueue_free] at hp
  obtain ⟨hprio, hplace⟩ := h p hfree
  have hsame : ((k.wake s w).g.pcb p).pPrio = (k.g.pcb p).pPrio := by
    simp only [Kernel.wake, Globals.unblock, setPcb_pcb]
    split
    · next e => rw [e]
    · rfl
  rw [hsame]
  refine ⟨hprio, hplace.imp_right fun hplace => ?_⟩
  by_cases e : p = w
  · subst e
    exact .inl (mem_enqueue hprio)
  rcases hplace with ⟨q, hq⟩ | ⟨s', hs'⟩
  · exact .inl ⟨q, View.mem_enqueue_ready.mpr (.inl hq)⟩
  · refine .inr ⟨s', ?_⟩
    change p ∈ ((k.lists.popBlocked s).enqueue w _).blocked s'
    rw [View.enqueue_blocked]
    change p ∈ Function.update k.lists.blocked s (k.lists.blocked s).tail s'
    rw [Function.update_apply]
    split
    · next e' =>
      subst e'
      rw [hs] at hs' ⊢
      exact (List.mem_cons.mp hs').resolve_left e
    · exact hs'

/-- The process that was held aside goes to a semaphore queue. -/
theorem Held.block (h : Held k (some p)) : Held (k.block s p) none := by
  intro r hr
  obtain ⟨hprio, hplace⟩ := h r hr
  have hsame : ((k.block s p).g.pcb r).pPrio = (k.g.pcb r).pPrio := by
    simp only [Kernel.block, Globals.block, setPcb_pcb]
    split
    · next e => rw [e]
    · rfl
  rw [hsame]
  refine ⟨hprio, .inr ?_⟩
  rcases hplace with he | hq | ⟨s', hs'⟩
  · obtain rfl : p = r := Option.some.inj he
    exact .inr ⟨s, View.mem_pushBlocked.mpr (.inr ⟨rfl, rfl⟩)⟩
  · exact .inl hq
  · exact .inr ⟨s', View.mem_pushBlocked.mpr (.inl hs')⟩

/-- Those who are killed are free. -/
theorem Held.kill (h : Held k aside) {S : List PcbId}
    (haside : ∀ p, aside = some p → p ∉ S → aside' = some p) : Held (k.kill S) aside' := by
  intro p hp
  have hpS : p ∉ S ∧ p ∉ k.lists.free := by
    change p ∉ S ++ k.lists.free at hp
    simpa using hp
  obtain ⟨hprio, hplace⟩ := h p hpS.2
  have hmem : ∀ {l : List PcbId}, p ∈ l → p ∈ l.filter (· ∉ S) := fun hl =>
    List.mem_filter.mpr ⟨hl, by simpa using hpS.1⟩
  refine ⟨by simpa only [Kernel.kill, Globals.kill, if_neg hpS.1] using hprio, ?_⟩
  rcases hplace with he | ⟨q, hq⟩ | ⟨s, hs⟩
  · exact .inl (haside p he hpS.1)
  · exact .inr (.inl ⟨q, hmem hq⟩)
  · exact .inr (.inr ⟨s, hmem hs⟩)

/-- A new process of one of the two priorities. -/
theorem Held.create [Layout] (h : Held k aside) {c r : PcbId} {cs : List PcbId}
    (hf : k.lists.free = c :: cs) (statep prio supportp : Word)
    (hprio : prio = PROCESS_PRIO_LOW ∨ prio = PROCESS_PRIO_HIGH) :
    Held (k.create c r statep prio supportp) aside := by
  intro p hp
  have hfree : p ∉ cs := by
    change p ∉ ((k.lists.popFree.pushChild r c).enqueue c prio).free at hp
    rw [View.enqueue_free] at hp
    change p ∉ k.lists.free.tail at hp
    rwa [hf, List.tail_cons] at hp
  by_cases e : p = c
  · subst e
    refine ⟨?_, .inr (.inl (mem_enqueue hprio))⟩
    simpa [Kernel.create, Globals.create, Globals.newPcb] using hprio
  · obtain ⟨hprio', hplace⟩ := h p (by rw [hf]; simp [e, hfree])
    refine ⟨by simpa [Kernel.create, Globals.create, e] using hprio', hplace.imp_right ?_⟩
    rintro (⟨q, hq⟩ | ⟨s, hs⟩)
    · exact .inl ⟨q, View.mem_enqueue_ready.mpr (.inl hq)⟩
    · refine .inr ⟨s, ?_⟩
      change p ∈ ((k.lists.popFree.pushChild r c).enqueue c prio).blocked s
      rw [View.enqueue_blocked]
      exact hs

end Held

/-! ## The handlers -/

/-- Who is held aside when a handler returns `r`: the running process if it is to go on, else the
    one that has yielded. -/
def Globals.aside (g : Globals) (r : EhAct) : Option PcbId :=
  if r = .continue ∨ r = .renqueue then g.actProc else g.yieldedProc

variable [Layout]

/-- A syscall that strands nobody: there is room for a new process and it has one of the two
    priorities; a DOIO blocks if its address is that of a word, and does not otherwise. -/
structure CallKeeps (k : Kernel View) (junk : Word) (s : ProcState) : Prop where
  create : s.number = CREATEPROCESS →
    k.lists.free ≠ [] ∧ (s.arg2 = PROCESS_PRIO_LOW ∨ s.arg2 = PROCESS_PRIO_HIGH)
  doio : s.number = DOIO → (s.arg1 &&& 3 = 0 ↔ k.g.int (doIoSem junk s.arg1) = 0)

/-- The steps that strand nobody. -/
def StepKeeps (o : Obs) : Event → Prop
  | .exception saved status _ junk => KernelCallOf saved status → CallKeeps o.k junk saved
  | _ => True

section Handlers

variable {k k' : Kernel View} {act : PcbId} {s : Word} {st : ProcState} {r : EhAct} {e : Exit}

omit [Layout] in
theorem PStep.held (h : Held k (some act)) (hact : k.g.actProc = some act)
    (hp : PStep s act k r k') : Held k' (k'.g.aside r) := by
  cases hp with
  | block => exact h.block.mono _
  | wake _ hs =>
    have hw : Held (k.wake s _) k.g.actProc := hact ▸ h.wake hs
    exact hw
  | take =>
    have ht : Held (k.mapG (·.setInt s 0)) k.g.actProc := hact ▸ h.mapG rfl
    exact ht

omit [Layout] in
theorem VStep.held {w : Option PcbId} (h : Held k k.g.actProc) (hv : VStep s k w k') :
    Held k' (k'.g.aside (if w = none then .nothing else .renqueue)) := by
  cases hv with
  | idle _ hact => exact (show Held k none from hact ▸ h).mono _
  | block _ hact => exact ((show Held k (some _) from hact ▸ h).block).mono _
  | wake _ hs => exact h.wake hs
  | give =>
    have hg : Held (k.mapG (·.setInt s 1)) k.g.actProc := h.mapG rfl
    cases hact : k.g.actProc with
    | none => exact (hact ▸ hg).mono _
    | some act => exact hg

theorem SysOutcome.held (h : Held k (some act)) (hact : k.g.actProc = some act) (hc : CallKeeps k k.g.junk st)
    (ho : SysOutcome k act st r k') : Held k' (k'.g.aside r) := by
  cases ho with
  | @value v =>
    have hv : Held (k.mapG (·.setPS act (·.setReg regV0 v))) k.g.actProc :=
      hact ▸ h.setPS _
    exact hv
  | full hn hf => exact absurd hf (hc.create hn).1
  | @create c cs hn hf =>
    have hcr := h.create (r := act) hf st.arg1 st.arg2 st.arg3 (hc.create hn).2
    have hm : Held ((k.create c act st.arg1 st.arg2 st.arg3).mapG
        (·.setPS act (·.setReg regV0 (Layout.toAddresses.pcbAddr c)))) k.g.actProc :=
      hact ▸ hcr.setPS _
    exact hm
  | @terminate q S =>
    refine h.kill fun p hp hS => ?_
    obtain rfl : act = p := Option.some.inj hp
    rw [if_neg hS]
    exact hact
  | passeren _ _ _ hp => exact hp.held h hact
  | verhogen _ _ _ hv => exact hv.held (hact ▸ h)
  | doio hn _ _ hal _ hp =>
    have hz := (hc.doio hn).mp hal
    cases hp with
    | block => exact (h.block.mapG (f := (·.storeWord _ _)) (storeWord_pcb _ _ _)).mono _
    | wake hne => exact absurd hz hne
    | take hne => exact absurd hz hne
  | clockwait _ hp => exact hp.held h hact
  | yield => exact h.mapG rfl
  | unknown _ _ hS =>
    refine h.kill fun p hp hnot => ?_
    obtain rfl : act = p := Option.some.inj hp
    exact absurd ((hS.mem_iff act).mpr .refl) hnot

omit [Layout] in
theorem wakeAll_held {aside : Option PcbId} (ws : List PcbId) (h : Held k aside)
    (hs : k.lists.blocked s = ws) : Held (k.wakeAll s ws) aside := by
  induction ws generalizing k with
  | nil => exact h
  | cons w ws ih => exact ih (h.wake hs) (wake_blocked k hs)

omit [Layout] in
theorem wakeAll_actProc (k : Kernel View) (s : Word) (ws : List PcbId) :
    (k.wakeAll s ws).g.actProc = k.g.actProc := by
  induction ws generalizing k with
  | nil => rfl
  | cons w ws ih => exact ih _

theorem tick_actProc (k : Kernel View) : k.tick.g.actProc = k.g.actProc :=
  wakeAll_actProc (k.mapG fun g => { g with intervalTimer := PSECOND })
    (Layout.toAddresses.semAddr .it) (k.lists.blocked (Layout.toAddresses.semAddr .it))

/-- Whoever runs when the handler of an exception returns is where it can go on from. -/
theorem Outcome.held (h : Held k k.g.actProc) (hen : Entered k)
    (hc : k.g.KernelCall k.g.biosDataPage → CallKeeps k k.g.junk k.g.biosDataPage)
    (ho : Outcome k r k') : Held k' (k'.g.aside r) := by
  cases ho with
  | slice => exact h.mapG rfl
  | tick =>
    have h0 : Held (k.mapG fun g => { g with intervalTimer := PSECOND }) k.g.actProc :=
      h.mapG rfl
    have hw := wakeAll_held _ h0 (s := Layout.toAddresses.semAddr .it) rfl
    have ht : Held k.tick k.g.actProc := hw.mapG (f := fun g => (g.setInt _ 1).setInt _ 0) rfl
    have ha : k.tick.g.aside .continue = k.g.actProc := tick_actProc k
    rw [ha]
    exact ht
  | @served d w k1 _ hd hv =>
    have hact : k1.g.actProc = k.g.actProc := by cases hv <;> rfl
    have hk1 : Held k1 k.g.actProc := by
      cases hv with
      | idle => exact h
      | block hone ha => rw [hen.served d hd hone] at ha; cases ha
      | wake _ hs => exact h.wake hs
      | give => exact h.mapG rfl
    have hm : Held (k1.mapG fun g => (g.deliver w (k.g.dev d).status).command d ACK) k.g.actProc :=
      hk1.congr rfl fun q => deliver_prio k1.g w _
    have ha : (k1.mapG fun g => (g.deliver w (k.g.dev d).status).command d ACK).g.aside .continue =
        k.g.actProc := by
      rw [← hact]
      cases w <;> rfl
    rw [ha]
    exact hm
  | unserved => exact h
  | spurious => exact h
  | @sys act _ k1 hact hcall hs =>
    have hk1 := hs.held (hact ▸ h) hact (hc hcall)
    exact hk1.setPS _
  | @die act f S _ hact _ hS =>
    have h0 : Held (k.mapG (·.setPS act f)) (some act) := by
      rw [← hact]
      exact h.setPS _
    refine h0.kill fun p hp hnot => ?_
    obtain rfl : act = p := Option.some.inj hp
    exact absurd ((hS.mem_iff act).mpr .refl) hnot

end Handlers

/-! ## Dispatching -/

section Dispatching

variable {k k' : Kernel View} {p : PcbId} {r : EhAct} {e : Exit}

omit [Layout] in
theorem Held.flushYielded (h : Held k k.g.yieldedProc) : Held k.flushYielded none := by
  unfold Kernel.flushYielded
  split
  · next hy => exact hy ▸ h
  · next y hy => exact (hy ▸ h).enqueue.mapG (f := fun g => { g with yieldedProc := none }) rfl

theorem Held.load (h : Held k k.g.yieldedProc) : Held (k.load p) (some p) := by
  have hl : Held ⟨k.flushYielded.lists, k.flushYielded.g.load p⟩ none :=
    h.flushYielded.congr rfl fun q => Rocm.load_prio
  exact hl.mono _

/-- The first in a ready queue leaves it. -/
theorem Held.dispatch (h : Held k k.g.yieldedProc) {q : Queue} {ps : List PcbId}
    (hq : k.lists.ready q = p :: ps) :
    Held (Kernel.load ⟨k.lists.popReady q, k.g⟩ p) (some p) := by
  intro r hr
  have hfree : r ∉ k.lists.free := fun hm => hr (by
    unfold Kernel.load Kernel.flushYielded
    dsimp only
    split
    · exact hm
    · dsimp only
      rw [View.enqueue_free]
      exact hm)
  obtain ⟨hprio, hplace⟩ := h r hfree
  refine ⟨by rw [Kernel.load_prio]; exact hprio, ?_⟩
  by_cases e : p = r
  · exact .inl (congrArg some e)
  have hpop : k.g.yieldedProc = some r ∨ (∃ q', r ∈ (k.lists.popReady q).ready q') ∨
      ∃ s, r ∈ k.lists.blocked s := by
    refine hplace.imp_right (.imp_left ?_)
    rintro ⟨q', hq'⟩
    refine ⟨q', ?_⟩
    change r ∈ Function.update k.lists.ready q (k.lists.ready q).tail q'
    rw [Function.update_apply]
    split
    · next e' =>
      subst e'
      rw [hq] at hq' ⊢
      exact (List.mem_cons.mp hq').resolve_left fun e' => e e'.symm
    · exact hq'
  refine .inr ?_
  unfold Kernel.load Kernel.flushYielded
  dsimp only
  split
  · next hy => exact hpop.resolve_left (by rw [hy]; simp)
  · next y hy =>
    dsimp only
    rw [View.enqueue_blocked]
    refine Or.imp_left ?_ (or_assoc.mpr hpop)
    rintro (he | ⟨q', hq'⟩)
    · obtain rfl : y = r := Option.some.inj (hy.symm.trans he)
      exact mem_enqueue hprio
    · exact ⟨q', View.mem_enqueue_ready.mpr (.inl hq')⟩

theorem Dispatch.held (h : Held k k.g.yieldedProc) (hd : Dispatch k e k') (hl : e.live) :
    Held k' e.current := by
  cases hd with
  | high hq => exact h.dispatch hq
  | low _ hq => exact h.dispatch hq
  | halt => cases hl
  | wait => exact h.flushYielded.mapG rfl
  | deadlock => cases hl

theorem Finish.held (h : Held k (k.g.aside r)) (hy : r = .continue ∨ r = .renqueue →
      k.g.yieldedProc = Option.none) (hf : Finish k r e k') (hl : e.live) : Held k' e.current := by
  have hstay : k.g.actProc = Option.none ∨ r ≠ .continue ∧ r ≠ .renqueue → Held k k.g.yieldedProc := by
    intro hn
    by_cases hr : r = .continue ∨ r = .renqueue
    · have hnone := hn.resolve_right fun hne => hr.elim hne.1 hne.2
      rw [Globals.aside, if_pos hr, hnone] at h
      exact h.mono _
    · rwa [Globals.aside, if_neg hr] at h
  cases hf with
  | none hact hd => exact hd.held (hstay (.inl hact)) hl
  | @«continue» p hact =>
    have hg : Held k (some p) := hact ▸ h
    have hage : Held (k.mapG (·.age p)) (some p) := hg.congr rfl fun _ => age_prio
    rw [load_eq (k := k.mapG (·.age p)) (hy (.inl rfl))]
    exact hage.congr rfl fun _ => Rocm.load_prio
  | @renqueue p _ _ hact hd =>
    have hg : Held k (some p) := hact ▸ h
    have hq : Held ⟨k.lists.enqueue p (k.g.pcb p).pPrio, k.g.age p⟩ Option.none :=
      hg.enqueue.congr rfl fun _ => age_prio (g := k.g)
    exact hd.held (hq.mono _) hl
  | @nothing p _ _ _ hact hc hr hd =>
    have hage : Held (k.mapG (·.age p)) k.g.yieldedProc :=
      (hstay (.inr ⟨hc, hr⟩)).congr rfl fun _ => age_prio
    exact hd.held hage hl

end Dispatching

/-! ## Runs -/

section Runs

variable {m m' : Mach Heap} {tr : List (Mach Heap × Event × Mach Heap)}

/-- The processes of a machine that has not stopped have their places, also while the nucleus is
    at an address error. -/
structure AllHeld (o : Obs) : Prop where
  live : o.exit.live → Held o.k o.exit.current
  fault : o.exit = .fault → Held o.k o.k.g.actProc

omit [Layout] in
theorem AllHeld.of_live {o : Obs} (he : o.exit ≠ .fault) (h : o.exit.live → Held o.k o.exit.current) :
    AllHeld o := ⟨h, fun hf => absurd hf he⟩

omit [Layout] in
/-- A change of plain variables that stops nothing. -/
theorem AllHeld.mapG {o : Obs} (h : AllHeld o) (hl : o.exit.live) {f : Globals → Globals}
    (hp : (f o.k.g).pcb = o.k.g.pcb) : AllHeld ⟨o.k.mapG f, o.exit⟩ :=
  .of_live (fun he => by rw [he] at hl; cases hl) fun hl => (h.live hl).mapG hp

omit [Layout] in
theorem AllHeld.of_fault {k : Kernel View} (h : Held k k.g.actProc) : AllHeld ⟨k, .fault⟩ :=
  ⟨nofun, fun _ => h⟩

theorem Handled.held {k k' : Kernel View} {e : Exit} (h : Ready k) (hh : Held k k.g.actProc)
    (hc : k.g.KernelCall k.g.biosDataPage → CallKeeps k k.g.junk k.g.biosDataPage)
    (hhd : Handled k e k') : AllHeld ⟨k', e⟩ := by
  have hact : (k.mapG (·.save)).g.actProc = k.g.actProc := save_actProc _
  have hsave : Held (k.mapG (·.save)) (k.mapG (·.save)).g.actProc :=
    hact ▸ hh.congr rfl fun q => (sameTags_save k.g).prio q
  have hcall : (k.mapG (·.save)).g.KernelCall (k.mapG (·.save)).g.biosDataPage →
      CallKeeps (k.mapG (·.save)) (k.mapG (·.save)).g.junk (k.mapG (·.save)).g.biosDataPage := by
    simp only [mapG_g, save_biosDataPage, save_junk, Globals.KernelCall, save_cpuStatus]
    exact fun hcall => ⟨(hc hcall).create, by rw [mapG_g, save_int]; exact (hc hcall).doio⟩
  cases hhd with
  | exit he =>
    cases he with
    | trap _ ha => exact .of_live (by simp) fun _ => (ha ▸ hsave).mapG rfl
    | @user act f kind _ ha =>
      have hs := (show Held (k.mapG (·.save)) (some act) from ha ▸ hsave).setPS (p := act) f
      exact .of_live (by simp) fun _ => hs.mapG (f := (·.passUp _ kind)) rfl
    | sys ha hk he =>
      cases he with
      | passUp =>
        exact .of_live (by simp) fun _ =>
          (show Held (k.mapG (·.save)) (some _) from ha ▸ hsave).mapG rfl
      | sem => exact .of_fault hsave
      | doioSem => exact .of_fault hsave
      | @doio r _ hn hmis _ hp =>
        have hr : r = .renqueue := by
          cases hp with
          | block hz => exact absurd (((hcall hk).doio hn).mpr hz) hmis
          | wake => rfl
          | take => rfl
        subst hr
        exact .of_fault (hp.held (ha ▸ hsave) ha)
      | _ => exact .of_live (by simp) (by simp [Exit.live])
  | @finish r k1 _ _ ho hf =>
    refine .of_live hf.ne_fault (hf.held (ho.held hsave h.save.toEntered hcall) fun hr => ?_)
    cases hy : k1.g.yieldedProc with
    | none => rfl
    | some y =>
      have := ((ho.placed h.save.toEntered).yielded y hy).1
      rcases hr with rfl | rfl <;> cases this

/-- A step that strands nobody leaves everybody in his place. -/
theorem Next.held {o o' : Obs} {ev : Event} (hg : Good o) (hc : Contract o ev)
    (hk : StepKeeps o ev) (h : AllHeld o) (hn : Next o ev o') : AllHeld o' := by
  cases hn with
  | exception hcan hh =>
    have hst := hg.stable (live_of_canTake hcan)
    have hheld : Held o.k o.k.g.actProc := hst.current ▸ h.live (live_of_canTake hcan)
    refine hh.held (hst.ready hcan hc) (hheld.mapG rfl) fun hcall => ?_
    exact ⟨(hk hcall).create, (hk hcall).doio⟩
  | resume he hd =>
    have hlive : o.exit.live := by rw [he]; rfl
    have hheld := h.live hlive
    rw [he] at hheld
    exact .of_live hd.ne_fault (hd.held (hheld.mono _))
  | complete hl => exact h.mapG hl rfl
  | store hr => exact h.mapG (live_of_running hr) rfl
  | storeState hr => exact h.mapG (live_of_running hr) rfl
  | storeSupport hr => exact h.mapG (live_of_running hr) rfl
  | addressError he herr hh =>
    exact hh.held (hg.ready_fault he hc herr) ((h.fault he).mapG rfl) fun hcall =>
      absurd hcall herr.not_kernelCall

theorem boot_held {g : Globals} (h : PowerOn g) : AllHeld (boot g : Mach Heap).obs := by
  have hb := boot_booted h
  refine .of_live (by rw [hb.exit]; nofun) fun _ p hp => ?_
  obtain rfl : p = 0 := by
    rw [hb.free] at hp
    revert p
    decide
  exact ⟨.inl hb.prio, .inl (by rw [hb.exit]; rfl)⟩

/-- Where every process is held in its place it is accounted for. -/
theorem Reached.accounted (hr : Reached m) (h : AllHeld m.obs) (hl : m.exit.live) :
    Accounted m.obs :=
  ((hr.good.stable hl).inv.toKCore.toKTags).accounted (h.live hl)

/-- A DOIO that strands nobody blocks nobody whom an address error could find. -/
theorem StepKeeps.aligned {o : Obs} {ev : Event} (h : StepKeeps o ev) : DoioAligned o ev := by
  cases ev with
  | exception => exact fun hcall hn => or_iff_not_imp_left.mpr (mt ((h hcall).doio hn).mpr)
  | _ => trivial

/-- In a run in which no CREATEPROCESS fails or is given another priority and every DOIO blocks if
    and only if its address is that of a word, no process is lost. -/
theorem no_process_lost {g : Globals} (hg : PowerOn g) (h : Run (Step SyscallsOk) (boot g) tr m)
    (hk : ∀ x ∈ tr, StepKeeps x.1.obs x.2.1) :
    (m.exit.live → Accounted m.obs) ∧ ∀ x ∈ tr, x.1.exit.live → Accounted x.1.obs := by
  replace h := execution_of_aligned hg h fun x hx => (hk x hx).aligned
  suffices hall : AllHeld m.obs ∧ ∀ x ∈ tr, AllHeld x.1.obs by
    have hsteps := h.invariant_steps (boot_reached hg) fun ha hs => (ha.next hs).2
    exact ⟨(h.reached hg).accounted hall.1, fun x hx => (hsteps x hx).1.accounted (hall.2 x hx)⟩
  induction h with
  | nil => exact ⟨boot_held hg, by simp⟩
  | snoc hrun hs ih =>
    simp only [List.mem_append, List.mem_singleton, or_imp, forall_and, forall_eq] at hk ⊢
    obtain ⟨ht, htr⟩ := ih hk.1
    have hr := Execution.reached hg hrun
    exact ⟨(hr.next hs).1.held hr.good hs.2 hk.2 ht, htr, ht⟩

end Runs

instance (k : Kernel View) (junk : Word) (st : ProcState) : Decidable (CallKeeps k junk st) :=
  decidable_of_iff ((st.number = CREATEPROCESS →
      k.lists.free ≠ [] ∧ (st.arg2 = PROCESS_PRIO_LOW ∨ st.arg2 = PROCESS_PRIO_HIGH)) ∧
    (st.number = DOIO → (st.arg1 &&& 3 = 0 ↔ k.g.int (doIoSem junk st.arg1) = 0)))
    ⟨fun h => ⟨h.1, h.2⟩, fun h => ⟨h.create, h.doio⟩⟩

instance (o : Obs) : DecidablePred (StepKeeps o)
  | .exception _ _ _ _ => inferInstanceAs (Decidable (_ → _))
  | .resume => .isTrue trivial
  | .complete _ _ => .isTrue trivial
  | .store _ _ => .isTrue trivial
  | .storeState _ _ => .isTrue trivial
  | .storeSupport _ _ => .isTrue trivial
  | .addressError _ _ _ _ => .isTrue trivial

omit [Layout] in
/-- In the end one process runs, two are blocked and one is dead. -/
theorem no_process_lost_servedChild :
    letI := sampleLayout
    ∃ tr, ∃ m : Mach Heap, Run (Step SyscallsOk) (boot sampleGlobals) tr m ∧
      m.exit.current = some 1 ∧
      m.obs.k.lists.blocked 0x20030000 = [3] ∧ m.obs.k.lists.blocked 0x20030004 = [0] ∧
      2 ∈ m.obs.k.lists.free ∧ (m.exit.live → Accounted m.obs) ∧
        ∀ x ∈ tr, x.1.exit.live → Accounted x.1.obs := by
  let _ := sampleLayout
  obtain ⟨tr, m, hrun, hP⟩ := Mach.exists_run_of_play SyscallsOk (boot sampleGlobals) servedChild
    (P := fun tr m => decide ((∀ x ∈ tr, StepKeeps x.1.obs x.2.1) ∧ m.exit.current = some 1 ∧
      m.obs.k.lists.blocked 0x20030000 = [3] ∧ m.obs.k.lists.blocked 0x20030004 = [0] ∧
      2 ∈ m.obs.k.lists.free)) (by decide +kernel)
  obtain ⟨hk, hcur, hthird, hfirst, hdead⟩ := of_decide_eq_true hP
  exact ⟨tr, m, hrun, hcur, hthird, hfirst, hdead,
    no_process_lost sampleGlobals_powerOn hrun hk⟩

/-- A CREATEPROCESS with priority 2. -/
def createOddEvent : Event := sysEvent CREATEPROCESS 0 2 0

omit [Layout] in
/-- The child that the first process creates with priority 2 is in no queue. -/
theorem child_lost :
    letI := sampleLayout
    ∃ tr, ∃ m : Mach Heap, Run (Step SyscallsOk) (boot sampleGlobals) tr m ∧ m.exit.live ∧
      ¬ Accounted m.obs := by
  let _ := sampleLayout
  obtain ⟨tr, m, htr, hP⟩ := Mach.exists_run_of_play SyscallsOk (boot sampleGlobals) [createOddEvent]
    (P := fun _ m => decide (m.exit = .ldst 0 ∧ 1 ∉ m.obs.k.lists.free ∧
      (m.obs.k.g.pcb 1).pSemAdd = NULL ∧ m.obs.k.lists.blocked NULL = [] ∧
      1 ∉ m.obs.k.lists.ready .high ∧ 1 ∉ m.obs.k.lists.ready .low)) (by decide +kernel)
  obtain ⟨hexit, hfree, hsem, hblocked, hhigh, hlow⟩ := of_decide_eq_true hP
  refine ⟨tr, m, htr, by rw [hexit]; rfl, fun hacc => ?_⟩
  rcases hacc 1 hfree with hcur | ⟨q, -, hq⟩ | hb
  · rw [Mach.obs_exit, hexit] at hcur
    cases hcur
  · cases q with
    | high => exact hhigh hq
    | low => exact hlow hq
  · rw [hsem, hblocked] at hb
    cases hb

end Rocm
