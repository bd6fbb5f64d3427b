import Rocm.Properties.Accounted
import Rocm.Properties.Context
import Rocm.Properties.ProcessorTime
import Rocm.Properties.Scheduler

/-!
# The pseudo-clock

A tick makes everybody ready who waits for it, in the order of their CLOCKWAITs, and leaves the
semaphore of the clock at 0. Until the next one every CLOCKWAIT blocks.
-/

namespace Rocm

open Prog ProcTable Runs

section Defs

variable [Layout]

/-- An interrupt of the interval timer is handled. -/
def Globals.TickTaken (g : Globals) : Prop := g.IntTaken ∧ g.servedLine = some 2

instance (g : Globals) : Decidable g.TickTaken :=
  inferInstanceAs (Decidable (_ = _ ∧ _))

/-- The process whose CLOCKWAIT is handled. -/
def Globals.clockCall (g : Globals) : Option PcbId :=
  if g.KernelCall g.biosDataPage ∧ g.biosDataPage.number = CLOCKWAIT then g.actProc else none

/-- What the exception does to the list of those who wait for the clock: a tick empties it, a
    CLOCKWAIT adds to its end, and those who die leave it. -/
def Globals.clockStep (g : Globals) (free ws : List PcbId) : List PcbId :=
  if g.TickTaken then [] else (ws ++ g.clockCall.toList).filter (· ∉ free)

/-- What the event does to the list of those who wait for the clock. -/
def Event.clockStep (o : Obs) (free ws : List PcbId) : Event → List PcbId
  | .exception saved status pending junk =>
    (o.k.g.enter saved status pending junk).clockStep free ws
  | _ => ws.filter (· ∉ free)

/-- The processes that have called CLOCKWAIT since the last tick and live, in that order. -/
def clockWaiters (tr : List (Mach Heap × Event × Mach Heap)) : List PcbId :=
  tr.foldl (fun ws x => x.2.1.clockStep x.1.obs x.2.2.obs.k.lists.free ws) []

/-- From `k` to `k'` everybody in the queue of the clock has become ready. Of the process `act`,
    whose exception it is, nothing is said. -/
structure Ticked (k k' : Kernel View) (act : Option PcbId) : Prop where
  it : k'.g.int Layout.toAddresses.semIt = 0
  queue : k'.lists.blocked Layout.toAddresses.semIt = []
  ready : ∀ q, k'.lists.ready q = k.lists.ready q ++
    (k.lists.blocked Layout.toAddresses.semIt).filter fun p => (k.g.pcb p).pPrio = q.prio
  prio : ∀ p ∈ k.lists.blocked Layout.toAddresses.semIt, ∃ q : Queue, (k.g.pcb p).pPrio = q.prio
  sb : k'.g.sbProcs.toNat + (k.lists.blocked Layout.toAddresses.semIt).length =
    k.g.sbProcs.toNat
  sems : ∀ s ≠ Layout.toAddresses.semIt,
    k'.g.int s = k.g.int s ∧ k'.lists.blocked s = k.lists.blocked s
  free : k'.lists.free = k.lists.free
  child : k'.lists.child = k.lists.child
  procs : k'.g.procsCount = k.g.procsCount
  dev : k'.g.dev = k.g.dev
  pcb : ∀ p, act ≠ some p → k'.g.pcb p =
    if p ∈ k.lists.blocked Layout.toAddresses.semIt then { k.g.pcb p with pSemAdd := NULL }
    else k.g.pcb p

/-- The process `p` goes on after an interrupt, with the registers it had. -/
structure GoesOn (p : PcbId) (saved : ProcState) (o o' : Obs) : Prop where
  exit : o'.exit = .ldst p
  state : (o'.k.g.pcb p).pS = saved.loaded (o.k.g.pcb p).pPrio
  frame : ({ o'.k.g.pcb p with pS := .zero, pTime := 0, pTmUpdt := 0 } : Pcb) =
    { o.k.g.pcb p with pS := .zero, pTime := 0, pTmUpdt := 0 }

end Defs

/-! ## Everybody wakes up -/

section WakeAll

variable {k : Kernel View} {s : Word} {q : Queue}

theorem wakeAll_ready (ws : List PcbId) : (k.wakeAll s ws).lists.ready q =
    k.lists.ready q ++ ws.filter fun p => (k.g.pcb p).pPrio = q.prio := by
  induction ws generalizing k with
  | nil => exact (List.append_nil _).symm
  | cons w ws ih =>
    have hprio : ∀ p, ((k.wake s w).g.pcb p).pPrio = (k.g.pcb p).pPrio := fun p =>
      Pcb.prio_of_frame wake_frame
    have hready : (k.wake s w).lists.ready q =
        if (k.g.pcb w).pPrio = q.prio then k.lists.ready q ++ [w] else k.lists.ready q :=
      View.enqueue_ready
    rw [Kernel.wakeAll, ih, hready, List.filter_cons]
    simp only [hprio]
    split <;> simp [*]

theorem wakeAll_child (ws : List PcbId) : (k.wakeAll s ws).lists.child = k.lists.child := by
  induction ws generalizing k with
  | nil => rfl
  | cons w ws ih => exact ih.trans View.enqueue_child

theorem wakeAll_sbProcs (ws : List PcbId) :
    (k.wakeAll s ws).g.sbProcs = k.g.sbProcs - BitVec.ofNat 32 ws.length := by
  induction ws generalizing k with
  | nil => simp [Kernel.wakeAll]
  | cons w ws ih =>
    rw [Kernel.wakeAll, ih, List.length_cons]
    change k.g.sbProcs - 1 - BitVec.ofNat 32 ws.length = _
    rw [BitVec.ofNat_add]
    bv_omega

theorem wakeAll_pcb (ws : List PcbId) (p : PcbId) : (k.wakeAll s ws).g.pcb p =
    if p ∈ ws then { k.g.pcb p with pSemAdd := NULL } else k.g.pcb p := by
  induction ws generalizing k with
  | nil => rfl
  | cons w ws ih =>
    have hw : (k.wake s w).g.pcb p =
        if p = w then { k.g.pcb p with pSemAdd := NULL } else k.g.pcb p := by
      change ((k.g.setPcb w fun c => { c with pSemAdd := NULL }).pcb p) = _
      rw [setPcb_pcb]
      split
      · next e => rw [e]
      · rfl
    rw [Kernel.wakeAll, ih, hw]
    simp only [List.mem_cons]
    by_cases hp : p = w <;> by_cases hm : p ∈ ws <;> simp [hp, hm]

theorem wakeAll_int (ws : List PcbId) : (k.wakeAll s ws).g.int = k.g.int := by
  induction ws generalizing k with
  | nil => rfl
  | cons w ws ih => exact ih

theorem wakeAll_rest (ws : List PcbId) : (k.wakeAll s ws).g.procsCount = k.g.procsCount ∧
    (k.wakeAll s ws).g.dev = k.g.dev ∧ (k.wakeAll s ws).g.yieldedProc = k.g.yieldedProc := by
  induction ws generalizing k with
  | nil => exact ⟨rfl, rfl, rfl⟩
  | cons w ws ih => exact ih

theorem wakeAll_blocked (ws : List PcbId) (h : k.lists.blocked s = ws) :
    (k.wakeAll s ws).lists.blocked s = [] := by
  induction ws generalizing k with
  | nil => exact h
  | cons w ws ih => exact ih (wake_blocked k h)

end WakeAll

/-! ## A tick -/

section Tick

variable [Layout] {k k' k'' : Kernel View} {act : Option PcbId} {p : PcbId}

omit [Layout] in
/-- A counter that is small stays exact when it is lowered. -/
theorem toNat_sub_add {a b : Word} {n : Nat} (h : b = a - BitVec.ofNat 32 n) (hb : b.toNat ≤ MAXPROC)
    (hn : n ≤ MAXPROC) : b.toNat + n = a.toNat := by
  rw [show MAXPROC = 20 from rfl] at hb hn
  subst h
  bv_omega

theorem Sound.sbProcs_le (h : Sound k) : k.g.sbProcs.toNat ≤ MAXPROC := by
  rw [h.inv.sb, toNat_card]
  exact (Finset.card_le_univ _).trans_eq (Fintype.card_fin _)

theorem Sound.blocked_length (h : Sound k) (s : Word) : (k.lists.blocked s).length ≤ MAXPROC := by
  have hle := (h.wf.blocked_nodup s).length_le_card
  rwa [Fintype.card_fin] at hle

theorem tick_yieldedProc (k : Kernel View) : k.tick.g.yieldedProc = k.g.yieldedProc :=
  (wakeAll_rest (k := k.mapG fun g => { g with intervalTimer := PSECOND }) _).2.2

theorem tick_ticked (h : Sound k)
    (hp : ∀ p ∈ k.lists.blocked Layout.toAddresses.semIt, ∃ q : Queue, (k.g.pcb p).pPrio = q.prio) :
    Ticked k k.tick none := by
  have hsound : Sound k.tick :=
    (tick_induct (P := fun _ => True) h (by simp) trivial (by simp)).1
  have hrest := wakeAll_rest (s := Layout.toAddresses.semIt)
    (k := k.mapG fun g => { g with intervalTimer := PSECOND })
    (k.lists.blocked Layout.toAddresses.semIt)
  refine
    { it := Function.update_self ..
      queue := wakeAll_blocked _ rfl
      ready := fun q => wakeAll_ready _
      prio := hp
      sb := toNat_sub_add (wakeAll_sbProcs _) hsound.sbProcs_le (h.blocked_length _)
      sems := fun s hs => ⟨?_, ?_⟩
      free := wakeAll_free _ _
      child := wakeAll_child _
      procs := hrest.1
      dev := hrest.2.1
      pcb := fun p _ => wakeAll_pcb _ p }
  · refine (setInt_int_ne hs).trans ((setInt_int_ne hs).trans (congrFun (wakeAll_int _) s))
  · have hpart := wakeAll_semPart hs (k.lists.blocked Layout.toAddresses.semIt)
      (k := k.mapG fun g => { g with intervalTimer := PSECOND })
    simp only [Kernel.semPart, Prod.mk.injEq] at hpart
    exact hpart.2.1

/-- What the tick does is seen from the state before the registers were saved. -/
theorem Ticked.of_caught {saved : ProcState} {status junk : Word} {pending : Fin 3 → Bool}
    (h : Ticked (k.caught saved status pending junk) k' none) : Ticked k k' k.g.actProc := by
  have htags : SameTags k.g (k.caught saved status pending junk).g := caught_sameTags
  have hprio := htags.prio
  have hready := h.ready
  have hwaiters := h.prio
  have hsb := h.sb
  have hsems := h.sems
  have hprocs := h.procs
  have hdev := h.dev
  simp only [caught_lists, hprio, caught_sbProcs, caught_int, caught_procsCount, caught_dev]
    at hready hwaiters hsb hsems hprocs hdev
  refine ⟨h.it, h.queue, hready, hwaiters, hsb, hsems, h.free, h.child, hprocs, hdev,
    fun p hp => ?_⟩
  rw [h.pcb p nofun, caught_pcb_ne hp, caught_lists]

theorem Ticked.load (h : Ticked k k' (some p)) (hy : k'.g.yieldedProc = none) :
    Ticked k ((k'.mapG (·.age p)).load p) (some p) := by
  rw [load_eq (k := k'.mapG (·.age p)) hy]
  refine ⟨h.it, h.queue, h.ready, h.prio, h.sb, h.sems, h.free, h.child, h.procs, h.dev,
    fun q hq => ?_⟩
  have hne : q ≠ p := fun e => hq (congrArg some e.symm)
  exact (load_pcb_ne hne).trans ((age_pcb_ne hne).trans (h.pcb q hq))

end Tick

/-! ## Between two ticks -/

section Steps

variable [Layout] {k k' k'' : Kernel View} {act p : PcbId} {g : Globals} {r : EhAct} {e : Exit}

/-- A DOIO that keeps off the semaphores of the nucleus keeps off that of the clock. -/
theorem CallOk.doio_ne {junk : Word} {s : ProcState} (h : CallOk k junk s) (hn : s.number = DOIO) :
    doIoSem junk s.arg1 ≠ Layout.toAddresses.semIt ∧
      ((∃ d : SubDev, s.arg1 = d.commandAddr) ∨ s.arg1 ≠ Layout.toAddresses.semIt) := by
  rcases h.doio hn with ⟨d, hd⟩ | ⟨hs, hj⟩
  · refine ⟨?_, .inl ⟨d, hd⟩⟩
    rw [hd, doIoSem_commandAddr]
    exact semIt_ne d
  · refine ⟨?_, .inr fun e => hs (e ▸ Layout.toAddresses.isSem_semAddr .it)⟩
    rcases doIoSem_cases junk s.arg1 with ⟨d, hd⟩ | ⟨hf, hd⟩
    · rw [hd]
      exact semIt_ne d
    · rw [hd]
      exact fun e => hj hf (e ▸ Layout.toAddresses.isSem_semAddr .it)

/-- A handler leaves the semaphore of the clock at 0, and its queue is what `clockStep` says. -/
structure ClockMoved (g : Globals) (k k' : Kernel View) : Prop where
  it : k'.g.int Layout.toAddresses.semIt = 0
  queue : k'.lists.blocked Layout.toAddresses.semIt =
    g.clockStep k'.lists.free (k.lists.blocked Layout.toAddresses.semIt)

/-- The exception is neither a tick nor a CLOCKWAIT. -/
def Globals.ClockQuiet (g : Globals) : Prop := ¬ g.TickTaken ∧ g.clockCall = none

theorem ClockMoved.trans (h : ClockMoved g k k') (he : k''.semPart Layout.toAddresses.semIt =
    k'.semPart Layout.toAddresses.semIt) : ClockMoved g k k'' := by
  simp only [Kernel.semPart, Prod.mk.injEq] at he
  exact ⟨he.1.trans h.it, by rw [he.2.1, he.2.2, h.queue]⟩

omit [Layout] in
theorem filter_alive {v : View} {free ws : List PcbId} (h : ∀ p ∈ ws, p ∉ v.free)
    (hf : free ⊆ v.free) : ws.filter (· ∉ free) = ws :=
  List.filter_eq_self.mpr fun p hp => by simpa using fun hm => h p hp (hf hm)

omit [Layout] in
theorem View.Wf.alive_of_blocked {v : View} (hw : v.Wf) (s : Word) : ∀ p ∈ v.blocked s, p ∉ v.free :=
  fun p hp hf => hw.free_blocked p hf s hp

theorem ClockMoved.quiet (hw : k.lists.Wf) (hi : k.g.int Layout.toAddresses.semIt = 0)
    (hg : g.ClockQuiet) (hint : k'.g.int Layout.toAddresses.semIt = k.g.int Layout.toAddresses.semIt)
    (hb : k'.lists.blocked Layout.toAddresses.semIt = k.lists.blocked Layout.toAddresses.semIt)
    (hf : k'.lists.free ⊆ k.lists.free) : ClockMoved g k k' := by
  refine ⟨hint.trans hi, ?_⟩
  rw [Globals.clockStep, if_neg hg.1, hg.2, Option.toList_none, List.append_nil,
    filter_alive (hw.alive_of_blocked _) hf, hb]

theorem ClockMoved.same (hw : k.lists.Wf) (hi : k.g.int Layout.toAddresses.semIt = 0)
    (hg : g.ClockQuiet)
    (h : k'.semPart Layout.toAddresses.semIt = k.semPart Layout.toAddresses.semIt) :
    ClockMoved g k k' := by
  simp only [Kernel.semPart, Prod.mk.injEq] at h
  exact .quiet hw hi hg h.1 h.2.1 (h.2.2 ▸ List.Subset.refl _)

theorem ClockMoved.kill (hw : k.lists.Wf) (hi : k.g.int Layout.toAddresses.semIt = 0)
    (hg : g.ClockQuiet) (S : List PcbId) : ClockMoved g k (k.kill S) := by
  refine ⟨hi, ?_⟩
  rw [Globals.clockStep, if_neg hg.1, hg.2, Option.toList_none, List.append_nil]
  refine List.filter_congr fun p hp => ?_
  have hfree := hw.alive_of_blocked _ p hp
  change decide (p ∉ S) = decide (p ∉ S ++ k.lists.free)
  simp [hfree]

omit [Layout] in
theorem quiet_of_number (hcall : g.KernelCall g.biosDataPage)
    (hn : g.biosDataPage.number ≠ CLOCKWAIT) : g.ClockQuiet :=
  ⟨fun ht => not_intTaken hcall ht.1, if_neg fun h => hn h.2⟩

/-- The syscalls of the running process. -/
theorem SysOutcome.clockMoved (hw : k.lists.Wf) (hi : k.g.int Layout.toAddresses.semIt = 0)
    (hact : k.g.actProc = some act) (hlive : act ∉ k.lists.free)
    (hcall : k.g.KernelCall k.g.biosDataPage) (hc : CallOk k k.g.junk k.g.biosDataPage)
    (ho : SysOutcome k act k.g.biosDataPage r k') : ClockMoved k.g k k' := by
  have hno : ∀ n, k.g.biosDataPage.number = n → n ≠ CLOCKWAIT → k.g.ClockQuiet := fun n hn hne =>
    quiet_of_number hcall (hn ▸ hne)
  have hsem : ¬ Layout.toAddresses.IsSem k.g.biosDataPage.arg1 →
      Layout.toAddresses.semIt ≠ k.g.biosDataPage.arg1 := fun h => ne_of_not_isSem h .it
  cases ho with
  | @value v hv =>
    refine .same hw hi (quiet_of_number hcall fun e => ?_) rfl
    rw [Globals.sysResult, e, if_neg (by decide), if_neg (by decide), if_neg (by decide)] at hv
    cases hv
  | full hn => exact .same hw hi (hno _ hn (by decide)) rfl
  | create hn hf =>
    refine .quiet hw hi (hno _ hn (by decide)) rfl (congrFun View.enqueue_blocked _) ?_
    change (((k.lists.popFree).pushChild _ _).enqueue _ _).free ⊆ _
    rw [View.enqueue_free]
    exact List.tail_subset _
  | terminate hn => exact .kill hw hi (hno _ hn (by decide)) _
  | passeren hn _ _ hp =>
    exact .same hw hi (hno _ hn (by decide)) (hp.semPart (hsem (hc.sem (.inl hn))))
  | verhogen hn _ _ hv =>
    exact .same hw hi (hno _ hn (by decide)) (hv.semPart (hsem (hc.sem (.inr hn))))
  | doio hn _ _ _ _ hp =>
    obtain ⟨hsem, hstore⟩ := hc.doio_ne hn
    refine .same hw hi (hno _ hn (by decide)) (Eq.trans ?_ (hp.semPart hsem.symm))
    refine congrArg₂ Prod.mk ?_ rfl
    change (Globals.storeWord _ _ _).int _ = _
    rcases hstore with ⟨d, hd⟩ | hne
    · rw [hd, storeWord_commandAddr]
      rfl
    · unfold Globals.storeWord
      split
      · rfl
      · exact setInt_int_ne hne.symm
  | clockwait hn hp =>
    cases hp with
    | wake hne => exact absurd hi hne
    | take hne => exact absurd hi hne
    | block =>
      refine ⟨hi, ?_⟩
      have hwait : k.g.clockCall = some act := (if_pos ⟨hcall, hn⟩).trans hact
      rw [Globals.clockStep, if_neg fun ht => not_intTaken hcall ht.1, hwait]
      refine (Function.update_self ..).trans (filter_alive (v := k.lists) (fun p hp => ?_)
        (List.Subset.refl _)).symm
      rcases List.mem_append.mp hp with hp | hp
      · exact hw.alive_of_blocked _ p hp
      · rw [List.mem_singleton.mp hp]
        exact hlive
  | yield hn => exact .same hw hi (hno _ hn (by decide)) rfl
  | unknown hn => exact .kill hw hi (quiet_of_number hcall fun e => hn (by rw [e]; decide)) _

/-- What the handler of an exception does to the semaphore of the clock. -/
theorem Outcome.clockMoved (hen : Entered k) (hi : k.g.int Layout.toAddresses.semIt = 0)
    (hc : k.g.KernelCall k.g.biosDataPage → CallOk k k.g.junk k.g.biosDataPage)
    (ho : Outcome k r k') : ClockMoved k.g k k' := by
  have hw := hen.wf
  have hint : k.g.IntTaken → k.g.servedLine ≠ some 2 → k.g.ClockQuiet := fun hi hl =>
    ⟨fun ht => hl ht.2, if_neg fun h => not_intTaken h.1 hi⟩
  have htrap : k.g.TrapTaken → k.g.ClockQuiet := fun ht =>
    ⟨fun h => ht.1 h.1, if_neg fun h => ht.2 h.1⟩
  cases ho with
  | slice ht hl => exact .same hw hi (hint ht (by rw [hl]; decide)) rfl
  | tick ht hl =>
    refine ⟨Function.update_self .., ?_⟩
    rw [Globals.clockStep, if_pos ⟨ht, hl⟩]
    exact wakeAll_blocked _ rfl
  | @served d w k1 ht hs hv =>
    have hl : k.g.servedLine ≠ some 2 := fun hl => by
      rw [Globals.served, hl] at hs
      cases hs
    refine .same hw hi (hint ht hl) (Eq.trans ?_ (hv.semPart (semIt_ne d).symm))
    exact congrArg₂ Prod.mk (congrFun (deliver_int _ _ _) _) rfl
  | unserved ht hl _ h2 =>
    exact .same hw hi (hint ht fun h => h2 (Option.some.inj (hl.symm.trans h))) rfl
  | spurious h =>
    refine .same hw hi (h.elim (fun h => hint h.1 (by rw [h.2]; simp)) fun h => htrap h.1) rfl
  | sys hact hcall ho =>
    exact (ho.clockMoved hw hi hact (hen.loose _ hact).1 hcall (hc hcall)).trans rfl
  | @die act f S ht =>
    have hk := ClockMoved.kill (k := k.mapG (·.setPS act f)) hw hi (htrap ht) S
    exact ⟨hk.it, hk.queue⟩

/-- An exception that is not answered does nothing to it. -/
theorem EarlyExit.clockMoved (hw : k.lists.Wf) (hi : k.g.int Layout.toAddresses.semIt = 0)
    (hc : k.g.KernelCall k.g.biosDataPage → CallOk k k.g.junk k.g.biosDataPage)
    (he : EarlyExit k e k') : ClockMoved k.g k k' := by
  have htrap : k.g.TrapTaken → k.g.ClockQuiet := fun ht =>
    ⟨fun h => ht.1 h.1, if_neg fun h => ht.2 h.1⟩
  cases he with
  | trap ht => exact .same hw hi (htrap ht) rfl
  | user ht => exact .same hw hi (htrap ht) rfl
  | sys _ hcall he =>
    have hno : ∀ n, k.g.biosDataPage.number = n → n ≠ CLOCKWAIT → k.g.ClockQuiet :=
      fun n hn hne => quiet_of_number hcall (hn ▸ hne)
    cases he with
    | passUp hn => exact .same hw hi (hno _ rfl fun e => hn (by rw [e]; decide)) rfl
    | rangeP hn => exact .same hw hi (hno _ hn (by decide)) rfl
    | rangeV hn => exact .same hw hi (hno _ hn (by decide)) rfl
    | doIoNull hn => exact .same hw hi (hno _ hn (by decide)) rfl
    | sem hn =>
      exact .same hw hi (hn.elim (hno _ · (by decide)) (hno _ · (by decide))) rfl
    | doioSem hn => exact .same hw hi (hno _ hn (by decide)) rfl
    | doio hn _ _ hp =>
      exact .same hw hi (hno _ hn (by decide)) (hp.semPart ((hc hcall).doio_ne hn).1.symm)

omit [Layout] in
theorem save_clockStep (free ws : List PcbId) : g.save.clockStep free ws = g.clockStep free ws := by
  rw [save_eq]
  rfl

/-- What an exception does to the semaphore of the clock. -/
theorem Handled.clockMoved (hr : Ready k) (hi : k.g.int Layout.toAddresses.semIt = 0)
    (hc : k.g.KernelCall k.g.biosDataPage → CallOk k k.g.junk k.g.biosDataPage)
    (hh : Handled k e k') : ClockMoved k.g k k' := by
  have hen := hr.save.toEntered
  have hsave : (k.mapG (·.save)).g.int Layout.toAddresses.semIt = 0 :=
    (congrFun (save_int _) _).trans hi
  have hmoved : ClockMoved (k.mapG (·.save)).g (k.mapG (·.save)) k' := by
    cases hh with
    | exit he => exact he.clockMoved hen.wf hsave (callOk_save hc)
    | finish ho hfin =>
      exact (ho.clockMoved hen hsave (callOk_save hc)).trans hfin.semPart
  exact ⟨hmoved.it, hmoved.queue.trans (save_clockStep _ _)⟩

/-- A step leaves the semaphore of the clock at 0, and its queue is what `clockStep` says. -/
theorem Next.clockMoved {o o' : Obs} {ev : Event} (hg : Good o) (hc : Contract o ev)
    (hn : Next o ev o') :
    o'.k.g.int Layout.toAddresses.semIt = 0 ∧ o'.k.lists.blocked Layout.toAddresses.semIt =
      ev.clockStep o o'.k.lists.free (o.k.lists.blocked Layout.toAddresses.semIt) := by
  have hp := hn.poised hg hc
  have hquiet : o.k.lists.blocked Layout.toAddresses.semIt =
      (o.k.lists.blocked Layout.toAddresses.semIt).filter (· ∉ o.k.lists.free) :=
    (filter_alive (hp.wf.alive_of_blocked _) (List.Subset.refl _)).symm
  cases hn with
  | exception hcan hh =>
    have hr := (hg.stable (live_of_canTake hcan)).ready hcan hc
    obtain ⟨hit, hqueue⟩ := hh.clockMoved hr hp.it hc.callOk
    exact ⟨hit, hqueue⟩
  | @addressError saved status pending junk e k' he herr hh =>
    -- an address error is neither an interrupt nor a syscall
    obtain ⟨hit, hqueue⟩ := hh.clockMoved (hg.ready_fault he hc herr) hp.it fun hcall =>
      absurd hcall herr.not_kernelCall
    refine ⟨hit, hqueue.trans ?_⟩
    rw [Globals.clockStep, if_neg fun ht => herr.not_int ht.1, Globals.clockCall,
      if_neg fun h => herr.not_kernelCall h.1, Option.toList_none, List.append_nil]
    rfl
  | resume he hd =>
    have hpart := hd.semPart (s := Layout.toAddresses.semIt)
    simp only [Kernel.semPart, Prod.mk.injEq] at hpart
    refine ⟨hpart.1.trans hp.it, hpart.2.1.trans ?_⟩
    rw [hpart.2.2]
    exact hquiet
  | complete => exact ⟨hp.it, hquiet⟩
  | store _ ha => exact ⟨(setInt_int_ne (ne_of_not_isSem ha .it)).trans hp.it, hquiet⟩
  | storeState => exact ⟨hp.it, hquiet⟩
  | storeSupport => exact ⟨hp.it, hquiet⟩

omit [Layout] in
/-- Whoever joins those who wait for the clock was running. -/
theorem mem_clockStep {o : Obs} {ev : Event} {free ws : List PcbId}
    (h : p ∈ ev.clockStep o free ws) : p ∉ free ∧ (p ∈ ws ∨ o.k.g.actProc = some p) := by
  cases ev with
  | exception saved status pending junk =>
    change p ∈ (o.k.g.enter saved status pending junk).clockStep free ws at h
    unfold Globals.clockStep at h
    split at h
    · cases h
    · obtain ⟨hm, hfree⟩ := List.mem_filter.mp h
      refine ⟨by simpa using hfree, (List.mem_append.mp hm).imp_right fun hm => ?_⟩
      unfold Globals.clockCall at hm
      split at hm
      · exact Option.mem_toList.mp hm
      · cases hm
  | _ =>
    obtain ⟨hm, hfree⟩ := List.mem_filter.mp h
    exact ⟨by simpa using hfree, .inl hm⟩

theorem Dispatch.waits (hd : Dispatch k e k') (he : e = .wait) :
    k'.g.procsCount ≠ 0 ∧ k'.g.sbProcs ≠ 0 := by
  cases hd with
  | wait _ hp hb =>
    unfold Kernel.flushYielded
    split <;> exact ⟨hp, hb⟩
  | _ => cases he

theorem Handled.waits (hh : Handled k e k') (he : e = .wait) :
    k'.g.procsCount ≠ 0 ∧ k'.g.sbProcs ≠ 0 := by
  cases hh with
  | exit hx =>
    cases hx with
    | trap => cases he
    | user => cases he
    | sys _ _ hs => cases hs <;> cases he
  | finish _ hf =>
    cases hf with
    | none _ hd => exact hd.waits he
    | «continue» => cases he
    | renqueue _ hd => exact hd.waits he
    | nothing _ _ _ hd => exact hd.waits he

/-- The processor waits only while there are processes and somebody is blocked. -/
theorem Next.waits {o o' : Obs} {ev : Event}
    (h : o.exit = .wait → o.k.g.procsCount ≠ 0 ∧ o.k.g.sbProcs ≠ 0) (hn : Next o ev o')
    (he : o'.exit = .wait) : o'.k.g.procsCount ≠ 0 ∧ o'.k.g.sbProcs ≠ 0 := by
  cases hn with
  | exception _ hh => exact hh.waits he
  | addressError _ _ hh => exact hh.waits he
  | resume _ hd => exact hd.waits he
  | _ => exact h he

end Steps

/-! ## Runs -/

section Runs

variable [Layout] {g : Globals} {tr : List (Mach Heap × Event × Mach Heap)} {m : Mach Heap}
  {saved : ProcState} {status junk : Word} {pending : Fin 3 → Bool} {p : PcbId}

/-- The clock between two exits: `ws` wait for it, and all of them can become ready. -/
structure ClockInv (ws : List PcbId) (o : Obs) : Prop where
  it : o.k.g.int Layout.toAddresses.semIt = 0
  queue : o.k.lists.blocked Layout.toAddresses.semIt = ws
  prio : ∀ p ∈ ws, ∃ q : Queue, (o.k.g.pcb p).pPrio = q.prio
  act : o.exit.ongoing → ActPrio o.k
  wait : o.exit = .wait → o.k.g.procsCount ≠ 0 ∧ o.k.g.sbProcs ≠ 0

theorem Next.clockInv {o o' : Obs} {ev : Event} {ws : List PcbId} (hg : Good o)
    (hc : Contract o ev) (hgo : o.exit.ongoing) (h : ClockInv ws o) (hn : Next o ev o') :
    ClockInv (ev.clockStep o o'.k.lists.free ws) o' := by
  obtain ⟨hit, hqueue⟩ := hn.clockMoved hg hc
  have hpoised := hn.poised hg hc
  refine ⟨hit, h.queue ▸ hqueue, fun p hp => ?_, hn.actPrio hg hc h.act, hn.waits h.wait⟩
  have hmem := (mem_clockStep hp).2
  have hfree : p ∉ o.k.lists.free := by
    rcases hmem with hp | hact
    · exact hpoised.wf.alive_of_blocked _ p (h.queue ▸ hp)
    · exact (hpoised.loose p hact).1
  rw [hn.prio hfree]
  exact hmem.elim (h.prio p) (h.act hgo p)

theorem boot_clockInv (hg : PowerOn g) : ClockInv [] (boot g : Mach Heap).obs := by
  have hb := boot_booted hg
  refine ⟨hb.sems .it, hb.blocked _, by simp, fun _ => boot_actPrio Sim hg, fun he => ?_⟩
  rw [hb.exit] at he
  cases he

/-- At every exit of the nucleus those who wait for the clock are in its queue. -/
theorem Execution.clockInv (hg : PowerOn g) (h : Execution g tr m) :
    ClockInv (clockWaiters tr) m.obs := by
  induction h with
  | nil => exact boot_clockInv hg
  | @snoc tr m ev m' hrun hs ih =>
    have hr := Execution.reached hg hrun
    rw [clockWaiters, List.foldl_append]
    exact (hr.next hs).1.clockInv hr.good hs.2 (ongoing_of_next hs.1) ih

theorem ClockInv.dispatch_live {o : Obs} {k' : Kernel View} {e : Exit} {ws : List PcbId}
    {k1 : Kernel View} (h : ClockInv ws o) (he : o.exit = .wait) (ht : Ticked o.k k1 none)
    (hd : Dispatch k1 e k') : e.live := by
  obtain ⟨hprocs, hsb⟩ := h.wait he
  cases hd with
  | high => rfl
  | low => rfl
  | wait => rfl
  | halt _ hz => exact absurd (ht.procs.symm.trans hz) hprocs
  | deadlock hempty _ hz =>
    -- nobody has become ready, so nobody has waited, and somebody is still blocked
    have hnil : o.k.lists.blocked Layout.toAddresses.semIt = [] := by
      refine List.eq_nil_iff_forall_not_mem.mpr fun p hp => ?_
      obtain ⟨q, hq⟩ := ht.prio p hp
      have hmem : p ∈ View.ready k'.lists q := by
        rw [ht.ready q]
        exact List.mem_append_right _ (List.mem_filter.mpr ⟨hp, by simpa using hq⟩)
      rw [hempty q] at hmem
      cases hmem
    have hcount := ht.sb
    rw [hnil, List.length_nil, hz] at hcount
    exact absurd (BitVec.eq_of_toNat_eq hcount.symm) hsb

/-- The registers of the process that goes on after a tick. -/
theorem Ticked.goesOn {k k' : Kernel View} (h : Ticked (k.caught saved status pending junk) k' none)
    (hact : k.g.actProc = some p) (hloose : k.lists.Loose p) (hy : k'.g.yieldedProc = none) (e : Exit) :
    GoesOn p saved ⟨k, e⟩ ⟨(k'.mapG (·.age p)).load p, .ldst p⟩ := by
  have hpcb : k'.g.pcb p = { k.g.pcb p with pS := saved } := by
    rw [h.pcb p nofun, caught_lists, if_neg (hloose.2.2 _), caught_pcb hact, if_pos rfl]
  refine ⟨rfl, ?_, ?_⟩
  · rw [load_pS, if_pos rfl, mapG_g, age_pS, age_prio, hpcb]
  · rw [load_eq (k := k'.mapG (·.age p)) hy]
    simp only [Globals.load, Globals.age, setPcb_pcb, if_true, mapG_g, hpcb]

/-- After an exception while the processor waited the scheduler is called. -/
theorem Finish.of_none {k k' : Kernel View} {r : EhAct} {e : Exit} (h : Finish k r e k')
    (hn : k.g.actProc = Option.none) : Dispatch k e k' := by
  cases h with
  | none _ hd => exact hd
  | «continue» ha => rw [hn] at ha; cases ha
  | renqueue ha => rw [hn] at ha; cases ha
  | nothing ha => rw [hn] at ha; cases ha

/-- After an exception that leaves the running process aside the scheduler is called. -/
theorem Finish.of_nothing {k k' : Kernel View} {e : Exit} (h : Finish k .nothing e k')
    (ha : k.g.actProc = some p) : Dispatch (k.mapG (·.age p)) e k' := by
  cases h with
  | none hn => rw [ha] at hn; cases hn
  | nothing ha' _ _ hd =>
    obtain rfl : p = _ := Option.some.inj (ha.symm.trans ha')
    exact hd

/-- What the handler of an exception does at a tick. -/
theorem Outcome.of_tick {k k' : Kernel View} {r : EhAct} (h : Outcome k r k') (ht : k.g.TickTaken) :
    r = .continue ∧ k' = k.tick := by
  obtain ⟨hint, hline⟩ := ht
  have hne : ∀ line : Fin 8, k.g.servedLine = some line → line = 2 := fun line hl =>
    Option.some.inj (hl.symm.trans hline)
  cases h with
  | slice _ hl => exact absurd (hne _ hl) (by decide)
  | tick => exact ⟨rfl, rfl⟩
  | served _ hs =>
    rw [Globals.served, hline] at hs
    cases hs
  | unserved _ hl _ h2 => exact absurd (hne _ hl) h2
  | spurious hs =>
    rcases hs with ⟨-, hn⟩ | ht
    · rw [hline] at hn
      cases hn
    · exact absurd hint ht.1.1
  | sys _ hcall => exact absurd hint (not_intTaken hcall)
  | die ht => exact absurd hint ht.1

/-- An interrupt of the interval timer. -/
theorem Reached.tick (hr : Reached m) (hl : m.exit.live) {ws : List PcbId}
    (hinv : ClockInv ws m.obs) (hint : CAUSE_GET_EXCCODE saved.cause = EXC_INT)
    (hline : (m.k.g.enter saved status pending junk).servedLine = some 2) :
    ∃ m', m.next (.exception saved status pending junk) = some m' ∧ m'.exit.live ∧
      ((∃ p, m.exit.current = some p ∧ Ticked m.obs.k m'.obs.k (some p) ∧
          GoesOn p saved m.obs m'.obs) ∨
        m.exit = .wait ∧ ∃ k1, Ticked m.obs.k k1 none ∧ Dispatch k1 m'.exit m'.obs.k) := by
  have hcan : m.exit.canTake saved := by
    revert hl
    unfold Exit.live Exit.canTake
    split <;> simp [hint]
  have hnocall : ¬ (m.k.g.enter saved status pending junk).KernelCall saved := fun h =>
    absurd (h.1.symm.trans hint) (by decide)
  have hc : Contract m.obs (.exception saved status pending junk) := fun h => absurd h hnocall
  have hst := hr.good.stable hl
  have hen := (hst.ready hcan hc).save.toEntered
  obtain ⟨m', hm', -, hh⟩ := hr.exception hcan hc
  refine ⟨m', hm', ?_⟩
  have htaken : (m.obs.k.caught saved status pending junk).g.TickTaken := by
    refine ⟨?_, ?_⟩
    · rw [Globals.IntTaken, caught_biosDataPage, hint]
    · rw [Kernel.caught, mapG_g, save_eq]
      exact hline
  have hprio : ∀ p ∈ (m.obs.k.caught saved status pending junk).lists.blocked
      Layout.toAddresses.semIt, ∃ q : Queue,
        ((m.obs.k.caught saved status pending junk).g.pcb p).pPrio = q.prio := by
    intro p hp
    rw [caught_sameTags.prio]
    exact hinv.prio p (hinv.queue ▸ hp)
  have hticked := tick_ticked (k := m.obs.k.caught saved status pending junk) hen.toSound hprio
  have hyield : (m.obs.k.caught saved status pending junk).tick.g.yieldedProc = none :=
    (tick_yieldedProc _).trans hen.yielded
  have hact : (m.obs.k.caught saved status pending junk).tick.g.actProc = m.exit.current :=
    (tick_actProc _).trans ((caught_actProc (k := m.obs.k)).trans (hr.actProc hl))
  have hfin : Finish (m.obs.k.caught saved status pending junk).tick .continue m'.exit m'.obs.k := by
    cases hh with
    | exit he => exact (EarlyExit.not_int (k := m.obs.k.caught saved status pending junk) he
        htaken.1).elim
    | finish ho hf =>
      obtain ⟨rfl, rfl⟩ := Outcome.of_tick (k := m.obs.k.caught saved status pending junk) ho htaken
      exact hf
  have hcaught := Ticked.of_caught hticked
  rw [show m.obs.k.g.actProc = m.exit.current from hr.actProc hl] at hcaught
  cases hcur : m.exit.current with
  | some p =>
    obtain ⟨he, hk⟩ := hfin.of_continue (hact.trans hcur)
    have hp : m.obs.k.g.actProc = some p := (hr.actProc hl).trans hcur
    rw [hcur] at hcaught
    have hgoes := hticked.goesOn hp (hst.loose p hp) hyield m.exit
    have hload := hcaught.load hyield
    rw [← hk] at hload hgoes
    rw [← he] at hgoes
    exact ⟨live_of_current (congrArg Exit.current he), .inl ⟨p, rfl, hload, hgoes⟩⟩
  | none =>
    have hwait : m.exit = .wait := by
      revert hl hcur
      cases m.exit <;> simp [Exit.live, Exit.current]
    rw [hcur] at hcaught
    have hd := hfin.of_none (hact.trans hcur)
    exact ⟨hinv.dispatch_live hwait hcaught hd, .inr ⟨hwait, _, hcaught, hd⟩⟩

/-- What a CLOCKWAIT does while the semaphore is 0. -/
theorem SysOutcome.of_clockWait {k k' : Kernel View} {r : EhAct} (h : SysOutcome k p saved r k')
    (hn : saved.number = CLOCKWAIT) (hi : k.g.int Layout.toAddresses.semIt = 0) :
    r = .nothing ∧ k' = k.block Layout.toAddresses.semIt p := by
  have hne : ∀ {w}, saved.number = w → w ≠ CLOCKWAIT → False := fun h hw => hw (h ▸ hn)
  cases h with
  | value hv =>
    rw [Globals.sysResult, hn, if_neg (by decide), if_neg (by decide), if_neg (by decide)] at hv
    cases hv
  | full h => exact (hne h (by decide)).elim
  | create h => exact (hne h (by decide)).elim
  | terminate h => exact (hne h (by decide)).elim
  | passeren h => exact (hne h (by decide)).elim
  | verhogen h => exact (hne h (by decide)).elim
  | doio h => exact (hne h (by decide)).elim
  | clockwait _ hp =>
    cases hp with
    | block => exact ⟨rfl, rfl⟩
    | wake hnz => exact absurd hi hnz
    | take hnz => exact absurd hi hnz
  | yield h => exact (hne h (by decide)).elim
  | unknown h => exact absurd (by rw [hn]; decide) h

/-- With a live process blocked there is something to dispatch or to wait for. -/
theorem Dispatch.live_of_blocked {k k' : Kernel View} {e : Exit} (h : Sound k) {s : Word}
    (hp : p ∈ k.lists.blocked s) (hd : Dispatch k e k') : e.live := by
  cases hd with
  | high => rfl
  | low => rfl
  | wait => rfl
  | halt _ hz => exact absurd (h.inv.procsCount_eq_zero.mp hz p) (h.wf.alive_of_blocked s p hp)
  | deadlock _ _ hz =>
    rw [h.inv.sbProcs_eq_zero.mp hz s] at hp
    cases hp

/-- A CLOCKWAIT. -/
theorem Reached.clockWait (hr : Reached m) (hp : m.exit.current = some p)
    (hcall : KernelCallOf saved status) (hn : saved.number = CLOCKWAIT) :
    ∃ m', m.next (.exception saved status pending junk) = some m' ∧ m'.exit.live ∧
      m'.exit ≠ .ldst p ∧ m'.obs.k.lists.blocked Layout.toAddresses.semIt =
        m.obs.k.lists.blocked Layout.toAddresses.semIt ++ [p] := by
  have hst := hr.good.stable (live_of_current hp)
  have hact : m.obs.k.g.actProc = some p := hst.current.trans hp
  have hc : CallOk m.obs.k junk saved :=
    ⟨fun h => absurd (hn.symm.trans h) (by decide),
      fun h => h.elim (fun h => absurd (hn.symm.trans h) (by decide))
        fun h => absurd (hn.symm.trans h) (by decide),
      fun h => absurd (hn.symm.trans h) (by decide)⟩
  obtain ⟨m', hm', hr', hcase⟩ := hr.kernelCall hp hcall pending hc
  refine ⟨m', hm', ?_⟩
  rcases hcase with hx | ⟨r, k1, hs, hf⟩
  · rcases hx.number with h | h <;> rw [hn] at h <;> exact absurd h (by decide)
  have hzero : (m.obs.k.caught saved status pending junk).g.int Layout.toAddresses.semIt = 0 := by
    rw [caught_int]
    exact hst.it
  obtain ⟨rfl, rfl⟩ := hs.of_clockWait hn hzero
  have hcontract : Contract m.obs (.exception saved status pending junk) := fun _ => hc
  have hen := (hst.ready (canTake_of_current hp) hcontract).save.toEntered
  have hloose := hst.loose p hact
  have hact' : (m.obs.k.caught saved status pending junk).g.actProc = some p := by
    rw [caught_actProc, hact]
  have hblocked : ((m.obs.k.caught saved status pending junk).block Layout.toAddresses.semIt
      p).lists.blocked Layout.toAddresses.semIt =
        m.obs.k.lists.blocked Layout.toAddresses.semIt ++ [p] := Function.update_self ..
  have hmem : p ∈ ((m.obs.k.caught saved status pending junk).block Layout.toAddresses.semIt
      p).lists.blocked Layout.toAddresses.semIt := by
    rw [hblocked]
    exact List.mem_append_right _ List.mem_cons_self
  have hsound := (hen.toSound.block (s := Layout.toAddresses.semIt) hloose
    (Layout.sem_aligned .it)).setPS (p := p) (·.advance)
  refine ⟨?_, ?_, (hf.blocked _).trans hblocked⟩
  · exact Dispatch.live_of_blocked (Sound.mapG hsound (sameTags_age _ _) rfl rfl) hmem
      (hf.of_nothing hact')
  · intro he
    have hst' := hr'.good.stable (by rw [Mach.obs_exit, he]; rfl)
    have hact1 : m'.obs.k.g.actProc = some p := hst'.current.trans (by rw [Mach.obs_exit, he]; rfl)
    refine (hst'.loose p hact1).2.2 Layout.toAddresses.semIt ?_
    rw [hf.blocked]
    exact hmem

/-- While the processes keep off the semaphores of the nucleus: at every exit `sem_it` is 0 and
    those who wait for the clock are in its queue, in the order of their CLOCKWAITs; none of them
    runs or is ready; a tick makes all of them ready, ends, and leaves everything else alone; and
    a CLOCKWAIT blocks. -/
theorem clock_tick (hg : PowerOn g) (h : Execution g tr m) :
    m.k.g.int Layout.toAddresses.semIt = 0 ∧
    m.obs.k.lists.blocked Layout.toAddresses.semIt = clockWaiters tr ∧
    (m.exit.live → ∀ p ∈ clockWaiters tr, m.exit.current ≠ some p ∧
      ∀ q, p ∉ m.obs.k.lists.ready q) ∧
    (m.exit.live → ∀ saved status pending junk, CAUSE_GET_EXCCODE saved.cause = EXC_INT →
      (m.k.g.enter saved status pending junk).servedLine = some 2 →
      ∃ m', m.next (.exception saved status pending junk) = some m' ∧ m'.exit.live ∧
        ((∃ p, m.exit.current = some p ∧ Ticked m.obs.k m'.obs.k (some p) ∧
            GoesOn p saved m.obs m'.obs) ∨
          m.exit = .wait ∧ ∃ k1, Ticked m.obs.k k1 none ∧ Dispatch k1 m'.exit m'.obs.k)) ∧
    ∀ p saved status pending junk, m.exit.current = some p → KernelCallOf saved status →
      saved.number = CLOCKWAIT →
      ∃ m', m.next (.exception saved status pending junk) = some m' ∧ m'.exit.live ∧
        m'.exit ≠ .ldst p ∧ m'.obs.k.lists.blocked Layout.toAddresses.semIt =
          m.obs.k.lists.blocked Layout.toAddresses.semIt ++ [p] := by
  have hr := Execution.reached hg h
  have hinv := h.clockInv hg
  refine ⟨hinv.it, hinv.queue, fun hl p hp => ?_, fun hl saved status pending junk hint hline => ?_,
    fun p saved status pending junk hp hcall hn => hr.clockWait hp hcall hn⟩
  · have hst := hr.good.stable hl
    rw [← hinv.queue] at hp
    exact ⟨fun e => (hst.loose p (hst.current.trans e)).2.2 _ hp,
      fun q hq => hst.wf.ready_blocked q p hq _ hp⟩
  · exact hr.tick hl hinv hint hline

end Runs

/-! ## Two processes wait for the clock -/

/-- Two of three processes call CLOCKWAIT. -/
def twoWaiters : List Event :=
  [createLowEvent, createLowEvent, sysEvent CLOCKWAIT 0 0 0, sysEvent CLOCKWAIT 0 0 0]

/-- An interrupt of the interval timer. -/
def tickEvent : Event := .exception intState 0 (fun i => i = 2) 0

/-- The tick makes the two of them ready, and the third one goes on. -/
theorem clock_tick_twoWaiters :
    letI := sampleLayout
    ∃ tr, ∃ m m' : Mach Heap, Execution sampleGlobals tr m ∧ clockWaiters tr = [0, 1] ∧
      m.obs.k.lists.blocked sampleAddresses.semIt = [0, 1] ∧ m.next tickEvent = some m' ∧
      Ticked m.obs.k m'.obs.k (some 2) ∧ m'.obs.k.lists.ready .low = [0, 1] ∧
      GoesOn 2 intState m.obs m'.obs := by
  let _ := sampleLayout
  obtain ⟨tr, m, htr, hP⟩ := Mach.exists_run_of_play Contract (boot sampleGlobals) twoWaiters
    (P := fun tr m => clockWaiters tr = [0, 1] ∧ m.exit.current = some 2 ∧
      m.obs.k.lists.ready .low = [] ∧
      ([0, 1].filter fun p => (m.k.g.pcb p).pPrio = Queue.low.prio) = [0, 1] ∧
      (m.k.g.enter intState 0 (fun i => i = 2) 0).servedLine = some 2) (by decide +kernel)
  obtain ⟨hws, hcur, hready, hlow, hline⟩ := of_decide_eq_true hP
  obtain ⟨-, hqueue, -, htick, -⟩ := clock_tick sampleGlobals_powerOn htr
  obtain ⟨m', hm', -, hticked⟩ := htick (live_of_current hcur) intState 0 (fun i => i = 2) 0
    (by decide) hline
  obtain ⟨p, hp, ht, hgo⟩ := hticked.resolve_right fun h => by
    rw [h.1] at hcur
    cases hcur
  obtain rfl := Option.some.inj (hcur.symm.trans hp)
  rw [hws] at hqueue
  refine ⟨tr, m, m', htr, hws, hqueue, hm', ht, ?_, hgo⟩
  rw [ht.ready, hready, hqueue]
  exact hlow

/-! ## The semaphores of the devices -/

/-- A TERMPROCESS is about the caller or a live process, and the semaphore of the clock is not
    operated on. -/
def SparesClock [Layout] (o : Obs) : Event → Prop
  | .exception saved status pending junk =>
    (o.k.g.enter saved status pending junk).KernelCall saved → TermOk o.k saved ∧
      (saved.number = PASSEREN ∨ saved.number = VERHOGEN →
        saved.arg1 ≠ Layout.toAddresses.semIt) ∧
      (saved.number = DOIO → saved.arg1 ≠ Layout.toAddresses.semIt ∧
        doIoSem junk saved.arg1 ≠ Layout.toAddresses.semIt)
  | _ => True

instance [Layout] (o : Obs) : DecidablePred (SparesClock o)
  | .exception _ _ _ _ => inferInstanceAs (Decidable (_ → _))
  | .resume => .isTrue trivial
  | .complete _ _ => .isTrue trivial
  | .store _ _ => .isTrue trivial
  | .storeState _ _ => .isTrue trivial
  | .storeSupport _ _ => .isTrue trivial
  | .addressError _ _ _ _ => .isTrue trivial

/-- The first process makes another one and waits for a disk. The other one raises the semaphore
    of the disk, the first one does so again, and then the disk interrupts the other one. -/
def raisedDisk [Layout] : List Event :=
  let disk : SubDev := .dtp 0 0
  [createLowEvent, sysEvent DOIO disk.commandAddr 2 0,
    sysEvent VERHOGEN (Layout.toAddresses.semAddr (.dev disk)) 0 0,
    sysEvent VERHOGEN (Layout.toAddresses.semAddr (.dev disk)) 0 0, .complete disk READY,
    .exception intState 0 (fun _ => false) 0]

/-- The interrupt has put the running process in the queue of the disk: its CLOCKWAIT panics. -/
theorem clockWait_panics :
    letI := sampleLayout
    ∃ tr, ∃ m m' : Mach Heap, Run (Step SparesClock) (boot sampleGlobals) tr m ∧
      m.exit = .ldst 1 ∧
      m.next (.exception (sysState CLOCKWAIT 0 0 0) 0 (fun _ => false) 0) = some m' ∧
      m'.exit = .panic .blockedProcess := by
  let _ := sampleLayout
  obtain ⟨tr, m, hrun, hP⟩ := Mach.exists_run_of_play SparesClock (boot sampleGlobals) raisedDisk
    (P := fun _ m => m.exit = .ldst 1 ∧
      (m.next (.exception (sysState CLOCKWAIT 0 0 0) 0 (fun _ => false) 0)).any
        fun m' => m'.exit = .panic .blockedProcess) (by decide +kernel)
  obtain ⟨he, hv⟩ := of_decide_eq_true hP
  obtain ⟨m', hm', hv'⟩ := (Option.any_eq_true _ _).mp hv
  exact ⟨tr, m, m', hrun, he, hm', of_decide_eq_true hv'⟩

end Rocm
