import Rocm.Properties.Sample
import Rocm.Properties.Waiting

/-!
# DOIO and its completion

A DOIO on a device gives it the command and blocks its caller until the completion interrupt if and
only if it finds the semaphore of the device at 0 and the device idle.
-/

namespace Rocm

open Prog ProcTable Runs

variable [Layout] {m m' : Mach Heap} {p : PcbId} {d : SubDev} {saved : ProcState}
  {status junk : Word} {pending : Fin 3 → Bool} {ev : Event}

/-- The DOIO that leads from `m` to `m'` is paired with a completion of `d`. -/
structure Paired (d : SubDev) (p : PcbId) (command : Word) (m m' : Mach Heap) : Prop where
  tail : (m'.obs.k.lists.blocked (Layout.toAddresses.semAddr (.dev d))).getLast? = some p
  /-- The register holds the command, and the device was free to take it. -/
  written : (m'.k.g.dev d).command = command ∧ (m.k.g.dev d).busy = false
  /-- As long as it is not killed, only the completion takes the caller out of the queue. -/
  released : ∀ tr m2, Run (Step Contract) m' tr m2 → ∀ x ∈ tr,
    p ∈ x.1.obs.k.lists.blocked (Layout.toAddresses.semAddr (.dev d)) →
    p ∈ x.2.2.obs.k.lists.blocked (Layout.toAddresses.semAddr (.dev d)) ∨
      p ∈ x.2.2.obs.k.lists.free ∨ CompletedFor d p x.1.obs x.2.1 x.2.2.obs

/-- A process in the queue of a device stays there until it is killed or the device completes. -/
theorem Reached.stays_blocked (hr : Reached m) (hs : Step Contract m ev m')
    (hq : p ∈ m.obs.k.lists.blocked (Layout.toAddresses.semAddr (.dev d))) :
    p ∈ m'.obs.k.lists.blocked (Layout.toAddresses.semAddr (.dev d)) ∨
      p ∈ m'.obs.k.lists.free ∨ CompletedFor d p m.obs ev m'.obs := by
  by_cases hfree : p ∈ m'.obs.k.lists.free
  · exact .inr (.inl hfree)
  have hst := (hr.next hs).1.poised hr.good hs.2
  have hcur : m.obs.k.g.actProc ≠ some p := fun h => (hst.loose p h).2.2 _ hq
  have halive : p ∉ m.obs.k.lists.free := fun h => hst.wf.free_blocked p h _ hq
  cases (hr.next hs).1.bystander hr.good hs.2 hcur halive hfree with
  | stays hw => exact .inl ((hw d).mpr hq)
  | @released d' hc =>
    obtain rfl := hst.inv.toKCore.toKTags.blocked_dev hq hc.waits
    exact .inr (.inr hc)

section Call

variable {k k' : Kernel View} {r : EhAct} {e : Exit}

omit [Layout] in
theorem ne_of_doio (hn : saved.number = DOIO) {w : Word} (h : saved.number = w) (hw : w ≠ DOIO) :
    False := hw (h ▸ hn)

theorem SysExit.not_doio (h : SysExit k p saved e k') (hn : saved.number = DOIO)
    (hd : saved.arg1 = d.commandAddr) : False := by
  cases h with
  | passUp h => exact h (by rw [hn]; decide)
  | rangeP h => exact ne_of_doio hn h (by decide)
  | rangeV h => exact ne_of_doio hn h (by decide)
  | doIoNull _ h =>
    rw [hd] at h
    exact h.elim (commandAddr_ne d).1 (commandAddr_ne d).2
  | sem h => exact h.elim (ne_of_doio hn · (by decide)) (ne_of_doio hn · (by decide))
  | doioSem _ h =>
    rw [hd, doIoSem_commandAddr] at h
    exact h (Layout.sem_aligned _)
  | doio _ h =>
    rw [hd] at h
    exact h (commandAddr_aligned d)

theorem SysOutcome.of_doio (h : SysOutcome k p saved r k') (hn : saved.number = DOIO)
    (hd : saved.arg1 = d.commandAddr) :
    r = .nothing ∧ ∃ r1 k1, PStep (Layout.toAddresses.semAddr (.dev d)) p k r1 k1 ∧
      k' = k1.mapG (·.command d saved.arg2) := by
  cases h with
  | value hv =>
    rw [Globals.sysResult, hn, if_neg (by decide), if_neg (by decide), if_neg (by decide)] at hv
    cases hv
  | full h => exact (ne_of_doio hn h (by decide)).elim
  | create h => exact (ne_of_doio hn h (by decide)).elim
  | terminate h => exact (ne_of_doio hn h (by decide)).elim
  | passeren h => exact (ne_of_doio hn h (by decide)).elim
  | verhogen h => exact (ne_of_doio hn h (by decide)).elim
  | @doio r1 k1 _ _ _ _ _ hp =>
    rw [hd, doIoSem_commandAddr] at hp
    refine ⟨rfl, r1, k1, hp, ?_⟩
    rw [hd]
    exact congrArg (Kernel.mk _) (storeWord_commandAddr _ d _)
  | clockwait h => exact (ne_of_doio hn h (by decide)).elim
  | yield h => exact (ne_of_doio hn h (by decide)).elim
  | unknown h => exact absurd (by rw [hn]; decide) h

end Call

/-- A DOIO on a device is answered: it is a P on the semaphore, then the command. -/
theorem Reached.doio (hr : Reached m) (hp : m.exit.current = some p)
    (hcall : KernelCallOf saved status) (hn : saved.number = DOIO)
    (hd : saved.arg1 = d.commandAddr) :
    ∃ m', m.next (.exception saved status pending junk) = some m' ∧ Reached m' ∧ ∃ r k1,
      PStep (Layout.toAddresses.semAddr (.dev d)) p (m.obs.k.caught saved status pending junk) r k1 ∧
      Finish ((k1.mapG (·.command d saved.arg2)).mapG (·.setPS p (·.advance))) .nothing
        m'.exit m'.obs.k := by
  have hok : CallOk m.obs.k junk saved := by
    refine ⟨fun h => (ne_of_doio hn h (by decide)).elim, ?_, fun _ => .inl ⟨d, hd⟩⟩
    rintro (h | h) <;> exact (ne_of_doio hn h (by decide)).elim
  obtain ⟨m', hm', hr', hout⟩ := hr.kernelCall hp hcall pending hok
  refine ⟨m', hm', hr', ?_⟩
  rcases hout with hex | ⟨r, k1, ho, hfin⟩
  · exact (hex.not_doio hn hd).elim
  · obtain ⟨rfl, r1, k2, hstep, rfl⟩ := ho.of_doio hn hd
    exact ⟨r1, k2, hstep, hfin⟩

omit [Layout] in
/-- The caller is blocked if and only if the semaphore was 0. -/
theorem PStep.tail_iff {k k1 : Kernel View} {s : Word} {r : EhAct}
    (hq : k.g.int s ≠ 0 → k.lists.blocked s = []) (h : PStep s p k r k1) :
    (k1.lists.blocked s).getLast? = some p ↔ k.g.int s = 0 := by
  cases h with
  | block hz =>
    refine iff_of_true ?_ hz
    change (Function.update k.lists.blocked s (k.lists.blocked s ++ [p]) s).getLast? = some p
    rw [Function.update_self, List.getLast?_concat]
  | wake hne hs => rw [hq hne] at hs; cases hs
  | take hne hs =>
    refine iff_of_false (fun hl => ?_) hne
    change (k.lists.blocked s).getLast? = some p at hl
    rw [hs] at hl
    cases hl

omit [Layout] in
/-- An idle controller takes the command. -/
theorem store_command {c : DevState} {cmd : Word} (h : c.busy = false) :
    (c.store cmd).command = cmd := by
  unfold DevState.store
  split
  · next hb => rw [h] at hb; cases hb
  · split <;> rfl

/-- A DOIO of a device is paired with its completion if and only if it finds the semaphore of the
    device at 0 and the device is not busy. -/
theorem doio_paired_iff {g : Globals} (hg : PowerOn g) {tr : List (Mach Heap × Event × Mach Heap)}
    (h : Execution g tr m) (hp : m.exit.current = some p) (hcall : KernelCallOf saved status)
    (hn : saved.number = DOIO) (hd : saved.arg1 = d.commandAddr) :
    ∃ m', m.next (.exception saved status pending junk) = some m' ∧
      (Paired d p saved.arg2 m m' ↔ m.k.g.int (Layout.toAddresses.semAddr (.dev d)) = 0 ∧
        (m.k.g.dev d).busy = false) := by
  have hr := h.reached hg
  have hst := hr.good.stable (live_of_current hp)
  obtain ⟨m', hm', hr', r, k1, hstep, hfin⟩ :=
    hr.doio hp hcall hn hd
  refine ⟨m', hm', ?_⟩
  have hblocked : m'.obs.k.lists.blocked (Layout.toAddresses.semAddr (.dev d)) =
      k1.lists.blocked (Layout.toAddresses.semAddr (.dev d)) := hfin.blocked _
  have htail := hstep.tail_iff fun hne => by
    rw [caught_int] at hne
    exact (hst.dev d).one ((hst.dev d).range.resolve_left hne)
  rw [caught_int] at htail
  constructor
  · intro hpaired
    exact ⟨htail.mp (hblocked ▸ hpaired.tail), hpaired.written.2⟩
  · rintro ⟨hz, hidle⟩
    refine ⟨hblocked ▸ htail.mpr hz, ⟨?_, hidle⟩, fun tr m2 hrun x hx hq => ?_⟩
    · have hk1 : k1.g.dev = m.k.g.dev := by
        cases hstep <;> exact caught_dev
      have hfd : m'.k.g.dev d = (k1.g.command d saved.arg2).dev d := congrFun hfin.dev d
      have htaken : m'.k.g.dev d = (m.k.g.dev d).store saved.arg2 := by
        rw [hfd, Globals.command, hk1]
        exact Function.update_self ..
      rw [htaken]
      exact store_command hidle
    · obtain ⟨hrx, hsx, -⟩ := hrun.invariant_steps hr' (fun ha hs => (ha.next hs).2) x hx
      exact hrx.stays_blocked hsx hq

/-- The printer 0. -/
def samplePrinter : SubDev := .dtp 3 0

/-- A DOIO that prints the character 2. -/
def printEvent : Event := sysEvent DOIO samplePrinter.commandAddr 2 0

/-- The first process creates a child, which prints, and kills it while it waits; the printer
    completes and interrupts. -/
def killEvents : List Event :=
  [createLowEvent, sliceEvent, printEvent, sysEvent TERMPROCESS (sampleAddresses.pcbAddr 1) 0 0,
    .complete samplePrinter READY, .exception intState 0 (fun _ => false) 0]

omit [Layout] in
/-- The child prints, and its parent goes on. -/
theorem doio_paired_iff_child :
    letI := sampleLayout
    ∃ tr, ∃ m m' : Mach Heap, Execution sampleGlobals tr m ∧ m.next printEvent = some m' ∧
      m'.exit = .ldst 0 ∧ Paired samplePrinter 1 2 m m' := by
  let _ := sampleLayout
  obtain ⟨tr, m, htr, hP⟩ := Mach.exists_run_of_play Contract (boot sampleGlobals)
    [createLowEvent, sliceEvent] (P := fun _ m => decide (m.exit.current = some 1 ∧
      (m.next printEvent).any (fun m' : Mach Heap => m'.exit = .ldst 0) ∧
      m.k.g.int (sampleAddresses.semAddr (.dev samplePrinter)) = 0 ∧
      (m.k.g.dev samplePrinter).busy = false)) (by decide +kernel)
  obtain ⟨hcur, hnext, hz, hidle⟩ := of_decide_eq_true hP
  obtain ⟨m', hm', hpaired⟩ := doio_paired_iff sampleGlobals_powerOn htr hcur
    (sysState_call (by decide) _ _ _) rfl rfl
  obtain ⟨m1, hm1, he⟩ := (Option.any_eq_true _ _).mp hnext
  obtain rfl : m' = m1 := Option.some.inj (hm'.symm.trans hm1)
  exact ⟨tr, m, m', htr, hm', of_decide_eq_true he, hpaired.mpr ⟨hz, hidle⟩⟩

omit [Layout] in
/-- After the completion that nobody waited for, the first process prints and is not blocked. -/
theorem doio_unpaired :
    letI := sampleLayout
    ∃ tr m m', Execution sampleGlobals tr m ∧ m.exit.current = some 0 ∧
      m.next printEvent = some m' ∧ ¬ Paired samplePrinter 0 2 m m' := by
  let _ := sampleLayout
  obtain ⟨tr, m, htr, hP⟩ := Mach.exists_run_of_play Contract (boot sampleGlobals) killEvents
    (P := fun _ m => (m.next printEvent).any fun m' : Mach Heap => decide (m.exit.current = some 0 ∧
      (m'.obs.k.lists.blocked (sampleAddresses.semAddr (.dev samplePrinter))).getLast? ≠ some 0))
    (by decide +kernel)
  obtain ⟨m', hm', hP⟩ := (Option.any_eq_true _ _).mp hP
  obtain ⟨hcur, hlast⟩ := of_decide_eq_true hP
  exact ⟨tr, m, m', htr, hcur, hm', fun hp => hlast hp.tail⟩

end Rocm
