import Rocm.Properties.Sample
import Rocm.Refine.Keeps

/-!
# TERMPROCESS of something that is no process

The only check on the argument of a TERMPROCESS is that it could be the address of a PCB. So a
PID that belongs to no process either leads the nucleus through a wild pointer or down the whole
kill, and never back with everything as it was.
-/

namespace Rocm

open Ring Prog ProcTable Runs

/-- `term_process(pid)` returns, has changed nothing, and the caller `p` keeps running. -/
structure Harmless [Layout] (pid : Word) (p : PcbId) (k : Kernel Heap) (r : EhAct)
    (k' : Kernel Heap) : Prop where
  returns : termProcess pid k = .ok r k'
  goesOn : (r = .continue ∨ r = .renqueue) ∧ k'.g.actProc = some p
  lists : k'.abs.lists = k.abs.lists
  procs : k'.g.procsCount = k.g.procsCount
  sb : k'.g.sbProcs = k.g.sbProcs

/-- `procs_count`. -/
def Kernel.count (k : Kernel Heap) : Word := k.g.procsCount

/-- A kill is counted. -/
theorem killProc_count (p : PcbId) (k : Kernel Heap) :
    wp (killProc p) (fun _ k' => k'.count = k.count - 1) (fun _ _ => True) k := by
  have hrest : Keeps Kernel.count (do leaveParent p; leaveSemaphore p; leaveReady p; freePcb p) :=
    .bind (.leaveParent (fun _ _ _ => rfl) (fun _ _ => rfl) p) fun _ =>
    .bind (.leaveSemaphore (fun _ _ _ => rfl) (fun _ _ => rfl) (fun _ _ => rfl) p fun _ => rfl)
      fun _ => .bind (.leaveReady (fun _ _ => rfl) p) fun _ =>
    .freePcb (fun _ _ _ => rfl) (fun _ _ => rfl) p
  rw [killProc, wp_bind, wp_modifyG]
  exact wp_mono (fun _ _ h => h) (fun _ _ _ => trivial) (hrest _)

/-- A free PCB either has an empty list of children or was never allocated. -/
theorem removeChild_free {k : Kernel Heap} {l : Kernel Lists} (hs : Sim k l) {q : PcbId}
    (hq : q ∈ l.lists.free) :
    Heap.removeChild q k = .ok none k ∨ Heap.removeChild q k = .error .fault k := by
  obtain ⟨T, hT⟩ := hs.rep.tree
  have hdef : Heap.removeChild q k = (if listEmpty (.head q) k.lists.tree then
      (pure none : KM Heap (Option PcbId)) else do
        let firstChild ← Heap.containerOf (listNext (.head q) k.lists.tree)
        Heap.treeM (listDel (.elem firstChild))
        modifyG (·.setPcb firstChild fun c => { c with pParent := none })
        return some firstChild) k := rfl
  cases hTq : T q with
  | none =>
    have hnext := (hT.uninit q hTq).2
    have hempty : listEmpty (.head q) k.lists.tree = false := by simp [listEmpty, hnext]
    rw [hdef, hempty]
    refine .inr ?_
    rw [listNext, hempty, hnext]
    rfl
  | some cs =>
    have hcs : cs = [] := (hT.child q cs hTq).trans (l.lists.leaf q hq).1
    subst hcs
    have hempty : listEmpty (.head q) k.lists.tree = true := by
      rw [listEmpty_eq (hT.family.ring hTq)]
      rfl
    rw [hdef, hempty]
    exact .inl rfl

/-- A kill of a free PCB decrements the counter, where it returns. -/
theorem killFree_count {k : Kernel Heap} {l : Kernel Lists} (hs : Sim k l) {q : PcbId}
    (hq : q ∈ l.lists.free) :
    wp (killParentAndProgeny killFuel q) (fun _ k' => k'.count = k.count - 1) (fun _ _ => True)
      k := by
  rw [killFuel, killParentAndProgeny, wp_bind]
  rcases removeChild_free hs hq with hok | herr
  · exact wp_of_ok hok (killProc_count q k)
  · exact wp_of_error herr trivial

theorem isAlive_count (p : PcbId) : Keeps Kernel.count (ProcTable.isAlive p : KM Heap Bool) :=
  .bind (.bind .get fun _ => .listForEach _ _ _) fun _ => .pure _

variable [Layout]

/-- What `term_process` is about when its argument is no process: a free PCB, if any. -/
theorem termTarget_stale {k : Kernel View} (h : KInv k) {pid : Word} (hpid : pid ≠ 0)
    (hdead : ∀ q, q ∉ k.lists.free → (k.g.pcb q).pPid ≠ pid) {act q : PcbId}
    (hq : termTarget act pid = some q) : q ∈ k.lists.free := by
  rw [termTarget, if_neg hpid] at hq
  by_contra hfree
  have haddr : Layout.toAddresses.pcbAddr q = searchByPid pid := by
    have := List.find?_some hq
    exact of_decide_eq_true this
  refine hdead q hfree ((h.pidLive q hfree).trans ?_)
  have hsearch : searchByPid pid = pid ∨ searchByPid pid = NULL := by
    simp only [searchByPid, Addresses.searchByPid]
    split
    exacts [.inl rfl, .inr rfl]
  rcases hsearch with hs | hs
  · exact haddr.trans hs
  · exact absurd (haddr.trans hs) (pcbAddr_ne_null q)

theorem termProcess_count {k : Kernel Heap} {l : Kernel Lists} (hs : Sim k l) {p : PcbId}
    (hact : k.g.actProc = some p) {pid : Word}
    (htarget : ∀ q, termTarget p pid = some q → q ∈ l.lists.free) :
    wp (termProcess pid) (fun _ k' => k'.count = k.count - 1) (fun _ _ => True) k := by
  rw [termProcess, derefActProc, wp_bind, wp_bind, wp_getG, hact]
  simp only [wp_pure]
  cases ht : (if pid = 0 then some p else pcbAt (searchByPid pid)) with
  | none => exact trivial
  | some q =>
    rw [wp_bind]
    refine wp_mono (fun _ k1 hk1 => ?_) (fun _ _ _ => trivial) (killFree_count hs (htarget q ht))
    rw [wp_bind]
    refine wp_mono (fun _ k2 hk2 => ?_) (fun _ _ _ => trivial) (isAlive_count p k1)
    exact Eq.trans hk2 hk1

/-- No TERMPROCESS of something that is no process is harmless. -/
theorem Reached.termProcess_stale {m : Mach Heap} (h : Reached m) {p : PcbId}
    (hp : m.exit.current = some p) {pid : Word} (hpid : pid ≠ 0)
    (hdead : ∀ q, q ∉ m.obs.k.lists.free → (m.k.g.pcb q).pPid ≠ pid) (saved : ProcState)
    (status : Word) (pending : Fin 3 → Bool) (junk : Word) :
    ¬ ∃ r k', Harmless pid p (m.k.caught saved status pending junk) r k' := by
  rintro ⟨r, k', hh⟩
  have hst := h.good.stable (live_of_current hp)
  obtain ⟨-, l, hsim⟩ := h
  have hact : m.k.g.actProc = some p := hst.current.trans hp
  have hsim' : Sim (m.k.caught saved status pending junk)
      (l.k.caught saved status pending junk) := hsim.sim.mapG _
  have hfree : m.obs.k.lists.free = l.k.lists.free := congrArg (·.k.lists.free) hsim.obs
  have htarget : ∀ q, termTarget p pid = some q → q ∈ l.k.lists.free := fun q hq => by
    rw [← hfree]
    exact termTarget_stale hst.inv hpid hdead hq
  have hcount := termProcess_count hsim' (caught_actProc.trans hact) htarget
  unfold wp at hcount
  rw [hh.returns] at hcount
  have hsame : k'.count = (m.k.caught saved status pending junk).count := hh.procs
  exact absurd (hsame.symm.trans hcount) (by bv_omega)

/-- A TERMPROCESS of something that is no process never leaves everything as it was. -/
theorem termProcess_never_harmless {g : Globals} (hg : PowerOn g)
    {tr : List (Mach Heap × Event × Mach Heap)} {m : Mach Heap} (h : Execution g tr m) {p : PcbId}
    (hp : m.exit.current = some p) {pid : Word} (hpid : pid ≠ 0)
    (hdead : ∀ q, q ∉ m.obs.k.lists.free → (m.k.g.pcb q).pPid ≠ pid) (saved : ProcState)
    (status : Word) (pending : Fin 3 → Bool) (junk : Word) :
    ¬ ∃ r k', Harmless pid p (m.k.caught saved status pending junk) r k' :=
  (Execution.reached hg h).termProcess_stale hp hpid hdead saved status pending junk

/-- After boot only the first process is alive, and its PID is not 1. -/
theorem boot_pid {g : Globals} (h : PowerOn g) (halign : ¬ Layout.toAddresses.pcbAddr 0 = 1) :
    ∀ q, q ∉ (boot g : Mach Heap).obs.k.lists.free →
      ((boot g : Mach Heap).k.g.pcb q).pPid ≠ 1 := by
  intro q hq
  have hst := (boot_reached h).good.stable (boot_live h)
  have hpid : ((boot g : Mach Heap).k.g.pcb q).pPid = Layout.toAddresses.pcbAddr q :=
    hst.inv.pidLive q hq
  rw [hpid]
  rw [(boot_booted h).free] at hq
  have hzero : ∀ q : PcbId, q ∉ (List.finRange MAXPROC).tail → q = 0 := by decide
  rw [hzero q hq]
  exact halign

omit [Layout] in
theorem termProcess_never_harmless_boot :
    letI := sampleLayout
    ¬ ∃ r k', Harmless 1 0 ((boot sampleGlobals : Mach Heap).k.caught
      (sysState TERMPROCESS 1 0 0) 0 (fun _ => false) 0) r k' :=
  letI := sampleLayout
  termProcess_never_harmless sampleGlobals_powerOn .nil (boot_current sampleGlobals_powerOn)
    (by decide) (boot_pid sampleGlobals_powerOn (by decide)) _ _ _ _

omit [Layout] in
/-- A TERMPROCESS of 1, which is no PID, by the first process. -/
theorem termProcess_one :
    letI := sampleLayout
    (∀ q, q ∉ (boot sampleGlobals : Mach Heap).obs.k.lists.free →
      ((boot sampleGlobals : Mach Heap).k.g.pcb q).pPid ≠ 1) ∧
    ¬ ∃ r k', Harmless 1 0 ((boot sampleGlobals : Mach Heap).k.caught
      (sysState TERMPROCESS 1 0 0) 0 (fun _ => false) 0) r k' :=
  letI := sampleLayout
  have hpid := boot_pid sampleGlobals_powerOn (by decide)
  ⟨hpid, (boot_reached sampleGlobals_powerOn).termProcess_stale
    (boot_current sampleGlobals_powerOn) (by decide) hpid _ _ _ _⟩

end Rocm
