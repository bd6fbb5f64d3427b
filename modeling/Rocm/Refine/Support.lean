import Rocm.Proofs.Handlers
import Rocm.Proofs.Stages
import Rocm.Support.Abstract

/-!
# The system refines the abstract system

`Fits` says that the code of every process follows the protocol from the stage that the abstract
system gives it. Every step of the system is then a `Move`.
-/

namespace Rocm

open Threads Runs

variable [Umps]

/-- Whether the handler runs for a SYS2, where `s` is the state saved for it. -/
def GenStage.terminating (s : ProcState) : GenStage → Prop
  | .entry => s.IsTerminate
  | .plain sup => sup.IsTerminate
  | .holding sup _ => sup.IsTerminate
  | .cleaning sup _ => sup.IsTerminate
  | .cleaned sup => sup.IsTerminate
  | .returning => False

/-- A handler returns to its caller only after a read that has failed. -/
def Stage.Returns (S : Stage) : Prop := ∃ sup f, S.tlb = some (.failed sup f)

/-- What a process goes on with where the pager is not active. -/
def FitsGen (p : Uproc) (c : Cont) : Option GenStage → Prop
  | none => c = .user
  | some g => ∃ m, c = .code .general m ∧ Follows (protocol p) (fun _ S => S.Returns) m ⟨some g, none⟩

/-- The process is in the stage `S`; `s` is the state saved for its general handler. -/
structure Fits (p : Uproc) (x : Proc) (S : Stage) (s : ProcState) : Prop where
  now : if S.tlb.isSome then
      ∃ m, x.now = .code .pager m ∧ Follows (protocol p) (fun _ S => S.Returns) m S
    else FitsGen p x.now S.gen
  outer : S.tlb.isSome → FitsGen p (x.resume PGFAULTEXCEPT) S.gen
  back : ∀ g, S.gen = some g → x.resume GENERALEXCEPT = .user ∨ g.terminating s

/-- The state saved for the general handler of a process. -/
def Mem.genState (m : Mem) (p : Uproc) : ProcState := (m.sup p).supExceptState GENERALEXCEPT

def System.Fits (m : System) (st : Uproc → Stage) : Prop :=
  ∀ p, Rocm.Fits p (m.proc p) (st p) (m.mem.genState p)

def System.abs (m : System) (st : Uproc → Stage) : Abs :=
  ⟨m.mem, m.sem, fun p => (m.proc p).wait, st⟩

/-! ## Whose step it is -/

section Did

variable {m : System} {p : Uproc} {e : UserEvent}

/-- What holds of the use of an address. -/
theorem System.used_of {P : Did → Prop} {va : Word} {ok : PteEntry → Did} (hok : ∀ e, P (ok e))
    (hfault : P (.faulted p va)) (hmiss : P (.missed p va)) : P (m.used p va ok) := by
  unfold System.used
  split
  · split
    · exact hok _
    · exact hfault
  · exact hmiss

theorem used_actor {va : Word} {ok : PteEntry → Did} (hok : ∀ e, (ok e).actor = some p) :
    (m.used p va ok).actor = some p :=
  System.used_of (P := fun d => d.actor = some p) hok rfl rfl

theorem used_ne_gave {q : Uproc} {c : Cmd} {va : Word} {ok : PteEntry → Did}
    (hok : ∀ e, ok e ≠ .gave q c) : m.used p va ok ≠ .gave q c :=
  System.used_of (P := fun d => d ≠ .gave q c) hok (by simp) (by simp)

theorem storeDid_actor (va : Word) (b : Byte) : (m.storeDid p va b).actor = some p :=
  used_actor fun e => by split <;> rfl

theorem cmdDid_actor (m : System) (p : Uproc) (c : Cmd) : (m.cmdDid p c).actor = some p := by
  unfold System.cmdDid
  split
  · exact used_actor fun _ => rfl
  · exact storeDid_actor ..
  · rfl

theorem cmdDid_gave {q : Uproc} {c c' : Cmd} (h : m.cmdDid p c = .gave q c') : c = c' := by
  unfold System.cmdDid at h
  split at h
  · exact absurd h (used_ne_gave fun _ => by simp)
  · exact absurd h (used_ne_gave fun _ => by split <;> simp)
  · exact (Did.gave.inj h).2

end Did

/-! ## Saved states -/

@[simp] theorem Mem.setExceptState_self (m : Mem) (p : Uproc) (k : Fin 2) (s : ProcState) :
    ((m.setExceptState p k s).sup p).supExceptState k = s := by
  simp [Mem.setExceptState]

theorem Mem.setExceptState_of_ne (m : Mem) {p q : Uproc} {k k' : Fin 2} (s : ProcState)
    (h : q ≠ p ∨ k' ≠ k) :
    ((m.setExceptState p k s).sup q).supExceptState k' = (m.sup q).supExceptState k' := by
  simp only [Mem.setExceptState]
  by_cases hq : q = p
  · subst hq
    simp [Function.update_of_ne (h.resolve_left (by simp))]
  · simp [Function.update_of_ne hq]

@[simp] theorem Mem.setLo_exceptState (m : Mem) (x : Uproc × Page) (lo : Word) (q : Uproc) :
    ((m.setLo x lo).sup q).supExceptState = (m.sup q).supExceptState := by
  simp only [Mem.setLo]
  by_cases hq : q = x.1
  · subst hq
    simp
  · simp [Function.update_of_ne hq]

@[simp] theorem Mem.fillFrame_sup (m : Mem) (p : Uproc) (f : Frame) (i : Page) :
    (m.fillFrame p f i).sup = m.sup := rfl

/-- An access leaves the saved states alone, except the one it assigns. -/
theorem Act.run_exceptState (m : Mem) (x : Act) (q : Uproc) (k : Fin 2)
    (hx : ∀ s, x ≠ .setExceptState q k s) :
    (((x.run m).2).sup q).supExceptState k = (m.sup q).supExceptState k := by
  cases x with
  | setExceptState p k' s =>
    refine Mem.setExceptState_of_ne m s ?_
    by_contra h
    push Not at h
    exact hx s (by rw [h.1, h.2])
  | invalidate y => simp [Act.run, Mem.invalidate]
  | install p f i => simp [Act.run, Mem.install]
  | _ => rfl

/-- A transfer changes the memory and the flash of its device. -/
theorem Mem.transfer_eq (m : Mem) (no : Fin 8) (status : Word) : ∃ ram blocks,
    m.transfer no status = { m with ram := ram, flash := Function.update m.flash no blocks } := by
  have hsame : m = { m with ram := m.ram, flash := Function.update m.flash no (m.flash no) } := by
    rw [Function.update_eq_self]
  unfold Mem.transfer
  dsimp only
  split
  · exact ⟨_, _, hsame⟩
  · split
    · refine ⟨(m.writeBlock (m.dev (.dtp 1 no)).data0
        (m.flash no ((m.dev (.dtp 1 no)).command >>> 8))).ram, m.flash no, ?_⟩
      rw [Function.update_eq_self]
      rfl
    · split
      · exact ⟨_, _, rfl⟩
      · exact ⟨_, _, hsame⟩

/-- The end of an operation changes the registers of the device besides. -/
theorem Mem.complete_eq (m : Mem) (d : SubDev) (status : Word) : ∃ ram flash,
    m.complete d status = { m with
      ram := ram, flash := flash,
      dev := Function.update m.dev d { m.dev d with status := READY } } ∧
    ∀ q, d ≠ flashDev q → flash q = m.flash q := by
  unfold Mem.complete
  split
  · next no =>
    obtain ⟨ram, blocks, h⟩ := m.transfer_eq no status
    refine ⟨ram, Function.update m.flash no blocks, ?_, fun q hq => ?_⟩
    · rw [h]
    · refine Function.update_of_ne ?_ ..
      rintro rfl
      exact hq rfl
  · exact ⟨m.ram, m.flash, rfl, fun _ _ => rfl⟩

@[simp] theorem Mem.complete_sup (m : Mem) (d : SubDev) (status : Word) :
    (m.complete d status).sup = m.sup := by
  obtain ⟨ram, flash, h, -⟩ := m.complete_eq d status
  rw [h]

/-! ## One process moves -/

variable {m m' : System} {st : Uproc → Stage} {p : Uproc}

/-- Only `p` has moved, and the states saved for the others are the same. -/
theorem System.Fits.update (hf : m.Fits st) {S : Stage}
    (hproc : ∀ q, q ≠ p → (m'.proc q).now = (m.proc q).now ∧
      (m'.proc q).resume = (m.proc q).resume)
    (hgen : ∀ q, q ≠ p → m'.mem.genState q = m.mem.genState q)
    (hp : Rocm.Fits p (m'.proc p) S (m'.mem.genState p)) :
    m'.Fits (Function.update st p S) := by
  intro q
  by_cases hq : q = p
  · subst hq
    rwa [Function.update_self]
  · rw [Function.update_of_ne hq, hgen q hq]
    obtain ⟨hnow, houter, hback⟩ := hf q
    rw [← (hproc q hq).1] at hnow
    rw [← (hproc q hq).2] at houter hback
    exact ⟨hnow, houter, hback⟩

theorem setProc_ne {x : Proc} (q : Uproc) (h : q ≠ p) : (m.setProc p x).proc q = m.proc q :=
  Function.update_of_ne h _ _

@[simp] theorem setProc_self {x : Proc} : (m.setProc p x).proc p = x := Function.update_self _ _ _

theorem setProc_wait {x : Proc} :
    (fun q => ((m.setProc p x).proc q).wait) =
      Function.update (fun q => (m.proc q).wait) p x.wait := by
  funext q
  by_cases hq : q = p
  · subst hq
    simp
  · simp [setProc_ne q hq, Function.update_of_ne hq]

/-- The stages stay where the stage of `p` does. -/
theorem System.Fits.stay (hf : m.Fits st)
    (hproc : ∀ q, q ≠ p → (m'.proc q).now = (m.proc q).now ∧
      (m'.proc q).resume = (m.proc q).resume)
    (hgen : m'.mem.genState = m.mem.genState)
    (hp : Rocm.Fits p (m'.proc p) (st p) (m'.mem.genState p)) : m'.Fits st := by
  have := hf.update hproc (fun q _ => congrFun hgen q) hp
  rwa [Function.update_eq_self] at this

/-- `p` waits or stops. -/
theorem System.Fits.setWait (hf : m.Fits st) {mem : Mem} (w : Wait)
    (hgen : mem.genState = m.mem.genState := by rfl) :
    (({ m with mem := mem } : System).setWait p w).Fits st := by
  refine hf.stay (p := p) (fun q hq => ?_) hgen ?_
  · rw [System.setWait, setProc_ne (m := { m with mem := mem }) q hq]
    exact ⟨rfl, rfl⟩
  · rw [System.setWait, setProc_self]
    have := hf p
    rw [← congrFun hgen p] at this
    exact ⟨this.now, this.outer, this.back⟩

theorem genState_of_sup {mem mem' : Mem} (h : mem'.sup = mem.sup) :
    mem'.genState = mem.genState := by
  funext q
  rw [Mem.genState, Mem.genState, h]

/-- An exception of `p` is passed up to the pager. -/
theorem System.Fits.raise_pager (hf : m.Fits st) {s : ProcState} (hS : (st p).usesMemory) :
    (m.raise p PGFAULTEXCEPT s).Fits
      (Function.update st p ⟨(st p).gen, some .entry⟩) := by
  have htlb : (st p).tlb = none := by
    rcases hS with h | ⟨sup, sem, h⟩
    · rw [h]
      rfl
    · rw [h]
  have hgen : ∀ q, (m.raise p PGFAULTEXCEPT s).mem.genState q = m.mem.genState q := fun q =>
    Mem.setExceptState_of_ne m.mem s (.inr (by decide))
  refine hf.update (fun q hq => ?_) (fun q _ => hgen q) ?_
  · simp [System.raise, Function.update_of_ne hq]
  · rw [hgen p]
    have hnow := (hf p).now
    rw [htlb] at hnow
    refine ⟨⟨tlbExcHandler p, by simp [System.raise, System.handler], ?_⟩, fun _ => ?_, ?_⟩
    · refine follows_tlbExcHandler.mono ?_
      rintro _ _ ⟨sup, f, rfl⟩
      exact ⟨sup, f, rfl⟩
    · simpa [System.raise] using hnow
    · intro g hg
      have := (hf p).back g hg
      simpa [System.raise, PGFAULTEXCEPT, GENERALEXCEPT] using this

/-- An exception of `p` is passed up to the general handler. -/
theorem System.Fits.raise_general (hf : m.Fits st) {s : ProcState}
    (hs : (m.proc p).now = .user ∨ s.IsTerminate) :
    (m.raise p GENERALEXCEPT s).Fits (Function.update st p ⟨some .entry, none⟩) := by
  have hself : (m.raise p GENERALEXCEPT s).mem.genState p = s := Mem.setExceptState_self ..
  refine hf.update (fun q hq => ?_) (fun q hq => ?_) ?_
  · simp [System.raise, Function.update_of_ne hq]
  · exact Mem.setExceptState_of_ne m.mem s (.inl hq)
  · rw [hself]
    refine ⟨⟨supportExecHandler p, ?_, ?_⟩, nofun, ?_⟩
    · simp [System.raise, System.handler, PGFAULTEXCEPT, GENERALEXCEPT]
    · exact follows_supportExecHandler.mono fun _ _ => False.elim
    · rintro g hg
      obtain rfl := Option.some.inj hg
      rcases hs with hs | hs
      · exact .inl (by simp [System.raise, hs])
      · exact .inr hs

theorem raise_wait {k : Fin 2} {s : ProcState} (hw : (m.proc p).wait = .ready) :
    (fun q => ((m.raise p k s).proc q).wait) = fun q => (m.proc q).wait := by
  funext q
  by_cases hq : q = p
  · subst hq
    simp [System.raise, hw]
  · simp [System.raise, Function.update_of_ne hq]

/-- The step to `m'` is a move. -/
def System.Moves (m : System) (st : Uproc → Stage) (d : Did) (m' : System) : Prop :=
  ∃ st', m'.Fits st' ∧ Move (m.abs st) d (m'.abs st')

theorem System.Moves.of {st' : Uproc → Stage} {d : Did} {a : Abs} (hf : m'.Fits st')
    (ha : m'.abs st' = a) (hm : Move (m.abs st) d a) : m.Moves st d m' :=
  ⟨st', hf, ha ▸ hm⟩

theorem abs_raise {k : Fin 2} {s : ProcState} (hw : (m.proc p).wait = .ready)
    {st' : Uproc → Stage} : (m.raise p k s).abs st' =
      ⟨m.mem.setExceptState p k s, m.sem, fun q => (m.proc q).wait, st'⟩ := by
  rw [System.abs, raise_wait hw]
  rfl

theorem abs_setProc {mem : Mem} {x : Proc} {st' : Uproc → Stage} :
    (({ m with mem := mem } : System).setProc p x).abs st' =
      ⟨mem, m.sem, Function.update (fun q => (m.proc q).wait) p x.wait, st'⟩ := by
  rw [System.abs, setProc_wait]
  rfl

theorem abs_go {mem : Mem} {c : Cont} {st' : Uproc → Stage} :
    (({ m with mem := mem } : System).go p c).abs st' =
      ⟨mem, m.sem, fun q => (m.proc q).wait, st'⟩ := by
  rw [System.go, abs_setProc]
  congr 1
  exact Function.update_eq_self p fun q => (m.proc q).wait

/-- An address that is not translated, or whose entry does not permit its use. -/
theorem access_moves (hf : m.Fits st) (hw : (m.proc p).wait = .ready)
    (hS : (st p).usesMemory) (va exc : Word) (r : Refill) (s : ProcState)
    (ok : PteEntry → Did) :
    (∃ e, m.access p va exc r s = .inl e ∧ m.mem.translate (hiOf p va) = some e ∧ e.valid ∧
      m.used p va ok = ok e) ∨
    ∃ m', m.access p va exc r s = .inr m' ∧ m.Moves st (m.used p va ok) m' := by
  unfold System.access System.used
  cases ht : m.mem.translate (hiOf p va) with
  | some e =>
    by_cases hv : e.valid
    · exact .inl ⟨e, by simp [hv], rfl, hv, by simp [hv]⟩
    · refine .inr ⟨_, by simp [hv]; rfl, ?_⟩
      simp only [hv, Bool.false_eq_true, if_false]
      exact .of (hf.raise_pager hS) (abs_raise hw)
        (Move.fault hw hS ht (fun h => absurd h hv) rfl)
  | none =>
    exact .inr ⟨_, rfl, st, hf.stay (p := p) (fun _ _ => ⟨rfl, rfl⟩) rfl (hf p),
      Move.refill r hw hS ht⟩

/-- `p` goes on with code that follows the protocol from the next stage. -/
theorem System.Fits.go (hf : m.Fits st) (mem : Mem) {S : Stage} {c : Cont}
    (hgen : ∀ q, q ≠ p → mem.genState q = m.mem.genState q)
    (hp : Rocm.Fits p { m.proc p with now := c } S (mem.genState p)) :
    (({ m with mem := mem } : System).go p c).Fits (Function.update st p S) := by
  refine hf.update (fun q hq => ?_) hgen ?_
  · simp [System.go, setProc_ne (m := { m with mem := mem }) q hq]
  · rw [System.go, setProc_self]
    exact hp

/-- `p` goes on without a change of its stage. -/
theorem System.Fits.goSame (hf : m.Fits st) {c : Cont}
    (hp : Rocm.Fits p { m.proc p with now := c } (st p) (m.mem.genState p)) :
    (m.go p c).Fits st := by
  have h := hf.go m.mem (fun _ _ => rfl) hp
  rwa [Function.update_eq_self] at h

/-- The stage of `p` follows from what it executes. -/
theorem Fits.usesMemory_of_user {x : Proc} {S : Stage} {s : ProcState} (h : Rocm.Fits p x S s)
    (hu : x.now = .user) : S = .user := by
  obtain ⟨hnow, -, -⟩ := h
  split at hnow
  · obtain ⟨c, hc, -⟩ := hnow
    rw [hu] at hc
    cases hc
  · next htlb =>
    obtain ⟨gen, tlb⟩ := S
    have htlb' : tlb = none := by simpa using htlb
    subst htlb'
    cases gen with
    | none => rfl
    | some g =>
      obtain ⟨c, hc, -⟩ := hnow
      rw [hu] at hc
      cases hc

/-- Code of a handler follows the protocol, and its handler is the active one. -/
theorem Fits.follows {x : Proc} {S : Stage} {s : ProcState} (h : Rocm.Fits p x S s)
    {lvl : Level} {c : SM Unit} (hc : x.now = .code lvl c) :
    Follows (protocol p) (fun _ S => S.Returns) c S ∧ (S.tlb.isSome ↔ lvl = .pager) ∧
      (S.tlb = none → S.gen.isSome) := by
  obtain ⟨hnow, -, -⟩ := h
  split at hnow
  · next htlb =>
    obtain ⟨c', hc', hfol⟩ := hnow
    cases hc.symm.trans hc'
    exact ⟨hfol, by simp [htlb], fun h => by simp [h] at htlb⟩
  · next htlb =>
    obtain ⟨gen, tlb⟩ := S
    have htlb' : tlb = none := by simpa using htlb
    subst htlb'
    cases gen with
    | none =>
      have : x.now = .user := hnow
      rw [hc] at this
      cases this
    | some g =>
      obtain ⟨c', hc', hfol⟩ := hnow
      cases hc.symm.trans hc'
      exact ⟨hfol, by simp, fun _ => rfl⟩

/-- Whether the general handler runs for a SYS2 stays the same while it runs. -/
theorem GenStage.terminating_act {g : GenStage} {x : Act} (hg : g.allows p (.act x)) (mem : Mem)
    (ht : g.terminating (mem.genState p)) :
    (g.next (.act x) (x.run mem).1).terminating ((x.run mem).2.genState p) := by
  cases g.allows_act hg with
  | setExceptState s hn => exact absurd ht hn
  | _ => exact ht

omit [Umps] in
theorem GenStage.terminating_call {g : GenStage} {c : Call} (hg : g.allows p (.call c)) (r : c.Res)
    {s : ProcState} (ht : g.terminating s) : (g.next (.call c) r).terminating s := by
  cases g.allows_call hg <;> exact ht

/-- The process goes on after an answer, and the state saved for it tells the same. -/
theorem Fits.next {x : Proc} {S : Stage} {s : ProcState} (h : Rocm.Fits p x S s)
    (s' : ProcState) {lvl : Level}
    {c : Cmd} {k : c.Res → SM Unit} (hc : x.now = .code lvl (.cmd c k)) {r : c.Res}
    (hr : Cmd.answers c r)
    (hs : ∀ g, S = ⟨some g, none⟩ → g.allows p c → g.terminating s → (g.next c r).terminating s')
    (hs' : S.tlb.isSome → s' = s) :
    Rocm.Fits p { x with now := .code lvl (k r) } (S.next c r) s' := by
  obtain ⟨hfol, hlvl, hgen⟩ := h.follows hc
  have hnext := hfol.2 r hr
  obtain ⟨gen, tlb⟩ := S
  cases tlb with
  | some t =>
    obtain rfl : lvl = .pager := hlvl.mp rfl
    refine ⟨⟨k r, rfl, hnext⟩, fun _ => h.outer rfl, fun g hg => ?_⟩
    rw [hs' rfl]
    exact h.back g hg
  | none =>
    obtain ⟨g, rfl⟩ := Option.isSome_iff_exists.mp (hgen rfl)
    have hl : lvl = .general := by
      cases lvl with
      | general => rfl
      | pager => cases hlvl.mpr rfl
    subst hl
    refine ⟨⟨k r, rfl, hnext⟩, nofun, ?_⟩
    rintro g' hg'
    obtain rfl := Option.some.inj hg'
    rcases h.back g rfl with hu | ht
    · exact .inl hu
    · exact .inr (hs g rfl hfol.1 ht)

/-- An access of a handler. -/
theorem act_moves (hf : m.Fits st) (hw : (m.proc p).wait = .ready) {lvl : Level} {x : Act}
    {k : x.Res → SM Unit} (hnow : (m.proc p).now = .code lvl (.cmd (.act x) k)) :
    m.Moves st (.gave p (.act x))
      (({ m with mem := (x.run m.mem).2 } : System).go p (.code lvl (k (x.run m.mem).1))) := by
  have hfits := hf p
  obtain ⟨⟨hallow, -⟩, -, -⟩ := hfits.follows hnow
  have hset : ∀ q j s, x = .setExceptState q j s → q = p ∧ (st p).tlb = none := by
    rintro q j s rfl
    rcases Stage.allows_act hallow with ⟨t, -, ht⟩ | ⟨g, hS, hg⟩
    · cases ht
    · cases hg
      exact ⟨rfl, by rw [hS]⟩
  have hother : ∀ q, q ≠ p → (x.run m.mem).2.genState q = m.mem.genState q := fun q hq =>
    Act.run_exceptState m.mem x q _ fun s hs => hq (hset _ _ _ hs).1
  refine .of (hf.go _ hother (hfits.next _ hnow ?_ ?_ ?_)) abs_go (Move.act x hw hallow)
  · cases x with
    | support q => exact m.mem.sup_asid q
    | _ => trivial
  · intro g _ hg ht
    exact GenStage.terminating_act hg m.mem ht
  · intro htlb
    refine Act.run_exceptState m.mem x p _ fun s hs => ?_
    rw [(hset _ _ _ hs).2] at htlb
    cases htlb

/-- What a semaphore operation makes of the processes. -/
theorem semOp_proc (m : System) (p : Uproc) (s : Sem) (op : Semaphore.Op) (c : Cont) (q : Uproc) :
    (m.semOp p s op c).proc q =
      { now := if q = p then c else (m.proc q).now
        resume := (m.proc q).resume
        wait := (m.abs fun _ => .user).waitAfter p s op q } := by
  unfold System.semOp Abs.waitAfter System.abs
  dsimp only
  split
  · by_cases hq : q = p
    · subst hq
      simp
    · simp [hq]
  · cases (m.sem s).queue with
    | cons w ws =>
      dsimp only
      by_cases hw : q = w
      · subst hw
        by_cases hq : q = p
        · subst hq
          simp
        · simp [hq]
      · by_cases hq : q = p
        · subst hq
          simp [Function.update_of_ne hw]
        · simp [Function.update_of_ne hw, hq]
    | nil =>
      by_cases hq : q = p
      · subst hq
        simp
      · simp [hq]

/-- A semaphore operation of a handler. -/
theorem semOp_moves (hf : m.Fits st) {lvl : Level} {c : Call} {k : c.Res → SM Unit}
    (hnow : (m.proc p).now = .code lvl (.cmd (.call c) k)) (s : Sem) (op : Semaphore.Op)
    {r : c.Res} (hr : Cmd.answers (.call c) r) :
    ∃ st', (m.semOp p s op (.code lvl (k r))).Fits st' ∧
      (m.semOp p s op (.code lvl (k r))).abs st' =
        (m.abs st).semOp p s op ((st p).next (.call c) r) := by
  have hnext := (hf p).next (m.mem.genState p) hnow hr
    (fun g _ hg ht => GenStage.terminating_call hg r ht) (fun _ => rfl)
  refine ⟨_, hf.update (p := p) (S := (st p).next (.call c) r) (fun q hq => ?_)
    (fun _ _ => rfl) ?_, ?_⟩
  · rw [semOp_proc, if_neg hq]
    exact ⟨rfl, rfl⟩
  · rw [semOp_proc, if_pos rfl]
    exact ⟨hnext.now, hnext.outer, hnext.back⟩
  · rw [System.abs]
    simp only [semOp_proc]
    rfl

/-- `p` stores, or what happens instead. -/
theorem userStore_moves (hf : m.Fits st) (hw : (m.proc p).wait = .ready)
    (hS : (st p).usesMemory) (va : Word) (b : Byte) (r : Refill) (s : ProcState) {c : Cont}
    (hc : Rocm.Fits p { m.proc p with now := c } (st p) (m.mem.genState p)) :
    m.Moves st (m.storeDid p va b) (m.userStore p va b r s c) := by
  unfold System.userStore System.storeDid
  rcases access_moves hf hw hS va EXC_TLBS r s
    (fun e => if e.entryLO &&& ENTRYLO_DIRTY ≠ 0 then Did.stored p va b else .faulted p va) with
    ⟨e, hacc, ht, hv, hdid⟩ | ⟨m', hacc, hm⟩
  · rw [hacc, hdid]
    dsimp only
    split
    · have hf' := hf.go (m.setByte e va b).mem (fun _ _ => rfl) hc
      rw [Function.update_eq_self] at hf'
      exact .of hf' abs_go (Move.stored hw hS ht hv)
    · have hmod : CAUSE_GET_EXCCODE (EXC_MOD <<< CAUSESHIFT) = EXC_MOD := by decide
      exact .of (hf.raise_pager hS) (abs_raise hw) (Move.fault hw hS ht (fun _ => hmod) rfl)
  · rw [hacc]
    exact hm

/-- User memory is loaded and stored in the services. -/
theorem Stage.usesMemory_of_load {S : Stage} {va : Word} (h : S.allows p (.call (.load va))) :
    S.usesMemory := by
  rcases Stage.allows_call h with ⟨t, -, ht⟩ | ⟨g, rfl, hg⟩
  · cases ht
  · cases hg
    exact .inr ⟨_, _, rfl⟩

theorem Stage.usesMemory_of_store {S : Stage} {va : Word} {b : Byte}
    (h : S.allows p (.call (.store va b))) : S.usesMemory := by
  rcases Stage.allows_call h with ⟨t, -, ht⟩ | ⟨g, rfl, hg⟩
  · cases ht
  · cases hg
    exact .inr ⟨_, _, rfl⟩

/-- `p` goes on without a change of its stage. -/
theorem Fits.same {x : Proc} {S : Stage} {s : ProcState} (h : Rocm.Fits p x S s) {lvl : Level}
    {c : SM Unit} (hc : x.now = .code lvl c) {c' : SM Unit}
    (hfol : Follows (protocol p) (fun _ S => S.Returns) c' S) :
    Rocm.Fits p { x with now := .code lvl c' } S s := by
  obtain ⟨-, hlvl, hgen⟩ := h.follows hc
  obtain ⟨gen, tlb⟩ := S
  cases tlb with
  | some t =>
    obtain rfl : lvl = .pager := hlvl.mp rfl
    exact ⟨⟨c', rfl, hfol⟩, fun _ => h.outer rfl, h.back⟩
  | none =>
    obtain ⟨g, rfl⟩ := Option.isSome_iff_exists.mp (hgen rfl)
    have hl : lvl = .general := by
      cases lvl with
      | general => rfl
      | pager => cases hlvl.mpr rfl
    subst hl
    exact ⟨⟨c', rfl, hfol⟩, nofun, h.back⟩

/-- Every command of a handler is a move. -/
theorem exec_moves (hf : m.Fits st) (hw : (m.proc p).wait = .ready) {lvl : Level} {c : Cmd}
    {k : c.Res → SM Unit} (hnow : (m.proc p).now = .code lvl (.cmd c k)) {r : Refill}
    {s : ProcState} {now : Word} (h : m.exec p lvl r s now c k = some m') :
    m.Moves st (m.cmdDid p c) m' := by
  have hfits := hf p
  obtain ⟨⟨hallow, hk⟩, hlvl, -⟩ := hfits.follows hnow
  have hallow : (st p).allows p c := hallow
  cases c with
  | act x =>
    obtain rfl := Option.some.inj h
    exact act_moves hf hw hnow
  | call c =>
    have hstay : ∀ r : c.Res, (st p).next (.call c) r = st p →
        Rocm.Fits p { m.proc p with now := .code lvl (k r) } (st p) (m.mem.genState p) := by
      intro r hr
      have := hfits.next (m.mem.genState p) hnow (r := r) (by cases c <;> trivial)
        (fun g _ hg ht => GenStage.terminating_call hg r ht) fun _ => rfl
      rwa [hr] at this
    cases c with
    | passeren sem =>
      obtain rfl := Option.some.inj h
      obtain ⟨st', hf', he⟩ := semOp_moves hf hnow sem .passeren (r := ()) trivial
      exact ⟨st', hf', he ▸ Move.passeren (a := m.abs st) sem hw hallow⟩
    | verhogen sem =>
      obtain rfl := Option.some.inj h
      obtain ⟨st', hf', he⟩ := semOp_moves hf hnow sem .verhogen (r := ()) trivial
      exact ⟨st', hf', he ▸ Move.verhogen (a := m.abs st) sem hw hallow⟩
    | doio d v =>
      obtain rfl := Option.some.inj h
      exact .of (hf.setWait .io) abs_setProc (Move.issue d v hw hallow)
    | termProcess =>
      obtain rfl := Option.some.inj h
      exact .of (hf.setWait .dead) abs_setProc (Move.die hw hallow)
    | terminate =>
      obtain rfl := Option.some.inj h
      rcases Stage.allows_call hallow with ⟨t, -, ht⟩ | ⟨g, hS, hg⟩
      · cases ht
      · cases hg with
        | @terminate sup hn =>
          have hs : ((System.excState s EXC_SYS).setReg regA0 TERMINATE).IsTerminate :=
            ⟨show CAUSE_GET_EXCCODE (EXC_SYS <<< CAUSESHIFT) = EXC_SYS by decide,
              by simp [ProcState.setReg]⟩
          exact .of (hf.raise_general (.inr hs)) (abs_raise hw) (Move.again hw hS hn hs)
    | stck =>
      obtain rfl := Option.some.inj h
      rcases Stage.allows_call hallow with ⟨t, -, ht⟩ | ⟨g, hS, hg⟩
      · cases ht
      · cases hg with
        | stck =>
          have hnext : (st p).next (.call .stck) now = st p := by
            rw [hS]
            rfl
          exact .of (hf.goSame (hstay now hnext)) abs_go (Move.stck hw)
    | load va =>
      have hS := Stage.usesMemory_of_load hallow
      rw [System.exec] at h
      split at h
      · rcases access_moves hf hw hS va EXC_TLBL r s
          (fun e => Did.loaded p va (m.mem.ram (physAddr e va))) with
          ⟨e, hacc, ht, hv, hdid⟩ | ⟨m1, hacc, hm⟩
        · rw [hacc] at h
          obtain rfl := Option.some.inj h
          have hnext : (st p).next (.call (.load va)) (m.mem.ram (physAddr e va)) = st p := by
            rcases Stage.allows_call hallow with ⟨t, -, ht⟩ | ⟨g, hg, hc⟩
            · cases ht
            · cases hc
              rw [hg]
              rfl
          rw [show m.cmdDid p (.call (.load va)) = _ from hdid]
          exact .of (hf.goSame (hstay _ hnext)) abs_go (Move.loaded hw hS ht hv)
        · rw [hacc] at h
          obtain rfl := Option.some.inj h
          exact hm
      · cases h
    | store va b =>
      have hS := Stage.usesMemory_of_store hallow
      rw [System.exec] at h
      split at h
      · obtain rfl := Option.some.inj h
        have hnext : (st p).next (.call (.store va b)) () = st p := by
          rcases Stage.allows_call hallow with ⟨t, -, ht⟩ | ⟨g, hg, hc⟩
          · cases ht
          · cases hc
            rw [hg]
            rfl
        exact userStore_moves hf hw hS va b r s (hstay () hnext)
      · cases h
    | readLoop va i a =>
      obtain rfl := Option.some.inj h
      rcases Stage.allows_call hallow with ⟨t, -, ht⟩ | ⟨g, hg, hc⟩
      · cases ht
      · cases hc with
        | @readLoop sup va i =>
          refine .of (hf.goSame (hfits.same hnow ?_)) abs_go (Move.readLoop hw)
          rw [hg] at hallow hk ⊢
          refine (follows_readRound va i).bind fun x S hS => ?_
          subst hS
          cases x with
          | inl x => exact ⟨⟨rfl, rfl⟩, hk⟩
          | inr ret => exact hk ret trivial
    | ldst j =>
      obtain rfl := Option.some.inj h
      rcases Stage.allows_call hallow with ⟨t, ht, hc⟩ | ⟨g, hg, hc⟩
      · cases hc with
        | ldst =>
          have houter := hfits.outer (by rw [ht]; rfl)
          exact .of (hf.go m.mem (S := ⟨(st p).gen, none⟩) (fun _ _ => rfl)
            ⟨houter, (by simp), hfits.back⟩) abs_go (Move.resume hw ht)
      · cases hc with
        | ldst =>
          have hback : (m.proc p).resume GENERALEXCEPT = .user := by
            rcases hfits.back .returning (by rw [hg]) with h | h
            · exact h
            · exact False.elim h
          exact .of (hf.go m.mem (S := .user) (fun _ _ => rfl)
            ⟨hback, fun h => absurd h Bool.false_ne_true, fun _ h => by cases h⟩) abs_go
            (Move.finish hw hg)
    | panic => cases h
    | wild => cases h

/-- Every step of the system is a move. -/
theorem System.next_moves (hf : m.Fits st) {e : UserEvent} (h : m.next e = some m') :
    m.Moves st (m.did e) m' := by
  cases e with
  | user p pc i r s =>
    rw [System.next, Option.ite_none_right_eq_some] at h
    obtain ⟨⟨hw, hu, -⟩, h⟩ := h
    have hnow : (m.proc p).now = .user := by
      cases hn : (m.proc p).now with
      | user => rfl
      | code lvl c => rw [hn] at hu; cases hu
    have hS : st p = .user := (hf p).usesMemory_of_user hnow
    have hfit : Rocm.Fits p { m.proc p with now := .user } (st p) (m.mem.genState p) := by
      rw [← hnow]
      exact hf p
    rcases access_moves hf hw (.inl hS) pc EXC_TLBL r s (fun _ => m.instrDid p i) with
      ⟨e, hacc, ht, hv, hdid⟩ | ⟨m1, hacc, hm⟩
    · rw [hacc] at h
      rw [System.did, hdid]
      have htrap : ∀ s, m.Moves st (.trapped p) (m.raise p GENERALEXCEPT s) := fun s => by
        exact .of (hf.raise_general (.inl hnow)) (abs_raise hw) (Move.trap hw hS ht hv)
      cases i with
      | other =>
        obtain rfl := Option.some.inj h
        exact ⟨st, hf, .quiet⟩
      | load va =>
        change (if _ then _ else none) = some m' at h
        split at h
        · rcases access_moves hf hw (.inl hS) va EXC_TLBL r s
            (fun e => Did.loaded p va (m.mem.ram (physAddr e va))) with
            ⟨e, hacc, ht, hv, hdid⟩ | ⟨m1, hacc, hm⟩
          · rw [hacc] at h
            obtain rfl := Option.some.inj h
            rw [show m.instrDid p (.load va) = _ from hdid]
            exact ⟨st, hf, .loaded hw (.inl hS) ht hv⟩
          · rw [hacc] at h
            obtain rfl := Option.some.inj h
            exact hm
        · cases h
      | store va b =>
        change (if _ then _ else none) = some m' at h
        split at h
        · obtain rfl := Option.some.inj h
          exact userStore_moves hf hw (.inl hS) va b r s hfit
        · cases h
      | syscall =>
        obtain rfl := Option.some.inj h
        exact htrap _
      | trap exc =>
        change (if _ then _ else none) = some m' at h
        split at h
        · obtain rfl := Option.some.inj h
          exact htrap _
        · cases h
    · rw [hacc] at h
      obtain rfl := Option.some.inj h
      exact hm
  | step p r s now =>
    rw [System.next, Option.ite_none_right_eq_some] at h
    obtain ⟨hw, h⟩ := h
    split at h
    · next lvl c k hnow =>
      rw [show m.did (.step p r s now) = m.cmdDid p c by simp only [System.did, hnow]]
      exact exec_moves hf hw hnow h
    · cases h
  | complete p status =>
    rw [System.next, Option.ite_none_right_eq_some] at h
    obtain ⟨hw, h⟩ := h
    split at h
    · next lvl c hnow =>
      unfold System.finish at h
      split at h
      · next d v k =>
        obtain rfl := Option.some.inj h
        rw [show m.did (.complete p status) = .ended p d v status by simp only [System.did, hnow]]
        have hfits := hf p
        obtain ⟨⟨hallow, -⟩, -, -⟩ := hfits.follows hnow
        have hgen : (m.mem.complete d status).genState = m.mem.genState :=
          genState_of_sup (m.mem.complete_sup d status)
        have hnext := hfits.next ((m.mem.complete d status).genState p) hnow (r := status) trivial
          (fun g _ hg ht => by
            rw [hgen]
            exact GenStage.terminating_call hg status ht) (fun _ => by rw [hgen])
        refine .of (hf.update (p := p) (S := (st p).next (.call (.doio d v)) status)
          (fun q hq => ?_) (fun q _ => congrFun hgen q) ?_) abs_setProc
          (Move.ended status hw hallow)
        · rw [setProc_ne (m := { m with mem := _ }) q hq]
          exact ⟨rfl, rfl⟩
        · rw [setProc_self]
          exact ⟨hnext.now, hnext.outer, hnext.back⟩
      · cases h
    · cases h

theorem System.start_fits (mem : Mem) : (System.start mem).Fits fun _ => .user :=
  fun _ => ⟨rfl, nofun, nofun⟩

/-- An invariant of the abstract system along a run of the system. -/
theorem run_invariant {ok : System → UserEvent → Prop} {I : Abs → Prop} {mem : Mem}
    {tr : List (System × UserEvent × System)} (h : Run (UserStep ok) (.start mem) tr m)
    (h0 : I (.start mem))
    (hs : ∀ (m : System) e (m' : System) st st', ok m e → m.Fits st →
      Move (m.abs st) (m.did e) (m'.abs st') → I (m.abs st) → I (m'.abs st')) :
    (∃ st, m.Fits st ∧ I (m.abs st)) ∧
    ∀ x ∈ tr, ∃ st st', x.1.Fits st ∧ I (x.1.abs st) ∧
      Move (x.1.abs st) (x.1.did x.2.1) (x.2.2.abs st') ∧ x.2.2.Fits st' ∧ I (x.2.2.abs st') := by
  have h1 : ∀ {a e b}, (∃ st, a.Fits st ∧ I (a.abs st)) → UserStep ok a e b →
      ∃ st st', a.Fits st ∧ I (a.abs st) ∧ Move (a.abs st) (a.did e) (b.abs st') ∧ b.Fits st' ∧
        I (b.abs st') := by
    rintro a e b ⟨st, hf, hI⟩ ⟨hn, hok⟩
    obtain ⟨st', hf', hm⟩ := System.next_moves hf hn
    exact ⟨st, st', hf, hI, hm, hf', hs _ _ _ _ _ hok hf hm hI⟩
  have h2 : ∀ {a e b}, (∃ st, a.Fits st ∧ I (a.abs st)) → UserStep ok a e b →
      ∃ st, b.Fits st ∧ I (b.abs st) := by
    intro a e b ha hstep
    obtain ⟨_, st', -, -, -, hf', hI'⟩ := h1 ha hstep
    exact ⟨st', hf', hI'⟩
  have hstart : ∃ st, (System.start mem).Fits st ∧ I ((System.start mem).abs st) :=
    ⟨_, System.start_fits mem, h0⟩
  refine ⟨h.invariant hstart h2, fun x hx => ?_⟩
  obtain ⟨ha, hstep, -⟩ := h.invariant_steps hstart h2 x hx
  exact h1 ha hstep

/-- The same for an invariant that also speaks of the steps before. -/
theorem run_invariant_past {ok : System → UserEvent → Prop}
    {I : List (System × UserEvent × System) → Abs → Prop} {mem : Mem}
    {tr : List (System × UserEvent × System)} (h : Run (UserStep ok) (.start mem) tr m)
    (h0 : I [] (.start mem))
    (hs : ∀ tr (m : System) e (m' : System) st st', ok m e → m.Fits st →
      Move (m.abs st) (m.did e) (m'.abs st') → I tr (m.abs st) →
      I (tr ++ [(m, e, m')]) (m'.abs st')) :
    ∃ st, m.Fits st ∧ I tr (m.abs st) := by
  induction h with
  | nil => exact ⟨_, System.start_fits mem, h0⟩
  | @snoc tr m e m' _ hstep ih =>
    obtain ⟨st, hf, hI⟩ := ih
    obtain ⟨st', hf', hm⟩ := System.next_moves hf hstep.1
    exact ⟨st', hf', hs tr m e m' st st' hstep.2 hf hm hI⟩

end Rocm
