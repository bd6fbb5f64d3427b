import Rocm.Properties.SupportSample
import Rocm.Refine.Support

/-!
# The return of a support syscall

The state that `support_syscall_handler` loads, for every run. What a service returns is read off
the run: the code of the service is followed through the answers that it gets.
-/

namespace Rocm

open Threads Runs

variable [Umps]

/-! ## Following a piece of code -/

/-- The answer to a command of `p` at an event, if it comes at that event. -/
def System.answer (m : System) (e : UserEvent) (p : Uproc) : (c : Cmd) → Option c.Res
  | .act a => some (a.run m.mem).1
  | .call (.passeren _) => some ()
  | .call (.verhogen _) => some ()
  | .call (.doio _ _) =>
    match e with
    | .complete _ status => some status
    | _ => none
  | .call .stck =>
    match e with
    | .step _ _ _ now => some now
    | _ => none
  | .call (.load va) =>
    match m.mem.translate (hiOf p va) with
    | some x => if x.valid then some (m.mem.ram (physAddr x va)) else none
    | none => none
  | .call (.store va _) =>
    match m.mem.translate (hiOf p va) with
    | some x => if x.valid ∧ x.entryLO &&& ENTRYLO_DIRTY ≠ 0 then some () else none
    | none => none
  | .call _ => none

/-- What is left of a piece of code of `p` after an event. -/
def System.follow {α : Type} (m : System) (e : UserEvent) (p : Uproc) : SM α → SM α
  | .ret a => .ret a
  | .cmd (.call (.readLoop virtAddr i asid)) k =>
    readRound virtAddr i asid >>= fun
      | .inl x => .cmd (.call (.readLoop x.1 x.2 asid)) k
      | .inr ret => k ret
  | .cmd c k =>
    match m.answer e p c with
    | some r => k r
    | none => .cmd c k

theorem follow_cmd {α : Type} {m : System} {e : UserEvent} {p : Uproc} {c : Cmd} {k : c.Res → SM α}
    (hc : ∀ v i a, c ≠ .call (.readLoop v i a)) :
    m.follow e p (.cmd c k) = match m.answer e p c with
      | some r => k r
      | none => .cmd c k := by
  cases c with
  | act a => rfl
  | call c =>
    cases c with
    | readLoop v i a => exact absurd rfl (hc v i a)
    | _ => simp only [System.follow]

/-- What follows a piece of code is not touched before its end. -/
theorem follow_bind {α β : Type} {m : System} {e : UserEvent} {p : Uproc} {c : Cmd}
    {k : c.Res → SM α} {f : α → SM β} :
    m.follow e p (.cmd c k >>= f) = m.follow e p (.cmd c k) >>= f := by
  rw [Code.cmd_bind]
  by_cases hc : ∀ v i a, c ≠ .call (.readLoop v i a)
  · rw [follow_cmd hc, follow_cmd hc]
    split <;> rfl
  · push Not at hc
    obtain ⟨v, i, a, rfl⟩ := hc
    simp only [System.follow, Code.bind_assoc]
    congr 1
    funext x
    cases x <;> rfl

/-! ## What a run tells of the services of a process -/

/-- The state saved at the last exception of a process that is not a page fault, what is left of the
    service since its support structure was read, and the last reading of the clock. -/
structure Service where
  saved : ProcState
  rest : Option (SM Word)
  clock : Word

/-- The general handler of `p` has got an answer. -/
def Service.advance (g : Service) (p : Uproc) (m : System) (e : UserEvent) : Service where
  saved := g.saved
  rest := match g.rest with
    | none => some (service (m.mem.sup p))
    | some c => some (m.follow e p c)
  clock := match m.did e, e with
    | .gave _ (.call .stck), .step _ _ _ now => now
    | _, _ => g.clock

/-- An exception that is not a page fault has been passed up. -/
def Did.passesUp : Did → Bool
  | .trapped _ => true
  | .gave _ (.call .terminate) => true
  | _ => false

/-- The process has used the TLB in vain. -/
def Did.misses : Did → Bool
  | .missed _ _ => true
  | .faulted _ _ => true
  | _ => false

/-- A step of the system. -/
def Service.step (p : Uproc) (g : Service) (x : System × UserEvent × System) : Service :=
  if (x.1.did x.2.1).actor = some p then
    if (x.1.did x.2.1).passesUp then { g with saved := x.2.2.mem.genState p, rest := none }
    else if (x.1.proc p).now.isGeneral ∧ ¬ (x.1.did x.2.1).misses then g.advance p x.1 x.2.1
    else g
  else g

/-- The commands of a service: they neither load a state nor store one. -/
def Cmd.ofService : Cmd → Prop
  | .act (.setExceptState _ _ _) => False
  | .call (.ldst _) => False
  | _ => True

def serviceProtocol : Protocol Cmd Cmd.Res Unit where
  allows _ c := c.ofService
  answers _ _ := True
  next _ _ _ := ()

/-- The code of a service. -/
abbrev OfService {α : Type} (c : SM α) : Prop := Follows serviceProtocol (fun _ _ => True) c ()

omit [Umps] in
theorem OfService.bind {α β : Type} {c : SM α} {f : α → SM β} (hc : OfService c)
    (hf : ∀ a, OfService (f a)) : OfService (c >>= f) :=
  Follows.bind hc fun a _ _ => hf a

omit [Umps] in
theorem ofService_devSem (type : Nat) (no : Word) : OfService (devSem type no) := by
  unfold devSem
  split
  · exact ⟨trivial, fun r => r.elim⟩
  split
  · split
    · trivial
    · exact ⟨trivial, fun r => r.elim⟩
  · exact ⟨trivial, fun r => r.elim⟩

omit [Umps] in
theorem ofService_pOnDev (type : Nat) (no : Word) : OfService (pOnDev type no) :=
  (ofService_devSem type no).bind fun _ => ⟨trivial, fun _ _ => trivial⟩

omit [Umps] in
theorem ofService_vOnDev (type : Nat) (no : Word) : OfService (vOnDev type no) :=
  (ofService_devSem type no).bind fun _ => ⟨trivial, fun _ _ => trivial⟩

omit [Umps] in
theorem ofService_ite {α : Type} {P : Prop} [Decidable P] {c c' : SM α} (hc : OfService c)
    (hc' : OfService c') : OfService (if P then c else c') := by
  split
  · exact hc
  · exact hc'

omit [Umps] in
theorem ofService_loop (w : Writer) (va asid : Word) (n : Nat) :
    ∀ i, OfService (w.loop va asid i n) := by
  induction n with
  | zero => exact fun i => (ofService_vOnDev _ _).bind fun _ => trivial
  | succ n ih =>
    intro i
    rw [Writer.loop]
    refine ⟨trivial, fun c _ => ?_⟩
    have hstop : OfService (do
        vOnDev w.sems (asid - 1)
        return BitVec.ofNat 32 i) := (ofService_vOnDev _ _).bind fun _ => trivial
    have hfail : OfService (do
        vOnDev w.sems (asid - 1)
        return - (← act (.status (w.dev (devNo asid))))) :=
      (ofService_vOnDev _ _).bind fun _ => ⟨trivial, fun _ _ => trivial⟩
    have hrest : OfService (do
        let c' ← call (.load (va + BitVec.ofNat 32 i))
        if c' = 0 then
          vOnDev w.sems (asid - 1)
          return BitVec.ofNat 32 i
        else
          let status ← call (.doio (w.dev (devNo asid)) (w.cmdval (charVal c)))
          if w.ok status then w.loop va asid (i + 1) n
          else
            vOnDev w.sems (asid - 1)
            return - (← act (.status (w.dev (devNo asid))))) :=
      ⟨trivial, fun _ _ => ofService_ite hstop
        ⟨trivial, fun _ _ => ofService_ite (ih (i + 1)) hfail⟩⟩
    exact ofService_ite ⟨trivial, fun _ _ => hrest⟩ hrest

omit [Umps] in
theorem ofService_exit {α : Type} {c : Call} (h : c.Res = Empty) (hc : Cmd.ofService (.call c)) :
    OfService (exit (α := α) c h) := ⟨hc, fun r _ => (cast h r : Empty).elim⟩

omit [Umps] in
theorem ofService_write (w : Writer) (va len asid : Word) : OfService (w.write va len asid) := by
  rw [Writer.write]
  exact ofService_ite (ofService_exit rfl trivial)
    ((ofService_pOnDev _ _).bind fun _ => ofService_loop w va asid _ 0)

omit [Umps] in
theorem ofService_readRound (va i asid : Word) : OfService (readRound va i asid) := by
  rw [readRound]
  refine ⟨trivial, fun status _ => ofService_ite ((ofService_vOnDev _ _).bind fun _ => trivial) ?_⟩
  exact ⟨trivial, fun _ _ => ofService_ite trivial ((ofService_vOnDev _ _).bind fun _ => trivial)⟩

omit [Umps] in
theorem ofService_cleanFrames (asid : Word) : OfService (cleanFrames asid) := by
  rw [cleanFrames]
  exact ofService_ite (ofService_exit rfl trivial) ⟨trivial, fun _ _ => ⟨trivial, fun _ _ => trivial⟩⟩

omit [Umps] in
theorem ofService_service (sup : SupportT) : OfService (service sup) := by
  rw [service]
  refine ofService_ite ⟨trivial, fun _ _ => trivial⟩ (ofService_ite ?_ (ofService_ite
    (ofService_write ..) (ofService_ite (ofService_write ..) (ofService_ite ?_
      (ofService_exit rfl trivial)))))
  · exact (ofService_cleanFrames _).bind fun _ => ofService_exit rfl trivial
  · rw [readFromTerminal]
    exact ofService_ite (ofService_exit rfl trivial)
      ((ofService_pOnDev _ _).bind fun _ => ⟨trivial, fun _ _ => trivial⟩)

/-- What is left of a service after an event is code of a service. -/
theorem OfService.follow {m : System} {e : UserEvent} {p : Uproc} {c : SM Word} (h : OfService c) :
    OfService (m.follow e p c) := by
  cases c with
  | ret a => trivial
  | cmd c k =>
    cases c with
    | act a => exact h.2 _ trivial
    | call c =>
      cases c with
      | readLoop v i a =>
        refine (ofService_readRound v i a).bind fun x => ?_
        cases x with
        | inl x => exact ⟨trivial, h.2⟩
        | inr ret => exact h.2 ret trivial
      | _ =>
        rw [follow_cmd fun _ _ _ h => by cases h]
        split
        · exact h.2 _ trivial
        · exact h

/-! ## The general handler in a run -/

/-- What follows the service (`sys_support.c:256-267`). -/
def finish (p : Uproc) (ret : Word) : SM Unit := do
  let sup' ← act (.support p)
  act (.setExceptState p 1 (returnState ret (sup'.supExceptState GENERALEXCEPT)))
  exit (.ldst 1) Call.ldst_one_res

omit [Umps] in
theorem supportSyscallHandler_eq (p : Uproc) (sup : SupportT) :
    supportSyscallHandler p sup = service sup >>= finish p := rfl

/-- The value that GETTOD returns is the last reading of the clock. -/
def Service.Timed (g : Service) (c : SM Word) : Prop :=
  g.saved.gpr regA0 = GETTOD → c = call .stck ∨ c = .ret g.clock

/-- How far the general handler of `p` has got, where `s` is the state saved for it. -/
inductive Handling (p : Uproc) (g : Service) (s : ProcState) : SM Unit → Prop where
  | entry : g.rest = none → s = g.saved → Handling p g s (supportExecHandler p)
  | killed : Handling p g s safeKill
  | serving {c : SM Word} : g.rest = some c → s = g.saved → OfService c → g.Timed c →
      Handling p g s (c >>= finish p)
  | storing {v : Word} : g.rest = some (.ret v) → s = g.saved → g.Timed (.ret v) →
      Handling p g s (do act (.setExceptState p 1 (returnState v s)); exit (.ldst 1) Call.ldst_one_res)
  | returning {v : Word} : g.rest = some (.ret v) → s = returnState v g.saved → g.Timed (.ret v) →
      Handling p g s (exit (.ldst 1) Call.ldst_one_res)

/-- The code of the general handler, also while the pager has interrupted it. -/
def Proc.general (x : Proc) : Option (SM Unit) :=
  match x.now with
  | .user => none
  | .code .general c => some c
  | .code .pager _ =>
    match x.resume PGFAULTEXCEPT with
    | .code .general c => some c
    | _ => none

/-- The general handler of `p`, if it is active, has got as far as the run tells. -/
def System.Handles (m : System) (p : Uproc) (g : Service) : Prop :=
  ∀ c, (m.proc p).general = some c → Handling p g (m.mem.genState p) c

section Frames

variable {m m' : System} {p q : Uproc} {st : Uproc → Stage} {e : UserEvent}

/-- The code of `q` stays. -/
def SameCode (m m' : System) (q : Uproc) : Prop :=
  (m'.proc q).now = (m.proc q).now ∧ (m'.proc q).resume = (m.proc q).resume

theorem sameCode_setProc {mem : Mem} {x : Proc} (h : q ≠ p) :
    SameCode m (({ m with mem := mem } : System).setProc p x) q := by
  simp [SameCode, System.setProc, Function.update_of_ne h]

theorem sameCode_raise {k : Fin 2} {s : ProcState} (h : q ≠ p) :
    SameCode m (m.raise p k s) q := by
  simp [SameCode, System.raise, Function.update_of_ne h]

theorem sameCode_semOp {s : Sem} {op : Semaphore.Op} {c : Cont} (h : q ≠ p) :
    SameCode m (m.semOp p s op c) q := by
  simp [SameCode, semOp_proc, h]

theorem sameCode_access {va exc : Word} {r : Refill} {s : ProcState} (h : q ≠ p)
    (ha : m.access p va exc r s = .inr m') : SameCode m m' q := by
  unfold System.access at ha
  split at ha
  · split at ha
    · cases ha
    · cases ha
      exact sameCode_raise h
  · cases ha
    exact ⟨rfl, rfl⟩

theorem sameCode_userStore {va : Word} {b : Byte} {r : Refill} {s : ProcState} {c : Cont}
    (h : q ≠ p) : SameCode m (m.userStore p va b r s c) q := by
  unfold System.userStore
  split
  · split
    · exact sameCode_setProc h
    · exact sameCode_raise h
  · next ha => exact sameCode_access h ha

theorem sameCode_exec {lvl : Level} {r : Refill} {s : ProcState} {now : Word} {c : Cmd}
    {k : c.Res → SM Unit} (h : q ≠ p) (he : m.exec p lvl r s now c k = some m') :
    SameCode m m' q := by
  cases c with
  | act x =>
    obtain rfl := Option.some.inj he
    exact sameCode_setProc h
  | call c =>
    cases c with
    | passeren sem => obtain rfl := Option.some.inj he; exact sameCode_semOp h
    | verhogen sem => obtain rfl := Option.some.inj he; exact sameCode_semOp h
    | doio d v => obtain rfl := Option.some.inj he; exact sameCode_setProc h
    | termProcess => obtain rfl := Option.some.inj he; exact sameCode_setProc h
    | terminate => obtain rfl := Option.some.inj he; exact sameCode_raise h
    | stck => obtain rfl := Option.some.inj he; exact sameCode_setProc h
    | load va =>
      rw [System.exec] at he
      split at he
      · split at he
        · obtain rfl := Option.some.inj he; exact sameCode_setProc h
        · next ha => obtain rfl := Option.some.inj he; exact sameCode_access h ha
      · cases he
    | store va b =>
      rw [System.exec, Option.ite_none_right_eq_some] at he
      obtain rfl := Option.some.inj he.2
      exact sameCode_userStore h
    | readLoop v i a => obtain rfl := Option.some.inj he; exact sameCode_setProc h
    | ldst k => obtain rfl := Option.some.inj he; exact sameCode_setProc h
    | panic => cases he
    | wild => cases he

/-- An event changes what its process goes on with, and no other. -/
theorem next_sameCode (h : m.next e = some m') (hq : q ≠ e.actor) : SameCode m m' q := by
  cases e with
  | user p pc i r s =>
    rw [System.next, Option.ite_none_right_eq_some] at h
    replace h := h.2
    split at h
    · cases i with
      | other => obtain rfl := Option.some.inj h; exact ⟨rfl, rfl⟩
      | load va =>
        change (if _ then _ else none) = some m' at h
        split at h
        · split at h
          · obtain rfl := Option.some.inj h; exact ⟨rfl, rfl⟩
          · next ha => obtain rfl := Option.some.inj h; exact sameCode_access hq ha
        · cases h
      | store va b =>
        change (if _ then _ else none) = some m' at h
        split at h
        · obtain rfl := Option.some.inj h
          exact sameCode_userStore hq
        · cases h
      | syscall => obtain rfl := Option.some.inj h; exact sameCode_raise hq
      | trap exc =>
        change (if _ then _ else none) = some m' at h
        split at h
        · obtain rfl := Option.some.inj h; exact sameCode_raise hq
        · cases h
    · next ha => obtain rfl := Option.some.inj h; exact sameCode_access hq ha
  | step p r s now =>
    rw [System.next, Option.ite_none_right_eq_some] at h
    replace h := h.2
    split at h
    · exact sameCode_exec hq h
    · cases h
  | complete p status =>
    rw [System.next, Option.ite_none_right_eq_some] at h
    replace h := h.2
    split at h
    · unfold System.finish at h
      split at h
      · obtain rfl := Option.some.inj h
        exact sameCode_setProc hq
      · cases h
    · cases h

theorem did_actor (m : System) (e : UserEvent) :
    (m.did e).actor = none ∨ (m.did e).actor = some e.actor := by
  cases e with
  | user p pc i r s =>
    refine System.used_of (P := fun d => d.actor = none ∨ d.actor = some p) (fun e => ?_)
      (.inr rfl) (.inr rfl)
    cases i with
    | other => exact .inl rfl
    | load va => exact .inr (used_actor fun _ => rfl)
    | store va b => exact .inr (storeDid_actor va b)
    | syscall => exact .inr rfl
    | trap exc => exact .inr rfl
  | step p r s now =>
    simp only [System.did]
    split
    · next lvl c k _ => exact .inr (cmdDid_actor m p c)
    · exact .inl rfl
  | complete p status =>
    simp only [System.did]
    split
    · exact .inr rfl
    · exact .inl rfl

/-- The state saved for the general handler changes when an exception is passed up and when the
    handler stores to it. -/
theorem Move.genState {a a' : Abs} {d : Did} (h : Move a d a')
    (hd : d.actor = some q → d.passesUp = false ∧ ∀ k s, d ≠ .gave q (.act (.setExceptState q k s))) :
    a'.mem.genState q = a.mem.genState q := by
  cases h with
  | refill => exact congrFun (genState_of_sup Mem.uTlbRefill_sup) q
  | fault => exact Mem.setExceptState_of_ne _ _ (.inr (by decide))
  | @trap p pc e s =>
    refine Mem.setExceptState_of_ne _ _ (.inl fun hq => ?_)
    exact absurd (hd (by rw [hq]; rfl)).1 (by simp [Did.passesUp])
  | @again p sup s =>
    refine Mem.setExceptState_of_ne _ _ (.inl fun hq => ?_)
    exact absurd (hd (by rw [hq]; rfl)).1 (by simp [Did.passesUp])
  | @act p x _ hx =>
    refine Act.run_exceptState _ x q _ fun s hs => ?_
    subst hs
    rcases Stage.allows_act hx with ⟨t, -, ht⟩ | ⟨g, -, hg⟩
    · cases ht
    · cases hg
      exact (hd rfl).2 _ _ rfl
  | ended => exact congrFun (genState_of_sup (Mem.complete_sup ..)) q
  | _ => rfl

end Frames

section Own

variable {m m' : System} {p : Uproc} {st : Uproc → Stage} {g : Service}

/-- The process is not in the pager. -/
def Cont.isPager : Cont → Bool
  | .code .pager _ => true
  | _ => false

theorem general_raise (hx : (m.proc p).now.isPager = false) {s : ProcState} :
    ((m.raise p PGFAULTEXCEPT s).proc p).general = (m.proc p).general := by
  unfold Proc.general
  simp only [System.raise, Function.update_self, System.handler, if_true]
  cases hn : (m.proc p).now with
  | user => rfl
  | code lvl c =>
    cases lvl with
    | general => rfl
    | pager => rw [hn] at hx; cases hx

theorem general_setProc {mem : Mem} {x : Proc} :
    ((({ m with mem := mem } : System).setProc p x).proc p).general = x.general := by
  simp [System.setProc]

/-- An address is translated, or its use misses and the code of the general handler stays. -/
theorem access_cases (hx : (m.proc p).now.isPager = false) (va exc : Word) (r : Refill)
    (s : ProcState) :
    (∃ e, m.mem.translate (hiOf p va) = some e ∧ e.valid ∧ m.access p va exc r s = .inl e) ∨
    ∃ m1, m.access p va exc r s = .inr m1 ∧ (m1.proc p).general = (m.proc p).general ∧
      ∀ ok, (m.used p va ok).misses := by
  unfold System.access System.used
  cases ht : m.mem.translate (hiOf p va) with
  | some e =>
    by_cases hv : e.valid
    · exact .inl ⟨e, rfl, hv, by simp [hv]⟩
    · refine .inr ⟨_, by simp only [hv]; rfl, general_raise hx, fun ok => ?_⟩
      simp [hv, Did.misses]
  | none => exact .inr ⟨_, rfl, rfl, fun _ => rfl⟩

/-- A store goes on with `c`, or it misses and the code stays. -/
theorem userStore_cases (hx : (m.proc p).now.isPager = false) (va : Word) (b : Byte) (r : Refill)
    (s : ProcState) (c : Cont) :
    (∃ e, m.mem.translate (hiOf p va) = some e ∧ e.valid ∧ e.entryLO &&& ENTRYLO_DIRTY ≠ 0 ∧
      m.userStore p va b r s c = (m.setByte e va b).go p c ∧ (m.storeDid p va b).misses = false) ∨
    (((m.userStore p va b r s c).proc p).general = (m.proc p).general ∧
      (m.storeDid p va b).misses) := by
  unfold System.userStore System.storeDid
  rcases access_cases hx va EXC_TLBS r s with ⟨e, ht, hv, ha⟩ | ⟨m1, ha, hgen, hmiss⟩
  · rw [ha]
    by_cases hd : e.entryLO &&& ENTRYLO_DIRTY ≠ 0
    · refine .inl ⟨e, ht, hv, hd, if_pos hd, ?_⟩
      simp only [System.used, ht, hv, if_true, if_pos hd]
      rfl
    · refine .inr ⟨?_, ?_⟩
      · simp only [if_neg hd]
        exact general_raise hx
      · simp only [System.used, ht, hv, if_true, if_neg hd]
        rfl
  · rw [ha]
    exact .inr ⟨hgen, hmiss _⟩

omit [Umps] in
theorem passesUp_of_misses {d : Did} (h : d.misses) : d.passesUp = false := by
  cases d <;> first | rfl | cases h

/-- An instruction of the user program leaves it to go on, or to the handler of its exception. -/
theorem user_general {pc : Word} {i : Instr} {r : Refill} {s : ProcState}
    (h : m.next (.user p pc i r s) = some m') :
    (m'.proc p).general = none ∧ (m.did (.user p pc i r s)).passesUp = false ∨
      (m'.proc p).general = some (supportExecHandler p) ∧
        m.did (.user p pc i r s) = .trapped p := by
  rw [System.next, Option.ite_none_right_eq_some] at h
  obtain ⟨⟨-, hu, -⟩, h⟩ := h
  have hnow : (m.proc p).now = .user := by
    cases hn : (m.proc p).now with
    | user => rfl
    | code lvl c => rw [hn] at hu; cases hu
  have hx : (m.proc p).now.isPager = false := by rw [hnow]; rfl
  have hgen : (m.proc p).general = none := by rw [Proc.general, hnow]
  rcases access_cases hx pc EXC_TLBL r s with ⟨e, ht, hv, ha⟩ | ⟨m1, ha, hg, hd⟩
  · have hdid : m.did (.user p pc i r s) = m.instrDid p i := by
      simp only [System.did, System.used, ht, hv, if_true]
    rw [ha] at h
    rw [hdid]
    cases i with
    | other => obtain rfl := Option.some.inj h; exact .inl ⟨hgen, rfl⟩
    | load va =>
      change (if _ then _ else none) = some m' at h
      rw [Option.ite_none_right_eq_some] at h
      rcases access_cases hx va EXC_TLBL r s with ⟨e', ht', hv', ha'⟩ | ⟨m1, ha', hg', hd'⟩
      · rw [ha'] at h
        obtain rfl := Option.some.inj h.2
        refine .inl ⟨hgen, ?_⟩
        simp only [System.instrDid, System.loadDid, System.used, ht', hv', if_true]
        rfl
      · rw [ha'] at h
        obtain rfl := Option.some.inj h.2
        exact .inl ⟨hg'.trans hgen, passesUp_of_misses (hd' _)⟩
    | store va b =>
      change (if _ then _ else none) = some m' at h
      rw [Option.ite_none_right_eq_some] at h
      obtain rfl := Option.some.inj h.2
      rcases userStore_cases hx va b r s .user with ⟨e', ht', hv', hdirty, he', -⟩ | ⟨hg', hd'⟩
      · refine .inl ⟨by rw [he']; exact general_setProc, ?_⟩
        simp only [System.instrDid, System.storeDid, System.used, ht', hv', if_true, if_pos hdirty]
        rfl
      · exact .inl ⟨hg'.trans hgen, passesUp_of_misses hd'⟩
    | syscall =>
      obtain rfl := Option.some.inj h
      exact .inr ⟨by simp [Proc.general, System.raise, System.handler, PGFAULTEXCEPT, GENERALEXCEPT], rfl⟩
    | trap exc =>
      change (if _ then _ else none) = some m' at h
      rw [Option.ite_none_right_eq_some] at h
      obtain rfl := Option.some.inj h.2
      exact .inr ⟨by simp [Proc.general, System.raise, System.handler, PGFAULTEXCEPT, GENERALEXCEPT], rfl⟩
  · rw [ha] at h
    obtain rfl := Option.some.inj h
    exact .inl ⟨hg.trans hgen, passesUp_of_misses (hd _)⟩

/-- A command of the pager leaves the code of the general handler. -/
theorem pager_general {S : Stage} {c : Cmd} {k : c.Res → SM Unit} {r : Refill} {s : ProcState}
    {now : Word} {t : TlbStage} (hnow : (m.proc p).now = .code .pager (.cmd c k))
    (ht : S.tlb = some t) (hS : S.allows p c)
    (h : m.exec p .pager r s now c k = some m') :
    (m'.proc p).general = (m.proc p).general ∧ (m.cmdDid p c).passesUp = false := by
  have hkeep : ∀ {y : Proc} (c' : SM Unit), y.now = .code .pager c' →
      y.resume = (m.proc p).resume → y.general = (m.proc p).general := fun _ hy hr => by
    rw [Proc.general, Proc.general, hy, hnow, hr]
  cases c with
  | act x =>
    obtain rfl := Option.some.inj h
    exact ⟨general_setProc.trans (hkeep _ rfl rfl), rfl⟩
  | call c =>
    have hsem : ∀ (x : Sem) (op : Semaphore.Op) (c' : SM Unit),
        ((m.semOp p x op (.code .pager c')).proc p).general = (m.proc p).general := fun x op c' =>
      hkeep c' (by rw [semOp_proc, if_pos rfl]) (by rw [semOp_proc])
    have hwait : ∀ (mem : Mem) (w : Wait),
        ((({ m with mem := mem } : System).setWait p w).proc p).general = (m.proc p).general :=
      fun mem w => general_setProc.trans (hkeep _ hnow rfl)
    rcases Stage.allows_call hS with ⟨t', -, hc⟩ | ⟨g, hS', -⟩
    · cases hc with
      | termProcess => obtain rfl := Option.some.inj h; exact ⟨hwait _ _, rfl⟩
      | wild => cases h
      | saveIo => obtain rfl := Option.some.inj h; exact ⟨hwait _ _, rfl⟩
      | loadIo => obtain rfl := Option.some.inj h; exact ⟨hwait _ _, rfl⟩
      | ldst =>
        obtain rfl := Option.some.inj h
        refine ⟨general_setProc.trans ?_, rfl⟩
        rw [Proc.general, Proc.general, hnow]
        cases hr : (m.proc p).resume 0 with
        | user => simp only [PGFAULTEXCEPT, hr]
        | code lvl c =>
          cases lvl <;> simp only [PGFAULTEXCEPT, hr]
      | _ => obtain rfl := Option.some.inj h; exact ⟨hsem _ _ _, rfl⟩
    · rw [hS'] at ht
      cases ht

/-- A command of the general handler that neither ends it nor makes another exception: the code is
    followed, unless an address is used in vain. -/
theorem general_follow {c : Cmd} {k : c.Res → SM Unit} {r : Refill} {s : ProcState} {now : Word}
    (hnow : (m.proc p).now = .code .general (.cmd c k)) (hl : ∀ j, c ≠ .call (.ldst j))
    (ht : c ≠ .call .terminate) (h : m.exec p .general r s now c k = some m') :
    (m'.proc p).general =
        some (if (m.cmdDid p c).misses then .cmd c k
          else m.follow (.step p r s now) p (.cmd c k)) ∧
      (m.cmdDid p c).passesUp = false := by
  have hx : (m.proc p).now.isPager = false := by rw [hnow]; rfl
  have hgen : (m.proc p).general = some (.cmd c k) := by rw [Proc.general, hnow]
  cases c with
  | act x => obtain rfl := Option.some.inj h; exact ⟨general_setProc, rfl⟩
  | call c =>
    cases c with
    | passeren sem =>
      obtain rfl := Option.some.inj h
      exact ⟨by rw [Proc.general, semOp_proc, if_pos rfl]; rfl, rfl⟩
    | verhogen sem =>
      obtain rfl := Option.some.inj h
      exact ⟨by rw [Proc.general, semOp_proc, if_pos rfl]; rfl, rfl⟩
    | doio d v =>
      obtain rfl := Option.some.inj h
      exact ⟨general_setProc.trans hgen, rfl⟩
    | termProcess =>
      obtain rfl := Option.some.inj h
      exact ⟨general_setProc.trans hgen, rfl⟩
    | terminate => exact absurd rfl ht
    | stck => obtain rfl := Option.some.inj h; exact ⟨general_setProc, rfl⟩
    | load va =>
      rw [System.exec, Option.ite_none_right_eq_some] at h
      rcases access_cases hx va EXC_TLBL r s with ⟨e, ht, hv, ha⟩ | ⟨m1, ha, hg, hd⟩
      · rw [ha] at h
        obtain rfl := Option.some.inj h.2
        have hd : m.cmdDid p (.call (.load va)) = .loaded p va (m.mem.ram (physAddr e va)) := by
          simp only [System.cmdDid, System.loadDid, System.used, ht, hv, if_true]
        rw [hd]
        refine ⟨general_setProc.trans ?_, rfl⟩
        simp [Proc.general, System.follow, System.answer, ht, hv, Did.misses]
      · rw [ha] at h
        obtain rfl := Option.some.inj h.2
        have hmiss : (m.cmdDid p (.call (.load va))).misses := hd _
        rw [if_pos hmiss]
        exact ⟨hg.trans hgen, passesUp_of_misses hmiss⟩
    | store va b =>
      rw [System.exec, Option.ite_none_right_eq_some] at h
      obtain rfl := Option.some.inj h.2
      rcases userStore_cases hx va b r s (.code .general (k ())) with
        ⟨e, ht, hv, hdirty, he, hd⟩ | ⟨hg, hd⟩
      · refine ⟨?_, ?_⟩
        · have hd' : (m.cmdDid p (.call (.store va b))).misses = false := hd
          rw [he, hd', if_neg (by simp)]
          refine general_setProc.trans ?_
          simp only [Proc.general, System.follow, System.answer, ht, hv]
          rw [if_pos ⟨trivial, hdirty⟩]
        · simp only [System.cmdDid, System.storeDid, System.used, ht, hv, if_true, if_pos hdirty]
          rfl
      · have hmiss : (m.cmdDid p (.call (.store va b))).misses := hd
        rw [if_pos hmiss]
        exact ⟨hg.trans hgen, passesUp_of_misses hmiss⟩
    | readLoop v i a =>
      obtain rfl := Option.some.inj h
      exact ⟨general_setProc, rfl⟩
    | ldst j => exact absurd rfl (hl j)
    | panic => cases h
    | wild => cases h

end Own

section Step

variable {m m' : System} {p : Uproc} {st : Uproc → Stage} {g : Service} {e : UserEvent} {a : Abs}

/-- What the run tells of the services of `p` after the general handler has got an answer. -/
structure Advances (m : System) (e : UserEvent) (p : Uproc) (g g' : Service) (c : Cmd) : Prop where
  saved : g'.saved = g.saved
  rest : ∀ c0, g.rest = some c0 → g'.rest = some (m.follow e p c0)
  started : g.rest = none → g'.rest = some (service (m.mem.sup p))
  clock : c ≠ .call .stck → g'.clock = g.clock
  time : c = .call .stck → ∀ now, m.answer e p (.call .stck) = some now → g'.clock = now

theorem Advances.timed {c : Cmd} {g' : Service} (h : Advances m e p g g' c) (hc : c ≠ .call .stck)
    {c0 : SM Word} (ht : g.Timed c0) : g'.Timed c0 := by
  unfold Service.Timed at *
  rwa [h.saved, h.clock hc]

/-- How far the handler has got after the answer. -/
theorem Handling.advance {c : Cmd} {k : c.Res → SM Unit} {g' : Service} {s s' : ProcState}
    (h : Handling p g s (.cmd c k)) (ha : Advances m e p g g' c) (hs : s = m.mem.genState p)
    (hs' : ∀ x, c = .act (.setExceptState p 1 x) → s' = x)
    (hs0 : (∀ x, c ≠ .act (.setExceptState p 1 x)) → s' = s) :
    Handling p g' s' (m.follow e p (.cmd c k)) := by
  generalize hC : Code.cmd c k = C at h
  cases h with
  | entry hrest hsaved =>
    cases hC
    obtain rfl := hs0 nofun
    change Handling p g' s' (if CAUSE_GET_EXCCODE _ = EXC_SYS then _ else _)
    split
    · refine .serving (ha.started hrest) (hsaved.trans ha.saved.symm) (ofService_service _) ?_
      intro hn
      rw [ha.saved, ← hsaved, hs] at hn
      exact .inl (if_pos hn)
    · exact .killed
  | killed =>
    cases hC
    exact .killed
  | @serving c0 hrest hsaved hof ht =>
    cases c0 with
    | ret v =>
      cases hC
      obtain rfl := hs0 nofun
      change Handling p g' s' (do
        act (.setExceptState p 1 (returnState v (m.mem.genState p)))
        exit (.ldst 1) Call.ldst_one_res)
      rw [← hs]
      exact .storing (ha.rest _ hrest) (hsaved.trans ha.saved.symm) (ha.timed nofun ht)
    | cmd c0 k0 =>
      rw [follow_bind]
      rw [Code.cmd_bind] at hC
      cases hC
      have hset : ∀ x, c ≠ .act (.setExceptState p 1 x) := fun x hx => by
        have hc : c.ofService := hof.1
        rw [hx] at hc
        exact hc
      obtain rfl := hs0 hset
      refine .serving (ha.rest _ hrest) (hsaved.trans ha.saved.symm) hof.follow fun hn => ?_
      rw [ha.saved] at hn
      rcases ht hn with hstck | hret
      · cases hstck
        rw [follow_cmd fun _ _ _ h => by cases h]
        cases hans : m.answer e p (.call .stck) with
        | none => exact .inl rfl
        | some now =>
          rw [ha.time rfl now hans]
          exact .inr rfl
      · cases hret
  | @storing v hrest hsaved ht =>
    cases hC
    obtain rfl := hs' _ rfl
    refine .returning (ha.rest _ hrest) ?_ (ha.timed nofun ht)
    rw [hsaved, ha.saved]
  | @returning v hrest hsaved ht =>
    cases hC
    obtain rfl := hs0 nofun
    exact .returning (ha.rest _ hrest) (hsaved.trans (by rw [ha.saved])) (ha.timed nofun ht)

/-- The ghost after an answer to the general handler. -/
theorem Service.step_advances {c : Cmd} {k : c.Res → SM Unit}
    (hnow : (m.proc p).now = .code .general (.cmd c k)) (hd : (m.did e).actor = some p)
    (hpass : (m.did e).passesUp = false) (hmiss : (m.did e).misses = false)
    (hstck : ∀ q, m.did e = .gave q (.call .stck) → c = .call .stck)
    (htime : c = .call .stck → ∃ q r s now, m.did e = .gave q (.call .stck) ∧
      e = .step p r s now) : Advances m e p g (g.step p (m, e, m')) c := by
  have hstep : g.step p (m, e, m') = g.advance p m e := by
    have hgen : (m.proc p).now.isGeneral = true := by rw [hnow]; rfl
    simp only [Service.step, hd, hpass, hmiss, hgen]
    rfl
  rw [hstep]
  refine ⟨rfl, fun c0 hc0 => ?_, fun hn => ?_, fun hc => ?_, fun hc now hans => ?_⟩
  · simp only [Service.advance, hc0]
  · simp only [Service.advance, hn]
  · unfold Service.advance
    simp only
    split
    · next hgave => exact absurd (hstck _ hgave) hc
    · rfl
  · obtain ⟨q, r, s, now', hgave, rfl⟩ := htime hc
    obtain rfl : now' = now := Option.some.inj hans
    simp only [Service.advance, hgave]

theorem System.Handles.stay {x : System × UserEvent × System} (hI : m.Handles p g)
    (hg : g.step p x = g) (hgen : (m'.proc p).general = (m.proc p).general)
    (hs : m'.mem.genState p = m.mem.genState p) : m'.Handles p (g.step p x) := by
  intro c hc
  rw [hg, hs]
  exact hI c (hgen ▸ hc)

/-- An exception that is not a page fault is passed up. -/
theorem System.handles_entry {x : System × UserEvent × System} (hm : x.2.2 = m')
    (hgen : (m'.proc p).general = some (supportExecHandler p))
    (hd : (x.1.did x.2.1).actor = some p) (hpass : (x.1.did x.2.1).passesUp) :
    m'.Handles p (g.step p x) := by
  intro c hc
  rw [hgen] at hc
  obtain rfl := Option.some.inj hc
  rw [Service.step, if_pos hd, if_pos hpass, hm]
  exact .entry rfl rfl

theorem System.Handles.user {pc : Word} {i : Instr} {r : Refill} {s : ProcState}
    (h : m.next (.user p pc i r s) = some m') :
    m'.Handles p (g.step p (m, .user p pc i r s, m')) := by
  rcases user_general h with ⟨hgen, -⟩ | ⟨hgen, hdid⟩
  · intro c hc
    rw [hgen] at hc
    cases hc
  · exact System.handles_entry rfl hgen (by rw [hdid]; rfl) (by rw [hdid]; rfl)

/-- The pager stores to no saved state. -/
theorem pager_genState {S : Stage} {t : TlbStage} {c : Cmd} (ht : S.tlb = some t)
    (hS : S.allows p c) (k : Fin 2) (s : ProcState) :
    m.cmdDid p c ≠ .gave p (.act (.setExceptState p k s)) := by
  intro hd
  obtain rfl := cmdDid_gave hd
  rcases Stage.allows_act hS with ⟨t', -, hx⟩ | ⟨g, hS', -⟩
  · cases hx
  · rw [hS'] at ht
    cases ht

/-- A command of a handler. -/
theorem System.Handles.exec {lvl : Level} {c : Cmd} {k : c.Res → SM Unit} {r : Refill}
    {s : ProcState} {now : Word} (hI : m.Handles p g) (hf : m.Fits st)
    (hnow : (m.proc p).now = .code lvl (.cmd c k)) (h : m.exec p lvl r s now c k = some m')
    (hmove : Move (m.abs st) (m.cmdDid p c) a) (ha : a.mem.genState p = m'.mem.genState p)
    (hdid : m.did (.step p r s now) = m.cmdDid p c) :
    m'.Handles p (g.step p (m, .step p r s now, m')) := by
  obtain ⟨⟨hallow, -⟩, hlvl, -⟩ := (hf p).follows hnow
  have hallow : (st p).allows p c := hallow
  cases lvl with
  | pager =>
    obtain ⟨t, ht⟩ := Option.isSome_iff_exists.mp (hlvl.mpr rfl)
    obtain ⟨hgen, hpass⟩ := pager_general hnow ht hallow h
    have hcode : (m.proc p).now.isGeneral = false := by rw [hnow]; rfl
    refine hI.stay ?_ hgen (ha.symm.trans (hmove.genState fun _ => ⟨hpass, pager_genState ht hallow⟩))
    simp [Service.step, hdid, hpass, hcode]
  | general =>
    have hgen : (m.proc p).general = some (.cmd c k) := by rw [Proc.general, hnow]
    have hhand := hI _ hgen
    by_cases hl : ∃ j, c = .call (.ldst j)
    · -- the process goes on with its program
      obtain ⟨j, rfl⟩ := hl
      obtain rfl := Option.some.inj h
      rcases Stage.allows_call hallow with ⟨t, ht, -⟩ | ⟨g, hS, hc⟩
      · rw [ht] at hlvl
        cases hlvl.mp rfl
      cases hc with
      | ldst =>
        have hback : (m.proc p).resume GENERALEXCEPT = .user :=
          ((hf p).back .returning (by rw [hS])).resolve_right id
        intro c hc
        have hnone : ((m.go p ((m.proc p).resume 1)).proc p).general = none := by
          refine general_setProc.trans ?_
          rw [Proc.general]
          simp only
          rw [show (m.proc p).resume 1 = .user from hback]
        exact absurd (hnone.symm.trans hc) (by simp)
    by_cases ht : c = .call .terminate
    · subst ht
      obtain rfl := Option.some.inj h
      refine System.handles_entry rfl ?_ (by rw [hdid]; rfl) (by rw [hdid]; rfl)
      simp [Proc.general, System.raise, System.handler, PGFAULTEXCEPT, GENERALEXCEPT]
    obtain ⟨hgen', hpass⟩ := general_follow hnow (fun j hj => hl ⟨j, hj⟩) ht h
    cases hmiss : (m.cmdDid p c).misses with
    | true =>
      rw [hmiss, if_pos rfl] at hgen'
      refine hI.stay ?_ (hgen'.trans hgen.symm) (ha.symm.trans (hmove.genState fun _ => ⟨hpass, ?_⟩))
      · simp [Service.step, hdid, hpass, hmiss]
      · intro k' s' hd
        rw [hd] at hmiss
        cases hmiss
    | false =>
      rw [hmiss, if_neg (by simp)] at hgen'
      intro c' hc'
      obtain rfl := Option.some.inj (hgen'.symm.trans hc')
      refine hhand.advance (Service.step_advances hnow ?_ ?_ ?_ ?_ ?_) rfl ?_ ?_
      · rw [hdid, cmdDid_actor]
      · rw [hdid, hpass]
      · rw [hdid, hmiss]
      · intro q hq
        exact cmdDid_gave (hdid ▸ hq)
      · rintro rfl
        exact ⟨p, r, s, now, hdid, rfl⟩
      · rintro x rfl
        obtain rfl := Option.some.inj h
        exact Mem.setExceptState_self ..
      · intro hx
        refine ha.symm.trans (hmove.genState fun _ => ⟨hpass, fun k' s' hd => ?_⟩)
        obtain rfl := cmdDid_gave hd
        rcases Stage.allows_act hallow with ⟨t, ht, -⟩ | ⟨g, -, hg⟩
        · rw [ht] at hlvl
          cases hlvl.mp rfl
        · cases hg
          exact hx _ rfl

/-- A device has ended the operation that a handler waits for. -/
theorem System.Handles.complete {status : Word} (hI : m.Handles p g)
    (h : m.next (.complete p status) = some m')
    (hs : m'.mem.genState p = m.mem.genState p) :
    m'.Handles p (g.step p (m, .complete p status, m')) := by
  rw [System.next, Option.ite_none_right_eq_some] at h
  obtain ⟨-, h⟩ := h
  split at h
  swap
  · cases h
  next lvl c hnow =>
  unfold System.finish at h
  split at h
  swap
  · cases h
  next d v k =>
  obtain rfl := Option.some.inj h
  have hdid : m.did (.complete p status) = .ended p d v status := by simp only [System.did, hnow]
  cases lvl with
  | pager =>
    refine hI.stay ?_ (general_setProc.trans ?_) hs
    · simp [Service.step, hdid, hnow, Cont.isGeneral, Did.passesUp]
    · rw [Proc.general, Proc.general, hnow]
  | general =>
    have hhand := hI _ (by rw [Proc.general, hnow])
    intro c' hc'
    obtain rfl : k status = c' := Option.some.inj (general_setProc.symm.trans hc')
    exact hhand.advance (e := .complete p status) (Service.step_advances hnow (by rw [hdid]; rfl)
      (by rw [hdid]; rfl) (by rw [hdid]; rfl) (fun q hq => by rw [hdid] at hq; cases hq) (by simp)) rfl
      (by simp) fun _ => hs

/-- A step of the system. -/
theorem System.Handles.next (hf : m.Fits st) (h : m.next e = some m') (hI : m.Handles p g) :
    m'.Handles p (g.step p (m, e, m')) := by
  obtain ⟨st', -, hmove⟩ := System.next_moves hf h
  by_cases hp : e.actor = p
  swap
  · have hne : (m.did e).actor ≠ some p := fun hc => by
      rcases did_actor m e with h0 | h0
      · rw [h0] at hc
        cases hc
      · exact hp (Option.some.inj (h0.symm.trans hc))
    obtain ⟨hnow, hres⟩ := next_sameCode h (Ne.symm hp)
    refine hI.stay (if_neg hne) ?_ (hmove.genState fun hc => absurd hc hne)
    rw [Proc.general, Proc.general, hnow, hres]
  cases e with
  | user q pc i r s =>
    obtain rfl : q = p := hp
    exact .user h
  | step q r s now =>
    obtain rfl : q = p := hp
    have hnext := h
    rw [System.next, Option.ite_none_right_eq_some] at hnext
    replace hnext := hnext.2
    split at hnext
    · next lvl c k hnow =>
      have hdid : m.did (.step q r s now) = m.cmdDid q c := by simp only [System.did, hnow]
      exact hI.exec hf hnow hnext (hdid ▸ hmove) rfl hdid
    · cases hnext
  | complete q status =>
    obtain rfl : q = p := hp
    refine hI.complete h (hmove.genState fun _ => ?_)
    have hd : m.did (.complete q status) = .quiet ∨
        ∃ d v, m.did (.complete q status) = .ended q d v status := by
      simp only [System.did]
      split
      · exact .inr ⟨_, _, rfl⟩
      · exact .inl rfl
    rcases hd with hd | ⟨d, v, hd⟩ <;> rw [hd] <;> exact ⟨rfl, (by simp)⟩

end Step

/-! ## Runs -/

variable {ok : System → UserEvent → Prop} {mem : Mem} {m m' : System} {p : Uproc}
  {tr : List (System × UserEvent × System)}

/-- The next event is the `LDST` of `support_syscall_handler`. -/
def System.returns (m : System) (p : Uproc) (e : UserEvent) : Bool :=
  match m.did e with
  | .gave q (.call (.ldst k)) => q = p ∧ k = 1
  | _ => false

end Rocm
