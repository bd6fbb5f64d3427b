import Rocm.Support.Services

/-!
# One process alone

A handler of the support level run by itself, with what its surroundings answer: the bytes of the
user's memory, and the status by which each operation of a device ends. Semaphores do not block
here; a session records what is done to them and to the devices.
-/

namespace Rocm

open Threads

/-- What a session records. -/
inductive Io where
  | passeren (s : Sem)
  | verhogen (s : Sem)
  /-- An operation of a device: its command, the `data0` it finds, the status by which it ends. -/
  | doio (d : SubDev) (cmdval data0 status : Word)
  /-- A store to an address that the user has given. -/
  | stored (va : Word) (b : Byte)
  deriving DecidableEq

/-- The memory, the user's memory, what a `STCK` reads, the statuses by which the next operations
    end, and the record. -/
structure Session [Umps] where
  mem : Mem
  user : Word → Byte
  now : Word
  statuses : Nat → Word
  log : List Io

variable [Umps]

namespace Session

def note (s : Session) (e : Io) : Session := { s with log := s.log ++ [e] }

/-- A command to a device and its completion. -/
def operate (s : Session) (d : SubDev) (cmdval : Word) : Session :=
  { s with
    mem := (s.mem.setCommand d cmdval).complete d (s.statuses 0)
    statuses := fun n => s.statuses (n + 1)
    log := s.log ++ [.doio d cmdval (s.mem.dev d).data0 (s.statuses 0)] }

def store (s : Session) (va : Word) (b : Byte) : Session :=
  { s with user := Function.update s.user va b, log := s.log ++ [.stored va b] }

/-- Answers the calls but that of the loop of `read_from_terminal`. -/
def answer (s : Session) : (c : Call) → Option c.Res × Session
  | .passeren sem => (some (), s.note (.passeren sem))
  | .verhogen sem => (some (), s.note (.verhogen sem))
  | .doio d cmdval => (some (s.statuses 0), s.operate d cmdval)
  | .stck => (some s.now, s)
  | .load va => (some (s.user va), s)
  | .store va b => (some (), s.store va b)
  | .readLoop _ _ _ => (none, s)
  | .termProcess => (none, s)
  | .terminate => (none, s)
  | .ldst _ => (none, s)
  | .panic => (none, s)
  | .wild => (none, s)

/-- The effect and the answer of a command. The loop of `read_from_terminal` has `fuel` rounds. -/
def handle : Nat → (c : Cmd) → Session → Option c.Res × Session
  | _, .act a, s => (some (a.run s.mem).1, { s with mem := (a.run s.mem).2 })
  | fuel + 1, .call (.readLoop virtAddr i asid), s =>
    match (readRound virtAddr i asid).run (handle fuel) s with
    | (.returned (.inl x), s') => handle fuel (.call (.readLoop x.1 x.2 asid)) s'
    | (.returned (.inr ret), s') => (some ret, s')
    | (.ended _, s') => (none, s')
  | _, .call c, s => s.answer c

/-- Runs the code of a handler. -/
def run {α : Type} (s : Session) (fuel : Nat) (c : SM α) : Threads.Outcome Cmd α × Session :=
  c.run (handle fuel) s

/-- A device that has been acknowledged is ready. -/
theorem complete_status (m : Mem) (d : SubDev) (status : Word) :
    ((m.complete d status).dev d).status = READY := by
  unfold Mem.complete
  simp only [Function.update_self]

section Run

variable {α : Type} {s s' : Session} {fuel : Nat}

theorem handle_call {c : Call} (h : ∀ v i a, c ≠ .readLoop v i a) :
    handle fuel (.call c) s = s.answer c := by
  cases c with
  | readLoop v i a => exact absurd rfl (h v i a)
  | _ => cases fuel <;> rfl

theorem run_act {a : Act} {k : a.Res → SM α} :
    s.run fuel (.cmd (.act a) k) =
      { s with mem := (a.run s.mem).2 }.run fuel (k (a.run s.mem).1) := by
  refine run_answer (h := handle fuel) (c := .act a) (r := (a.run s.mem).1) ?_
  cases fuel <;> rfl

theorem run_call {c : Call} {k : c.Res → SM α} {r : c.Res} (hc : ∀ v i a, c ≠ .readLoop v i a)
    (h : s.answer c = (some r, s')) : s.run fuel (.cmd (.call c) k) = s'.run fuel (k r) :=
  run_answer (h := handle fuel) ((handle_call hc).trans h)

theorem run_call_bind {c : Call} {f : c.Res → SM α} {r : c.Res}
    (hc : ∀ v i a, c ≠ .readLoop v i a) (h : s.answer c = (some r, s')) :
    s.run fuel (call c >>= f) = s'.run fuel (f r) := run_call hc h

/-- A round of the loop of `read_from_terminal` after which it goes on. -/
theorem readLoop_again {v i a : Word} {x : Word × Word}
    (h : s.run fuel (readRound v i a) = (.returned (.inl x), s')) :
    handle (fuel + 1) (.call (.readLoop v i a)) s = handle fuel (.call (.readLoop x.1 x.2 a)) s' := by
  rw [handle]
  change (readRound v i a).run (handle fuel) s = _ at h
  rw [h]

/-- Its last round. -/
theorem readLoop_done {v i a ret : Word}
    (h : s.run fuel (readRound v i a) = (.returned (.inr ret), s')) :
    handle (fuel + 1) (.call (.readLoop v i a)) s = (some ret, s') := by
  rw [handle]
  change (readRound v i a).run (handle fuel) s = _ at h
  rw [h]

/-- A call that does not return. -/
theorem run_exit {c : Call} {k : c.Res → SM α} (hc : ∀ v i a, c ≠ .readLoop v i a)
    (h : s.answer c = (none, s')) : s.run fuel (.cmd (.call c) k) = (.ended (.call c), s') :=
  run_ended (h := handle fuel) ((handle_call hc).trans h)

end Run

end Session

end Rocm
