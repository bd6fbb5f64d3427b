import Rocm.Support.Machine

/-!
# The stages of the handlers

An abstract account of what the handlers of a process do: how far the general handler and the pager
have got, which commands they give there, and which semaphores they hold. The stages make a
`Protocol`; that the code of the handlers follows it is proved in `Rocm.Proofs.Handlers`.
-/

namespace Rocm

open Threads

/-- The state saved in `sup_exceptState[GENERALEXCEPT]` is that of a SYS2. -/
def ProcState.IsTerminate (s : ProcState) : Prop :=
  CAUSE_GET_EXCCODE s.cause = EXC_SYS ∧ s.gpr regA0 = TERMINATE

instance (s : ProcState) : Decidable s.IsTerminate := inferInstanceAs (Decidable (_ ∧ _))

/-- How far the general handler has got; `sup` is the support structure it has read. -/
inductive GenStage where
  | entry
  | plain (sup : SupportT)
  /-- Between the P and the V of a service. -/
  | holding (sup : SupportT) (s : Sem)
  /-- `clean_frames` has loaded `v` from `sp_asids`. -/
  | cleaning (sup : SupportT) (v : BitVec 8)
  | cleaned (sup : SupportT)
  /-- Only the `LDST` is left. -/
  | returning

/-- The steps of `flashIo`. -/
inductive IoStage where
  | start
  | locked
  | ready
  | done (status : Word)

/-- How far the pager has got, with the frame `f` it has chosen; `x` points to the page table entry
    of the page in `f`, and `e` is that entry. -/
inductive TlbStage where
  | entry
  | started (sup : SupportT)
  /-- It holds `sp_sem`. -/
  | locked (sup : SupportT)
  | chosen (sup : SupportT) (f : Frame)
  /-- The frame is to be freed. -/
  | victim (sup : SupportT) (f : Frame)
  | victimAt (sup : SupportT) (f : Frame) (x : Uproc × Page)
  | invalid (sup : SupportT) (f : Frame) (x : Uproc × Page)
  /-- In `write_to_flash`. -/
  | saving (sup : SupportT) (f : Frame) (x : Uproc × Page) (e : PteEntry) (io : IoStage)
  | saved (sup : SupportT) (f : Frame)
  /-- The frame can be overwritten. -/
  | cleared (sup : SupportT) (f : Frame)
  /-- In `read_from_flash`. -/
  | loading (sup : SupportT) (f : Frame) (io : IoStage)
  | loaded (sup : SupportT) (f : Frame)
  | failed (sup : SupportT) (f : Frame)
  | installed
  | released

/-- What the handlers of a process are doing: the general one, which the pager can interrupt. -/
structure Stage where
  gen : Option GenStage
  tlb : Option TlbStage

/-- No handler is active. -/
def Stage.user : Stage := ⟨none, none⟩

/-- The semaphores of the services of a process. -/
def serviceSems (p : Uproc) : List Sem := [.dev 3 p, .dev 4 p, .dev 5 p]

/-- The semaphore and the device of the flash of a process. -/
abbrev flashSem (p : Uproc) : Sem := .dev 1 p
abbrev flashDev (p : Uproc) : SubDev := .dtp 1 p

/-- The element of `dev_sems` that the support level uses for a device. -/
def SubDev.mutex : SubDev → Sem
  | .dtp line no => .dev (line.castLE (by decide)) no
  | .recv no => .dev 4 no
  | .transm no => .dev 5 no

/-- A service of `p` between the P and the V on `s` uses the device `d`. -/
structure ServiceDev (p : Uproc) (s : Sem) (d : SubDev) : Prop where
  no : d.no = p
  mutex : d.mutex = s
  not_flash : ∀ q, d ≠ flashDev q

def SupportT.faultHi (sup : SupportT) : Word := (sup.supExceptState PGFAULTEXCEPT).entryHi

def SupportT.IsTerminate (sup : SupportT) : Prop := (sup.supExceptState GENERALEXCEPT).IsTerminate

/-- The command with which the flash reads the page of a fault or writes the page of `e`. -/
def readCmd (sup : SupportT) : Word := pageIndex sup.faultHi <<< 8 ||| FLASHREAD
def writeCmd (e : PteEntry) : Word := pageIndex e.entryHI <<< 8 ||| FLASHWRITE

/-! ## What is allowed -/

/-- What the general handler of `p` does in a stage. -/
def GenStage.allows (p : Uproc) : GenStage → Cmd → Prop
  | .entry, .act (.support q) => q = p
  | .plain _, .act (.support q) => q = p
  | .plain _, .act (.status d) => d.no = p
  | .plain sup, .act (.setExceptState q k _) => q = p ∧ k = 1 ∧ ¬ sup.IsTerminate
  | .plain sup, .act .loadAsids => sup.IsTerminate
  | .plain _, .call .stck => True
  | .plain sup, .call (.passeren s) => s ∈ serviceSems p ∧ ¬ sup.IsTerminate
  | .plain sup, .call .terminate => ¬ sup.IsTerminate
  | .plain sup, .call .termProcess => ¬ sup.IsTerminate
  | .holding _ s, .act (.setData0 d _) => ServiceDev p s d
  | .holding _ s, .call (.doio d v) => ServiceDev p s d ∧ v ≠ ACK
  | .holding _ _, .call (.load _) => True
  | .holding _ _, .call (.store _ _) => True
  | .holding _ s, .call (.readLoop _ _ a) => s = .dev 4 p ∧ a = asid p
  | .holding _ s, .call (.verhogen s') => s' = s
  | .cleaning _ v, .act (.storeAsids v') => v' = v ^^^ Mem.asidBit (asid p)
  | .cleaned _, .call .termProcess => True
  | .returning, .call (.ldst k) => k = 1
  | _, _ => False

def GenStage.next : GenStage → (c : Cmd) → c.Res → GenStage
  | .entry, .act (.support _), sup => .plain sup
  | .plain _, .act (.setExceptState _ _ _), _ => .returning
  | .plain sup, .act .loadAsids, v => .cleaning sup v
  | .plain sup, .call (.passeren s), _ => .holding sup s
  | .holding sup _, .call (.verhogen _), _ => .plain sup
  | .holding sup _, .call (.readLoop _ _ _), _ => .plain sup
  | .cleaning sup _, .act (.storeAsids _), _ => .cleaned sup
  | g, _, _ => g

/-- What `flashIo` does in a stage. -/
def IoStage.allows (p : Uproc) (data cmdval : Word) : IoStage → Cmd → Prop
  | .start, .call (.passeren s) => s = flashSem p
  | .locked, .act (.setData0 d v) => d = flashDev p ∧ v = data
  | .ready, .call (.doio d v) => d = flashDev p ∧ v = cmdval
  | .done _, .call (.verhogen s) => s = flashSem p
  | _, _ => False

def IoStage.next : IoStage → (c : Cmd) → c.Res → IoStage
  | .start, .call (.passeren _), _ => .locked
  | .locked, .act (.setData0 _ _), _ => .ready
  | .ready, .call (.doio _ _), status => .done status
  | io, _, _ => io

variable [Umps]

/-- What the pager of `p` does in a stage. -/
def TlbStage.allows (p : Uproc) : TlbStage → Cmd → Prop
  | .entry, .act (.support q) => q = p
  | .started sup, .call .termProcess =>
    CAUSE_GET_EXCCODE (sup.supExceptState PGFAULTEXCEPT).cause = EXC_MOD
  | .started sup, .call (.passeren s) =>
    s = .spSem ∧ CAUSE_GET_EXCCODE (sup.supExceptState PGFAULTEXCEPT).cause ≠ EXC_MOD
  | .locked _, .act .chooseFrame => True
  | .chosen _ f, .act (.usable f') => f' = f
  | .victim _ f, .act (.pgTblEntry f') => f' = f
  | .victimAt _ _ x, .act (.invalidate x') => x' = x
  | .invalid _ _ x, .act (.pte x') => x' = x
  | .saving _ _ _ e io, c => io.allows p (Umps.entryloGetPfn e.entryLO) (writeCmd e) c
  | .saved _ f, .act (.setFree f') => f' = f
  | .cleared _ _, .call (.passeren s) => s = flashSem p
  | .loading sup f io, c => io.allows p (frameAddr f) (readCmd sup) c
  | .loaded sup f, .act (.install q f' i) =>
    q = p ∧ f' = f ∧ i.val = (pageIndex sup.faultHi).toNat
  | .loaded sup _, .call .wild => USERPGTBLSIZE ≤ (pageIndex sup.faultHi).toNat
  | .installed, .call (.verhogen s) => s = .spSem
  | .released, .call (.ldst k) => k = 0
  | _, _ => False

def TlbStage.next : TlbStage → (c : Cmd) → c.Res → TlbStage
  | .entry, .act (.support _), sup => .started sup
  | .started sup, .call (.passeren _), _ => .locked sup
  | .locked sup, .act .chooseFrame, f => .chosen sup f
  | .chosen sup f, .act (.usable _), b => if b then .victim sup f else .cleared sup f
  | .victim sup f, .act (.pgTblEntry _), x => .victimAt sup f x
  | .victimAt sup f x, .act (.invalidate _), _ => .invalid sup f x
  | .invalid sup f x, .act (.pte _), e => .saving sup f x e .start
  | .saving sup f _ _ (.done status), .call (.verhogen _), _ =>
    if status = READY then .saved sup f else .cleared sup f
  | .saving sup f x e io, c, r => .saving sup f x e (io.next c r)
  | .saved sup f, .act (.setFree _), _ => .cleared sup f
  | .cleared sup f, .call (.passeren _), _ => .loading sup f .locked
  | .loading sup f (.done status), .call (.verhogen _), _ =>
    if status = READY then .loaded sup f else .failed sup f
  | .loading sup f io, c, r => .loading sup f (io.next c r)
  | .loaded _ _, .act (.install _ _ _), _ => .installed
  | .installed, .call (.verhogen _), _ => .released
  | t, _, _ => t

def Stage.allows (p : Uproc) (S : Stage) (c : Cmd) : Prop :=
  match S.tlb, S.gen with
  | some t, _ => t.allows p c
  | none, some g => g.allows p c
  | none, none => False

def Stage.next (S : Stage) (c : Cmd) (r : c.Res) : Stage :=
  match S.tlb with
  | some t => ⟨S.gen, some (t.next c r)⟩
  | none => ⟨S.gen.map fun g => g.next c r, none⟩

/-- A support structure that is read is that of the process. -/
def Cmd.answers : (c : Cmd) → c.Res → Prop
  | .act (.support p), sup => sup.supAsid = asid p
  | _, _ => True

/-- The protocol of the handlers of `p`. -/
def protocol (p : Uproc) : Protocol Cmd Cmd.Res Stage where
  allows := Stage.allows p
  answers := Cmd.answers
  next := Stage.next

/-! ## The semaphores -/

def GenStage.held : GenStage → List Sem
  | .holding _ s => [s]
  | _ => []

/-- `flashIo` has the semaphore of the flash. -/
def IoStage.isLocked : IoStage → Bool
  | .start => false
  | _ => true

def TlbStage.held (p : Uproc) : TlbStage → List Sem
  | .entry => []
  | .started _ => []
  | .saving _ _ _ _ io => if io.isLocked then [flashSem p, .spSem] else [.spSem]
  | .loading _ _ io => if io.isLocked then [flashSem p, .spSem] else [.spSem]
  | .released => []
  | _ => [.spSem]

/-- The semaphores between whose P and V a process is, or on whose P it waits. -/
def Stage.held (p : Uproc) (S : Stage) : List Sem :=
  S.tlb.elim [] (TlbStage.held p) ++ S.gen.elim [] GenStage.held

end Rocm
