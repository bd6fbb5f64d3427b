import Rocm.Support.Stages

/-!
# Which stage a command belongs to

For each command, the only stages in which it is allowed, and what a command does to the semaphores
that are held.
-/

namespace Rocm

variable [Umps] {p : Uproc} {S : Stage}

/-- What the pager or else the general handler allows. -/
theorem Stage.allows_cases {c : Cmd} (h : S.allows p c) :
    (∃ t, S.tlb = some t ∧ t.allows p c) ∨
      ∃ g, S = ⟨some g, none⟩ ∧ g.allows p c := by
  obtain ⟨gen, tlb⟩ := S
  cases tlb with
  | some t => exact .inl ⟨t, rfl, h⟩
  | none =>
    cases gen with
    | some g => exact .inr ⟨g, rfl, h⟩
    | none => exact False.elim h

/-! ## The general handler -/

section General

omit [Umps]

variable {g : GenStage}

/-- The accesses of the general handler. -/
inductive GenStage.ActOf (p : Uproc) : GenStage → Act → Prop where
  | entry : ActOf p .entry (.support p)
  | support {sup} : ActOf p (.plain sup) (.support p)
  | status {sup} (d : SubDev) : ActOf p (.plain sup) (.status d)
  | setExceptState {sup} (s : ProcState) : ¬ sup.IsTerminate →
      ActOf p (.plain sup) (.setExceptState p 1 s)
  | loadAsids {sup} : sup.IsTerminate → ActOf p (.plain sup) .loadAsids
  | setData0 {sup s} (d : SubDev) (v : Word) : ServiceDev p s d →
      ActOf p (.holding sup s) (.setData0 d v)
  | storeAsids {sup v} : ActOf p (.cleaning sup v) (.storeAsids (v ^^^ Mem.asidBit (asid p)))

theorem GenStage.allows_act {x : Act} (h : g.allows p (.act x)) : ActOf p g x := by
  cases g with
  | entry =>
    cases x with
    | support q =>
      obtain rfl : q = p := h
      exact .entry
    | _ => exact False.elim h
  | plain sup =>
    cases x with
    | support q =>
      obtain rfl : q = p := h
      exact .support
    | status d => exact .status d
    | setExceptState q k s =>
      obtain ⟨rfl, rfl, ht⟩ := h
      exact .setExceptState s ht
    | loadAsids => exact .loadAsids h
    | _ => exact False.elim h
  | holding sup s =>
    cases x with
    | setData0 d v => exact .setData0 d v h
    | _ => exact False.elim h
  | cleaning sup v =>
    cases x with
    | storeAsids v' =>
      obtain rfl : v' = _ := h
      exact .storeAsids
    | _ => exact False.elim h
  | cleaned sup => exact False.elim h
  | returning => exact False.elim h

/-- The calls of the general handler. -/
inductive GenStage.CallOf (p : Uproc) : GenStage → Call → Prop where
  | stck {sup} : CallOf p (.plain sup) .stck
  | passeren {sup} (s : Sem) : s ∈ serviceSems p → ¬ sup.IsTerminate →
      CallOf p (.plain sup) (.passeren s)
  | terminate {sup} : ¬ sup.IsTerminate → CallOf p (.plain sup) .terminate
  | kill {sup} : ¬ sup.IsTerminate → CallOf p (.plain sup) .termProcess
  | doio {sup s} (d : SubDev) (v : Word) : ServiceDev p s d →
      CallOf p (.holding sup s) (.doio d v)
  | load {sup s} (va : Word) : CallOf p (.holding sup s) (.load va)
  | store {sup s} (va : Word) (b : Byte) : CallOf p (.holding sup s) (.store va b)
  | readLoop {sup} (va i : Word) : CallOf p (.holding sup (.dev 4 p)) (.readLoop va i (asid p))
  | verhogen {sup s} : CallOf p (.holding sup s) (.verhogen s)
  | terminated {sup} : CallOf p (.cleaned sup) .termProcess
  | ldst : CallOf p .returning (.ldst 1)

theorem GenStage.allows_call {c : Call} (h : g.allows p (.call c)) : CallOf p g c := by
  cases g with
  | plain sup =>
    cases c with
    | stck => exact .stck
    | passeren s => exact .passeren s h.1 h.2
    | terminate => exact .terminate h
    | termProcess => exact .kill h
    | _ => exact False.elim h
  | holding sup s =>
    cases c with
    | doio d v => exact .doio d v h.1
    | load va => exact .load va
    | store va b => exact .store va b
    | readLoop va i a =>
      obtain ⟨rfl, rfl⟩ := h
      exact .readLoop va i
    | verhogen s' =>
      obtain rfl : s' = s := h
      exact .verhogen
    | _ => exact False.elim h
  | cleaned sup =>
    cases c with
    | termProcess => exact .terminated
    | _ => exact False.elim h
  | returning =>
    cases c with
    | ldst k =>
      obtain rfl : k = 1 := h
      exact .ldst
    | _ => exact False.elim h
  | entry => exact False.elim h
  | cleaning sup v => exact False.elim h

end General

/-! ## The pager -/

section Io

variable {io : IoStage} {data cmdval : Word}

omit [Umps] in
theorem IoStage.allows_act {x : Act} (h : io.allows p data cmdval (.act x)) :
    io = .locked ∧ x = .setData0 (flashDev p) data := by
  cases io with
  | locked =>
    cases x with
    | setData0 d v =>
      obtain ⟨rfl, rfl⟩ := h
      exact ⟨rfl, rfl⟩
    | _ => exact False.elim h
  | _ => exact False.elim h

omit [Umps] in
theorem IoStage.allows_call {c : Call} (h : io.allows p data cmdval (.call c)) :
    (io = .start ∧ c = .passeren (flashSem p)) ∨
    (io = .ready ∧ c = .doio (flashDev p) cmdval) ∨
    ∃ status, io = .done status ∧ c = .verhogen (flashSem p) := by
  cases io with
  | start =>
    cases c with
    | passeren s =>
      obtain rfl : s = _ := h
      exact .inl ⟨rfl, rfl⟩
    | _ => exact False.elim h
  | locked => exact False.elim h
  | ready =>
    cases c with
    | doio d v =>
      obtain ⟨rfl, rfl⟩ := h
      exact .inr (.inl ⟨rfl, rfl⟩)
    | _ => exact False.elim h
  | done status =>
    cases c with
    | verhogen s =>
      obtain rfl : s = _ := h
      exact .inr (.inr ⟨status, rfl, rfl⟩)
    | _ => exact False.elim h

end Io

variable {t : TlbStage}

/-! The three places where an answer decides how the pager goes on. -/

omit [Umps] in
theorem TlbStage.next_usable {sup : SupportT} {f f' : Frame} (b : Bool) :
    (chosen sup f).next (.act (.usable f')) b = if b then .victim sup f else .cleared sup f := rfl

omit [Umps] in
theorem TlbStage.next_saved {sup : SupportT} {f : Frame} {x : Uproc × Page} {e : PteEntry}
    {status : Word} {s : Sem} {r : PUnit} :
    (saving sup f x e (.done status)).next (.call (.verhogen s)) r =
      if status = READY then .saved sup f else .cleared sup f := rfl

omit [Umps] in
theorem TlbStage.next_read {sup : SupportT} {f : Frame} {status : Word} {s : Sem} {r : PUnit} :
    (loading sup f (.done status)).next (.call (.verhogen s)) r =
      if status = READY then .loaded sup f else .failed sup f := rfl

/-- The accesses of the pager. -/
inductive TlbStage.ActOf (p : Uproc) : TlbStage → Act → Prop where
  | support : ActOf p .entry (.support p)
  | chooseFrame {sup} : ActOf p (.locked sup) .chooseFrame
  | usable {sup f} : ActOf p (.chosen sup f) (.usable f)
  | pgTblEntry {sup f} : ActOf p (.victim sup f) (.pgTblEntry f)
  | invalidate {sup f x} : ActOf p (.victimAt sup f x) (.invalidate x)
  | pte {sup f x} : ActOf p (.invalid sup f x) (.pte x)
  | saveData0 {sup f x e} : ActOf p (.saving sup f x e .locked)
      (.setData0 (flashDev p) (Umps.entryloGetPfn e.entryLO))
  | setFree {sup f} : ActOf p (.saved sup f) (.setFree f)
  | loadData0 {sup f} : ActOf p (.loading sup f .locked) (.setData0 (flashDev p) (frameAddr f))
  | install {sup f} (i : Page) : i.val = (pageIndex sup.faultHi).toNat →
      ActOf p (.loaded sup f) (.install p f i)

theorem TlbStage.allows_act {x : Act} (h : t.allows p (.act x)) : ActOf p t x := by
  cases t with
  | entry =>
    cases x with
    | support q =>
      obtain rfl : q = p := h
      exact .support
    | _ => exact False.elim h
  | locked sup =>
    cases x with
    | chooseFrame => exact .chooseFrame
    | _ => exact False.elim h
  | chosen sup f =>
    cases x with
    | usable f' =>
      obtain rfl : f' = f := h
      exact .usable
    | _ => exact False.elim h
  | victim sup f =>
    cases x with
    | pgTblEntry f' =>
      obtain rfl : f' = f := h
      exact .pgTblEntry
    | _ => exact False.elim h
  | victimAt sup f y =>
    cases x with
    | invalidate y' =>
      obtain rfl : y' = y := h
      exact .invalidate
    | _ => exact False.elim h
  | invalid sup f y =>
    cases x with
    | pte y' =>
      obtain rfl : y' = y := h
      exact .pte
    | _ => exact False.elim h
  | saving sup f y e io =>
    obtain ⟨rfl, rfl⟩ := IoStage.allows_act h
    exact .saveData0
  | saved sup f =>
    cases x with
    | setFree f' =>
      obtain rfl : f' = f := h
      exact .setFree
    | _ => exact False.elim h
  | loading sup f io =>
    obtain ⟨rfl, rfl⟩ := IoStage.allows_act h
    exact .loadData0
  | loaded sup f =>
    cases x with
    | install q f' i =>
      obtain ⟨rfl, rfl, hi⟩ := h
      exact .install i hi
    | _ => exact False.elim h
  | _ => exact False.elim h

/-- The calls of the pager. -/
inductive TlbStage.CallOf (p : Uproc) : TlbStage → Call → Prop where
  | termProcess {sup} : CAUSE_GET_EXCCODE (sup.supExceptState PGFAULTEXCEPT).cause = EXC_MOD →
      CallOf p (.started sup) .termProcess
  | lock {sup} : CAUSE_GET_EXCCODE (sup.supExceptState PGFAULTEXCEPT).cause ≠ EXC_MOD →
      CallOf p (.started sup) (.passeren .spSem)
  | saveLock {sup f x e} : CallOf p (.saving sup f x e .start) (.passeren (flashSem p))
  | saveIo {sup f x e} :
      CallOf p (.saving sup f x e .ready) (.doio (flashDev p) (writeCmd e))
  | saveUnlock {sup f x e status} :
      CallOf p (.saving sup f x e (.done status)) (.verhogen (flashSem p))
  | loadLock {sup f} : CallOf p (.cleared sup f) (.passeren (flashSem p))
  | loadRelock {sup f} : CallOf p (.loading sup f .start) (.passeren (flashSem p))
  | loadIo {sup f} : CallOf p (.loading sup f .ready) (.doio (flashDev p) (readCmd sup))
  | loadUnlock {sup f status} :
      CallOf p (.loading sup f (.done status)) (.verhogen (flashSem p))
  | wild {sup f} : USERPGTBLSIZE ≤ (pageIndex sup.faultHi).toNat →
      CallOf p (.loaded sup f) .wild
  | unlock : CallOf p .installed (.verhogen .spSem)
  | ldst : CallOf p .released (.ldst 0)

theorem TlbStage.allows_call {c : Call} (h : t.allows p (.call c)) : CallOf p t c := by
  cases t with
  | started sup =>
    cases c with
    | termProcess => exact .termProcess h
    | passeren s =>
      obtain ⟨rfl, h⟩ := h
      exact .lock h
    | _ => exact False.elim h
  | saving sup f x e io =>
    obtain ⟨rfl, rfl⟩ | ⟨rfl, rfl⟩ | ⟨status, rfl, rfl⟩ := IoStage.allows_call h
    · exact .saveLock
    · exact .saveIo
    · exact .saveUnlock
  | cleared sup f =>
    cases c with
    | passeren s =>
      obtain rfl : s = _ := h
      exact .loadLock
    | _ => exact False.elim h
  | loading sup f io =>
    obtain ⟨rfl, rfl⟩ | ⟨rfl, rfl⟩ | ⟨status, rfl, rfl⟩ := IoStage.allows_call h
    · exact .loadRelock
    · exact .loadIo
    · exact .loadUnlock
  | loaded sup f =>
    cases c with
    | wild => exact .wild h
    | _ => exact False.elim h
  | installed =>
    cases c with
    | verhogen s =>
      obtain rfl : s = _ := h
      exact .unlock
    | _ => exact False.elim h
  | released =>
    cases c with
    | ldst k =>
      obtain rfl : k = _ := h
      exact .ldst
    | _ => exact False.elim h
  | _ => exact False.elim h

/-! ## The process -/

theorem Stage.allows_act {x : Act} (h : S.allows p (.act x)) :
    (∃ t, S.tlb = some t ∧ t.ActOf p x) ∨ ∃ g, S = ⟨some g, none⟩ ∧ g.ActOf p x := by
  rcases S.allows_cases h with ⟨t, ht, h⟩ | ⟨g, rfl, h⟩
  · exact .inl ⟨t, ht, t.allows_act h⟩
  · exact .inr ⟨g, rfl, g.allows_act h⟩

theorem Stage.allows_call {c : Call} (h : S.allows p (.call c)) :
    (∃ t, S.tlb = some t ∧ t.CallOf p c) ∨ ∃ g, S = ⟨some g, none⟩ ∧ g.CallOf p c := by
  rcases S.allows_cases h with ⟨t, ht, h⟩ | ⟨g, rfl, h⟩
  · exact .inl ⟨t, ht, t.allows_call h⟩
  · exact .inr ⟨g, rfl, g.allows_call h⟩

end Rocm
