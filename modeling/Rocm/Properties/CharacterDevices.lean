import Rocm.Proofs.Handlers
import Rocm.Properties.SupportSample
import Rocm.Support.Session

/-!
# The services of the character devices

What `write_to_printer`, `write_to_terminal` and `read_from_terminal` do to their device and return,
for every string and every sequence of statuses.
-/

namespace Rocm

open Session Threads

/-- The string at `va`: the bytes before the first NUL, at most `len`. -/
def text (user : Word → Byte) (va : Word) (len : Nat) : List Byte :=
  ((List.range len).map fun i => user (va + BitVec.ofNat 32 i)).takeWhile (· ≠ 0)

theorem text_succ (user : Word → Byte) (va : Word) (i n : Nat) :
    text user (va + BitVec.ofNat 32 i) (n + 1) =
      if user (va + BitVec.ofNat 32 i) = 0 then []
      else user (va + BitVec.ofNat 32 i) :: text user (va + BitVec.ofNat 32 (i + 1)) n := by
  have haddr : ∀ j, va + BitVec.ofNat 32 i + BitVec.ofNat 32 (j + 1) =
      va + BitVec.ofNat 32 (i + 1) + BitVec.ofNat 32 j := fun j => by
    simp only [BitVec.ofNat_add]
    ac_rfl
  have hzero : va + BitVec.ofNat 32 i + BitVec.ofNat 32 0 = va + BitVec.ofNat 32 i :=
    BitVec.add_zero _
  simp only [text, List.range_succ_eq_map, List.map_cons, List.map_map, List.takeWhile_cons, hzero,
    Function.comp_def, Nat.succ_eq_add_one, haddr, decide_not]
  by_cases h : user (va + BitVec.ofNat 32 i) = 0 <;> simp [h]

/-- The first of the next `n` operations that fails. -/
def failure (ok : Word → Bool) (statuses : Nat → Word) (n : Nat) : Option Nat :=
  ((List.range n).map statuses).findIdx? fun status => !ok status

theorem failure_succ (ok : Word → Bool) (statuses : Nat → Word) (n : Nat) :
    failure ok statuses (n + 1) =
      if ok (statuses 0) then (failure ok (fun i => statuses (i + 1)) n).map (· + 1)
      else some 0 := by
  simp only [failure, List.range_succ_eq_map, List.map_cons, List.map_map, List.findIdx?_cons,
    Function.comp_def]
  cases ok (statuses 0) <;> rfl

variable [Umps] {p : Uproc} {s : Session} {fuel : Nat} {va len : Word}

/-! ## Writers -/

/-- The operation `e` transmits the character `c`. -/
def Writer.Sends (w : Writer) (p : Uproc) (c : Byte) (e : Io) : Prop :=
  ∃ cmdval data0 status, e = .doio (w.dev p) cmdval data0 status ∧ cmdval &&& 0xFF = TRANSMITCHAR ∧
    c = (if w.viaData0 then data0 else cmdval >>> 8).setWidth 8

/-- The characters that are transmitted: up to the one that fails, if any. -/
def sent (t : List Byte) : Option Nat → List Byte
  | none => t
  | some i => t.take (i + 1)

/-- The count, or the negative of the status that was a failure. -/
def writeResult (t : List Byte) (statuses : Nat → Word) : Option Nat → Word
  | none => BitVec.ofNat 32 t.length
  | some i => - statuses i

/-- The service transmits the string and returns the count; at a failure it stops and returns the
    negative of the status. Its semaphore is taken once and released once. -/
def Writer.Correct (w : Writer) (sem : Sem) (p : Uproc) (va len : Word) (s : Session) (fuel : Nat) :
    Prop :=
  let t := text s.user va len.toNat
  let f := failure w.ok s.statuses t.length
  ∃ ops s', s.run fuel (w.write va len (asid p)) = (.returned (writeResult t s.statuses f), s') ∧
    s'.log = s.log ++ [.passeren sem] ++ ops ++ [.verhogen sem] ∧
    List.Forall₂ (w.Sends p) (sent t f) ops

/-- What distinguishes the services: where the character goes. -/
structure Writer.Good (w : Writer) : Prop where
  sems : w.sems < DEVINTNUM + 1
  cmdval : ∀ c : Byte, w.cmdval (charVal c) &&& 0xFF = TRANSMITCHAR
  char : ∀ c : Byte,
    c = (if w.viaData0 then charVal c else w.cmdval (charVal c) >>> 8).setWidth 8

omit [Umps] in
theorem printer_good : printer.Good where
  sems := by decide
  cmdval _ := by
    change TRANSMITCHAR &&& 0xFF = TRANSMITCHAR
    decide
  char := by decide +kernel

omit [Umps] in
theorem terminal_good : terminal.Good where
  sems := by decide
  cmdval := by decide +kernel
  char := by decide +kernel

/-- A round of the loop up to its test for NUL. -/
theorem Writer.run_test (w : Writer) (p : Uproc) (fuel : Nat) (va : Word) (n i : Nat)
    (s : Session) :
    ∃ mem, s.run fuel (w.loop va (asid p) i (n + 1)) = { s with mem := mem }.run fuel (
      if s.user (va + BitVec.ofNat 32 i) = 0 then do
        vOnDev w.sems (asid p - 1)
        return BitVec.ofNat 32 i
      else do
        let status ← call (.doio (w.dev p) (w.cmdval (charVal (s.user (va + BitVec.ofNat 32 i)))))
        if w.ok status then w.loop va (asid p) (i + 1) n
        else
          vOnDev w.sems (asid p - 1)
          return - (← act (.status (w.dev p)))) ∧
      (w.viaData0 → (mem.dev (w.dev p)).data0 = charVal (s.user (va + BitVec.ofNat 32 i))) := by
  rw [Writer.loop, devNo_asid]
  cases w.viaData0 with
  | false =>
    refine ⟨s.mem, ?_, (by simp)⟩
    exact (run_call (c := .load _) (by simp) rfl).trans (run_call (c := .load _) (by simp) rfl)
  | true =>
    refine ⟨s.mem.setData0 (w.dev p) (charVal (s.user (va + BitVec.ofNat 32 i))), ?_, fun _ => ?_⟩
    · refine (run_call (c := .load _) (by simp) rfl).trans ?_
      exact run_act.trans (run_call (c := .load _) (by simp) rfl)
    · simp [Mem.setData0]

/-- At the end of the string the semaphore is released and the count returned. -/
theorem Writer.run_stop {w : Writer} (hw : w.Good) (fuel : Nat) {n i : Nat}
    (h0 : s.user (va + BitVec.ofNat 32 i) = 0) :
    ∃ s', s.run fuel (w.loop va (asid p) i (n + 1)) = (.returned (BitVec.ofNat 32 i), s') ∧
      s'.log = s.log ++ [.verhogen (.dev ⟨w.sems, hw.sems⟩ p)] := by
  obtain ⟨m, hm, -⟩ := w.run_test p fuel va n i s
  rw [if_pos h0, vOnDev_asid hw.sems] at hm
  exact ⟨_, hm.trans (run_call nofun rfl), rfl⟩

/-- A character is transmitted. -/
theorem Writer.run_send {w : Writer} (hw : w.Good) (fuel : Nat) {n i : Nat}
    (h0 : s.user (va + BitVec.ofNat 32 i) ≠ 0) :
    ∃ (s1 : Session) (e : Io), s.run fuel (w.loop va (asid p) i (n + 1)) = s1.run fuel (
      if w.ok (s.statuses 0) then w.loop va (asid p) (i + 1) n
      else do
        vOnDev w.sems (asid p - 1)
        return - (← act (.status (w.dev p)))) ∧
      w.Sends p (s.user (va + BitVec.ofNat 32 i)) e ∧ s1.log = s.log ++ [e] ∧ s1.user = s.user ∧
      s1.statuses = (fun j => s.statuses (j + 1)) ∧ (s1.mem.dev (w.dev p)).status = READY := by
  obtain ⟨m, hm, hdata⟩ := w.run_test p fuel va n i s
  rw [if_neg h0] at hm
  refine ⟨_, _, hm.trans (run_call (c := .doio _ _) nofun rfl), ?_, rfl, rfl, rfl, ?_⟩
  · refine ⟨w.cmdval (charVal (s.user (va + BitVec.ofNat 32 i))), (m.dev (w.dev p)).data0,
      s.statuses 0, rfl, hw.cmdval _, ?_⟩
    have hchar := hw.char (s.user (va + BitVec.ofNat 32 i))
    cases hvia : w.viaData0 with
    | false =>
      simp only [hvia, Bool.false_eq_true, if_false] at hchar ⊢
      exact hchar
    | true =>
      simp only [hvia, if_true] at hchar ⊢
      rw [hdata hvia]
      exact hchar
  · exact complete_status _ _ _

/-- After a failure the status is read again. -/
theorem Writer.run_fail {w : Writer} (hw : w.Good) (fuel : Nat) (h : (s.mem.dev (w.dev p)).status = READY) :
    ∃ s', s.run fuel (do
        vOnDev w.sems (asid p - 1)
        return - (← act (.status (w.dev p)))) = (.returned (- READY), s') ∧
      s'.log = s.log ++ [.verhogen (.dev ⟨w.sems, hw.sems⟩ p)] := by
  rw [vOnDev_asid hw.sems]
  refine ⟨s.note (.verhogen (.dev ⟨w.sems, hw.sems⟩ p)), ?_, rfl⟩
  rw [← h]
  exact (run_call (c := .verhogen _) nofun rfl).trans run_act

/-- What the loop returns: at a failure the negative of a status that is no longer the one the
    operation ended with. -/
def loopResult (i : Nat) (t : List Byte) : Option Nat → Word
  | none => BitVec.ofNat 32 (i + t.length)
  | some _ => - READY

/-- The code transmits the string `t` up to a failure, releases the semaphore and returns. -/
def Writer.Transfers (w : Writer) (sem : Sem) (p : Uproc) (fuel : Nat) (c : SM Word) (s : Session)
    (t : List Byte) (result : Option Nat → Word) : Prop :=
  ∃ ops s', s.run fuel c = (.returned (result (failure w.ok s.statuses t.length)), s') ∧
    s'.log = s.log ++ ops ++ [.verhogen sem] ∧
    List.Forall₂ (w.Sends p) (sent t (failure w.ok s.statuses t.length)) ops

omit [Umps] in
theorem loopResult_cons (i : Nat) (c : Byte) (t : List Byte) (f : Option Nat) :
    loopResult i (c :: t) (f.map (· + 1)) = loopResult (i + 1) t f := by
  cases f with
  | none => simp only [Option.map_none, loopResult, List.length_cons]; congr 1; omega
  | some j => rfl

omit [Umps] in
theorem sent_cons (c : Byte) (t : List Byte) (f : Option Nat) :
    sent (c :: t) (f.map (· + 1)) = c :: sent t f := by
  cases f <;> rfl

theorem Writer.run_loop {w : Writer} (hw : w.Good) (p : Uproc) (fuel : Nat) (va : Word) (n : Nat) :
    ∀ (i : Nat) (s : Session),
    w.Transfers (.dev ⟨w.sems, hw.sems⟩ p) p fuel (w.loop va (asid p) i n) s
      (text s.user (va + BitVec.ofNat 32 i) n)
      (loopResult i (text s.user (va + BitVec.ofNat 32 i) n)) := by
  induction n with
  | zero =>
    intro i s
    refine ⟨[], s.note (.verhogen (.dev ⟨w.sems, hw.sems⟩ p)), ?_, ?_, .nil⟩
    · rw [Writer.loop, vOnDev_asid hw.sems]
      exact run_call (by simp) rfl
    · simp [Session.note]
  | succ n ih =>
    intro i s
    rw [text_succ]
    by_cases h0 : s.user (va + BitVec.ofNat 32 i) = 0
    · obtain ⟨s', hrun, hlog⟩ := w.run_stop hw (p := p) fuel (n := n) h0
      rw [if_pos h0]
      exact ⟨[], s', hrun, by rw [hlog, List.append_nil], .nil⟩
    obtain ⟨s1, e, hrun, hsends, hlog, huser, hstatuses, hready⟩ :=
      w.run_send hw (p := p) fuel (n := n) h0
    rw [if_neg h0, Writer.Transfers, List.length_cons, failure_succ, hrun]
    by_cases hok : w.ok (s.statuses 0)
    · obtain ⟨ops, s', hrun', hlog', hops⟩ := ih (i + 1) s1
      rw [huser, hstatuses] at hrun' hops
      rw [if_pos hok, if_pos hok]
      refine ⟨e :: ops, s', hrun'.trans ?_, ?_, ?_⟩
      · rw [loopResult_cons]
      · rw [hlog', hlog]
        simp
      · rw [sent_cons]
        exact .cons hsends hops
    · obtain ⟨s', hfail, hlog'⟩ := w.run_fail hw (p := p) fuel hready
      rw [if_neg hok, if_neg hok]
      refine ⟨[e], s', hfail, ?_, .cons hsends .nil⟩
      rw [hlog', hlog]

omit [Umps] in
theorem loopResult_zero_iff (t : List Byte) (statuses : Nat → Word) (f : Option Nat) :
    loopResult 0 t f = writeResult t statuses f ↔ ∀ i, f = some i → statuses i = READY := by
  cases f with
  | none => simp [loopResult, writeResult]
  | some i =>
    simp only [loopResult, writeResult, BitVec.neg_inj, Option.some.injEq, forall_eq']
    exact eq_comm

/-- A writer is correct if and only if no operation fails, or the one that does ends with the status
    READY. -/
theorem Writer.correct_iff {w : Writer} (hw : w.Good) (hlen : ¬ (128 : Word).slt len)
    (hneg : ¬ len.slt 0) (hva : KUSEG ≤ va) :
    w.Correct (.dev ⟨w.sems, hw.sems⟩ p) p va len s fuel ↔
      ∀ i, failure w.ok s.statuses (text s.user va len.toNat).length = some i →
        s.statuses i = READY := by
  have hpre : ¬ ((128 : Word).slt len ∨ len.slt 0 ∨ va < KUSEG) := by
    rintro (h | h | h)
    · exact hlen h
    · exact hneg h
    · exact absurd hva (BitVec.not_le.mpr h)
  obtain ⟨ops, s', hrun, hlog, hops⟩ := w.run_loop hw p fuel va len.toNat 0
    (s.note (.passeren (.dev ⟨w.sems, hw.sems⟩ p)))
  rw [show va + BitVec.ofNat 32 0 = va from BitVec.add_zero _] at hrun hops
  have hwrite : s.run fuel (w.write va len (asid p)) = (.returned
      (loopResult 0 (text s.user va len.toNat)
        (failure w.ok s.statuses (text s.user va len.toNat).length)), s') := by
    rw [Writer.write, if_neg hpre, pOnDev_asid hw.sems]
    exact (run_call (c := .passeren _) (by simp) rfl).trans hrun
  rw [← loopResult_zero_iff (text s.user va len.toNat)]
  constructor
  · rintro ⟨_, _, h, -⟩
    exact Threads.Outcome.returned.inj (Prod.mk.inj (hwrite.symm.trans h)).1
  · intro h
    exact ⟨ops, s', hwrite.trans (by rw [← h]), hlog, hops⟩

/-! ## The reader -/

/-- What the receiver of a terminal returns: a code and a character. -/
structure Recv where
  code : Byte
  char : Byte

def Recv.word (r : Recv) : Word := (r.char ++ r.code).setWidth 32

/-- The line ends with a newline or a failure. -/
def Recv.Last (r : Recv) : Prop := r.code ≠ 5 ∨ r.char = 0x0A

omit [Umps] in
theorem Recv.word_code (r : Recv) : r.word &&& TERMSTATMASK = r.code.setWidth 32 := by
  have hmask : ∀ i : Fin 32, (0xFF : Word).getLsbD i = decide (i.val < 8) := by decide
  refine BitVec.eq_of_getLsbD_eq fun i hi => ?_
  rw [TERMSTATMASK, BitVec.getLsbD_and, hmask ⟨i, hi⟩, Recv.word, BitVec.getLsbD_setWidth,
    BitVec.getLsbD_setWidth, BitVec.getLsbD_append]
  by_cases h : i < 8
  · simp [h]
  · simp [h, BitVec.getLsbD_of_ge r.code i (by omega)]

omit [Umps] in
theorem Recv.word_char (r : Recv) : r.word >>> 8 = r.char.setWidth 32 := by
  refine BitVec.eq_of_getLsbD_eq fun i hi => ?_
  rw [BitVec.getLsbD_ushiftRight, Recv.word, BitVec.getLsbD_setWidth, BitVec.getLsbD_setWidth,
    BitVec.getLsbD_append, if_neg (by omega), Nat.add_sub_cancel_left]
  by_cases h : i < 24
  · simp [hi, show 8 + i < 32 by omega]
  · simp [BitVec.getLsbD_of_ge r.char i (by omega)]

omit [Umps] in
/-- The two tests of the loop. -/
theorem Recv.tests (r : Recv) :
    (r.word &&& TERMSTATMASK = OKCHARTRANS ↔ r.code = 5) ∧ (r.word >>> 8 = 0x0A ↔ r.char = 0x0A) ∧
      (r.word >>> 8).setWidth 8 = r.char := by
  have hinj : ∀ x y : Byte, x.setWidth 32 = y.setWidth 32 ↔ x = y := fun x y =>
    ⟨fun h => by simpa using congrArg (BitVec.setWidth 8) h, fun h => by rw [h]⟩
  rw [r.word_code, r.word_char]
  exact ⟨hinj r.code 5, hinj r.char 0x0A, by simp⟩

/-- The operations of the first `n` rounds. -/
def readOps (d : SubDev) (data0 va : Word) (line : Nat → Recv) (n : Nat) : List Io :=
  (List.range n).flatMap fun i =>
    [.doio d TRANSMITCHAR data0 (line i).word, .stored (va + BitVec.ofNat 32 i) (line i).char]

/-- The operations of the last round. -/
def lastOps (d : SubDev) (data0 va : Word) (r : Recv) : List Io :=
  if r.code = 5 then [.doio d TRANSMITCHAR data0 r.word, .stored va r.char]
  else [.doio d TRANSMITCHAR data0 r.word]

/-- The count, or the negative of the status that was a failure. -/
def readResult (r : Recv) (n : Nat) : Word :=
  if r.code = 5 then BitVec.ofNat 32 (n + 1) else - r.word

theorem operate_recv_data0 (cmdval : Word) :
    ((s.operate (.recv p) cmdval).mem.dev (.recv p)).data0 = (s.mem.dev (.recv p)).data0 := by
  have hcomplete : ∀ (m : Mem) (status : Word), (m.complete (.recv p) status).dev =
      Function.update m.dev (.recv p) { m.dev (.recv p) with status := READY } := fun _ _ => rfl
  rw [Session.operate, hcomplete, Function.update_self]
  simp only [Mem.setCommand, Function.update_self]

/-- A round that is not the last. -/
theorem run_readRound {r : Recv} (fuel : Nat) (va i : Word) (hr : s.statuses 0 = r.word) (h : ¬ r.Last) :
    ∃ s1 : Session, s.run fuel (readRound va i (asid p)) = (.returned (.inl (va + 1, i + 1)), s1) ∧
      s1.log = s.log ++ [.doio (.recv p) TRANSMITCHAR (s.mem.dev (.recv p)).data0 r.word,
        .stored va r.char] ∧
      s1.statuses = (fun j => s.statuses (j + 1)) ∧
      (s1.mem.dev (.recv p)).data0 = (s.mem.dev (.recv p)).data0 := by
  obtain ⟨hcode, hchar⟩ := not_or.mp h
  obtain ⟨hok, hnl, hbyte⟩ := r.tests
  refine ⟨(s.operate (.recv p) TRANSMITCHAR).store va r.char, ?_, ?_, rfl, operate_recv_data0 _⟩
  · rw [readRound, devNo_asid]
    refine (run_call_bind (c := .doio _ _) (by simp) rfl).trans ?_
    rw [hr, if_neg (not_not.mpr (hok.mpr (not_not.mp hcode))), hbyte]
    refine (run_call_bind (c := .store _ _) (by simp) rfl).trans ?_
    rw [if_pos fun e => hchar (hnl.mp e)]
    rfl
  · simp [Session.store, Session.operate, hr]

/-- The last round. -/
theorem run_readRound_last {r : Recv} (fuel : Nat) (va i : Word) (hr : s.statuses 0 = r.word) (h : r.Last) :
    ∃ s1 : Session, s.run fuel (readRound va i (asid p)) =
        (.returned (.inr (if r.code = 5 then i + 1 else - r.word)), s1) ∧
      s1.log = s.log ++ lastOps (.recv p) (s.mem.dev (.recv p)).data0 va r ++
        [.verhogen (.dev 4 p)] := by
  obtain ⟨hok, hnl, hbyte⟩ := r.tests
  have hstart : s.run fuel (readRound va i (asid p)) =
      (s.operate (.recv p) TRANSMITCHAR).run fuel (
        if r.word &&& TERMSTATMASK ≠ OKCHARTRANS then do
          call (.verhogen (.dev 4 p))
          return .inr (- r.word)
        else do
          call (.store va ((r.word >>> 8).setWidth 8))
          if r.word >>> 8 ≠ 0x0A then return .inl (va + 1, i + 1)
          else
            call (.verhogen (.dev 4 p))
            return .inr (i + 1)) := by
    rw [readRound, devNo_asid, vOnDev_asid (by decide), ← hr]
    exact run_call_bind (c := .doio _ _) (by simp) rfl
  rw [hstart]
  by_cases hcode : r.code = 5
  · rw [if_neg (not_not.mpr (hok.mpr hcode)), hbyte, if_pos hcode]
    refine ⟨((s.operate (.recv p) TRANSMITCHAR).store va r.char).note (.verhogen (.dev 4 p)), ?_, ?_⟩
    · refine (run_call_bind (c := .store _ _) (by simp) rfl).trans ?_
      rw [if_neg (not_not.mpr (hnl.mpr (h.resolve_left (not_not.mpr hcode))))]
      exact run_call_bind (c := .verhogen _) (by simp) rfl
    · rw [lastOps, if_pos hcode]
      simp [Session.note, Session.store, Session.operate, hr]
  · rw [if_pos fun e => hcode (hok.mp e), if_neg hcode]
    refine ⟨(s.operate (.recv p) TRANSMITCHAR).note (.verhogen (.dev 4 p)), ?_, ?_⟩
    · exact run_call_bind (c := .verhogen _) (by simp) rfl
    · rw [lastOps, if_neg hcode]
      simp [Session.note, Session.operate, hr]

omit [Umps] in
/-- One round before the others. -/
theorem readOps_succ (d : SubDev) (data0 va : Word) (line : Nat → Recv) (n : Nat) :
    readOps d data0 va line (n + 1) =
      [.doio d TRANSMITCHAR data0 (line 0).word, .stored va (line 0).char] ++
        readOps d data0 (va + 1) (fun i => line (i + 1)) n := by
  have haddr : ∀ j, va + BitVec.ofNat 32 (j + 1) = va + 1 + BitVec.ofNat 32 j := fun j => by
    simp only [BitVec.ofNat_add]
    ac_rfl
  have hzero : va + BitVec.ofNat 32 0 = va := BitVec.add_zero _
  simp only [readOps, List.range_succ_eq_map, List.flatMap_cons, List.flatMap_map, hzero,
    Nat.succ_eq_add_one, haddr]

/-- The loop, for a line whose last status is the one with number `n`. -/
theorem handle_readLoop {n : Nat} : ∀ (fuel : Nat) (va i : Word) (s : Session) (line : Nat → Recv),
    s.statuses = (fun j => (line j).word) → (line n).Last → (∀ j < n, ¬ (line j).Last) → n < fuel →
    ∃ s', Session.handle fuel (.call (.readLoop va i (asid p))) s =
        (some (if (line n).code = 5 then i + BitVec.ofNat 32 (n + 1) else - (line n).word), s') ∧
      s'.log = s.log ++ readOps (.recv p) (s.mem.dev (.recv p)).data0 va line n ++
        lastOps (.recv p) (s.mem.dev (.recv p)).data0 (va + BitVec.ofNat 32 n) (line n) ++
        [.verhogen (.dev 4 p)] := by
  induction n with
  | zero =>
    intro fuel va i s line hs hlast _ hfuel
    obtain ⟨fuel, rfl⟩ := Nat.exists_eq_succ_of_ne_zero (Nat.ne_of_gt hfuel)
    obtain ⟨s1, hrun, hlog⟩ := run_readRound_last (p := p) fuel va i
      (congrFun hs 0) hlast
    refine ⟨s1, ?_, ?_⟩
    · exact readLoop_done hrun
    · rw [hlog]
      simp [readOps]
  | succ n ih =>
    intro fuel va i s line hs hlast hfirst hfuel
    obtain ⟨fuel, rfl⟩ := Nat.exists_eq_succ_of_ne_zero (Nat.ne_of_gt (Nat.zero_lt_of_lt hfuel))
    obtain ⟨s1, hrun, hlog, hstatuses, hdata⟩ := run_readRound (p := p) fuel va i
      (congrFun hs 0) (hfirst 0 n.succ_pos)
    obtain ⟨s', hloop, hlog'⟩ := ih fuel (va + 1) (i + 1) s1 (fun j => line (j + 1))
      (by rw [hstatuses, hs]) hlast
      (fun j hj => hfirst (j + 1) (Nat.succ_lt_succ hj)) (Nat.lt_of_succ_lt_succ hfuel)
    have hcount : i + BitVec.ofNat 32 (n + 1 + 1) = i + 1 + BitVec.ofNat 32 (n + 1) := by
      simp only [BitVec.ofNat_add]
      ac_rfl
    have haddr : va + BitVec.ofNat 32 (n + 1) = va + 1 + BitVec.ofNat 32 n := by
      simp only [BitVec.ofNat_add]
      ac_rfl
    refine ⟨s', ?_, ?_⟩
    · rw [hcount]
      exact (readLoop_again hrun).trans hloop
    · rw [hlog', hlog, hdata, readOps_succ, haddr]
      simp only [List.append_assoc]

/-- The service stores the characters of the line up to the first newline or failure at consecutive
    addresses, and returns their number or the negative of the status. Its semaphore is taken once
    and released once. -/
def ReaderCorrect (p : Uproc) (va : Word) (line : Nat → Recv) (n : Nat) (s : Session) (fuel : Nat) :
    Prop :=
  ∃ s', s.run fuel (readFromTerminal va (asid p)) = (.returned (readResult (line n) n), s') ∧
    s'.log = s.log ++ [.passeren (.dev 4 p)] ++
      readOps (.recv p) (s.mem.dev (.recv p)).data0 va line n ++
      lastOps (.recv p) (s.mem.dev (.recv p)).data0 (va + BitVec.ofNat 32 n) (line n) ++
      [.verhogen (.dev 4 p)]

theorem readFromTerminal_correct {line : Nat → Recv} {n : Nat}
    (hline : s.statuses = fun i => (line i).word) (hlast : (line n).Last)
    (hfirst : ∀ i < n, ¬ (line i).Last) (hva : KUSEG ≤ va) (hfuel : n < fuel) :
    ReaderCorrect p va line n s fuel := by
  obtain ⟨s', hloop, hlog⟩ := handle_readLoop (p := p) fuel va 0
    (s.note (.passeren (.dev 4 p))) line hline hlast hfirst hfuel
  refine ⟨s', ?_, hlog⟩
  rw [readFromTerminal, if_neg (BitVec.not_lt.mpr hva), pOnDev_asid (by decide)]
  refine (run_call_bind (c := .passeren _) (by simp) rfl).trans ?_
  refine (run_answer (h := Session.handle fuel) hloop).trans ?_
  rw [show (0 : Word) + BitVec.ofNat 32 (n + 1) = _ from BitVec.zero_add _]
  rfl

/-! ## The three services -/

/-- If an operation of the writer fails, it ends with the status READY. -/
def Writer.FailsReady (w : Writer) (va len : Word) (s : Session) : Prop :=
  ∀ i, failure w.ok s.statuses (text s.user va len.toNat).length = some i → s.statuses i = READY

/-- For every buffer of the user, the writers are correct if and only if no operation fails, or the
    one that does ends with the status READY; `read_from_terminal` is correct on every line. -/
theorem services_correct_iff (p : Uproc) (s : Session) (hva : KUSEG ≤ va) :
    (∀ len fuel, ¬ (128 : Word).slt len → ¬ len.slt 0 →
      (printer.Correct (.dev 3 p) p va len s fuel ↔ printer.FailsReady va len s) ∧
      (terminal.Correct (.dev 5 p) p va len s fuel ↔ terminal.FailsReady va len s)) ∧
    (∀ line n fuel, s.statuses = (fun i => (line i).word) → (line n).Last →
      (∀ i < n, ¬ (line i).Last) → n < fuel → ReaderCorrect p va line n s fuel) :=
  ⟨fun _ _ hlen hneg => ⟨Writer.correct_iff printer_good hlen hneg hva,
    Writer.correct_iff terminal_good hlen hneg hva⟩,
    fun _ _ _ hline hlast hfirst hfuel => readFromTerminal_correct hline hlast hfirst hva hfuel⟩

/-- A session whose buffer is all `A`, and all of whose operations end with `status`. -/
def sampleSession (status : Word) : @Session sampleUmps :=
  letI := sampleUmps
  { mem := sampleMem, user := fun _ => 0x41, now := 0, statuses := fun _ => status, log := [] }

omit [Umps] in
theorem services_correct_iff_string :
    letI := sampleUmps
    (∀ len fuel, ¬ (128 : Word).slt len → ¬ len.slt 0 →
      (printer.Correct (.dev 3 0) 0 KUSEG len (sampleSession READY) fuel ↔
        printer.FailsReady KUSEG len (sampleSession READY)) ∧
      (terminal.Correct (.dev 5 0) 0 KUSEG len (sampleSession READY) fuel ↔
        terminal.FailsReady KUSEG len (sampleSession READY))) ∧
    (∀ line n fuel, (sampleSession READY).statuses = (fun i => (line i).word) → (line n).Last →
      (∀ i < n, ¬ (line i).Last) → n < fuel →
        ReaderCorrect 0 KUSEG line n (sampleSession READY) fuel) :=
  letI := sampleUmps
  services_correct_iff 0 _ (by decide)

omit [Umps] in
/-- The first character fails with the status 4; the service returns -1. -/
theorem printer_wrong_status :
    letI := sampleUmps
    ¬ printer.Correct (.dev 3 0) 0 KUSEG 1 (sampleSession 4) 0 := by
  let _ := sampleUmps
  have hrun : (match ((sampleSession 4).run 0 (printer.write KUSEG 1 (asid 0))).1 with
      | .returned r => decide (r = - READY)
      | .ended _ => false) = true := by decide +kernel
  have hne : ¬ writeResult (text (sampleSession 4).user KUSEG 1) (sampleSession 4).statuses
      (failure printer.ok (sampleSession 4).statuses
        (text (sampleSession 4).user KUSEG 1).length) = - READY := by decide +kernel
  rintro ⟨_, _, h, -⟩
  rw [h] at hrun
  exact hne (of_decide_eq_true hrun)

end Rocm
