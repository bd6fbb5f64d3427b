import Rocm.Support.Stages

/-!
# The handlers follow the protocol

Function by function: from which stage to which the code of the support level leads, whatever the
answers to its commands are.
-/

namespace Rocm

open Threads

variable {p : Uproc}

/-! ## Devices and semaphores -/

theorem asid_sub_one (p : Uproc) : (asid p - 1).toNat = p.val := by
  revert p
  decide

theorem devSem_asid {type : Nat} (h : type < DEVINTNUM + 1) (p : Uproc) :
    devSem type (asid p - 1) = .ret (.dev ⟨type, h⟩ p) := by
  have hp : (asid p - 1).toNat < DEVPERINT := by
    rw [asid_sub_one]
    exact p.isLt
  have hno : (⟨(asid p - 1).toNat, hp⟩ : Fin 8) = p := Fin.ext (asid_sub_one p)
  rw [devSem, if_neg (by omega), dif_pos hp, dif_pos h, hno]
  rfl

theorem pOnDev_asid {type : Nat} (h : type < DEVINTNUM + 1) (p : Uproc) :
    pOnDev type (asid p - 1) = call (.passeren (.dev ⟨type, h⟩ p)) := by
  rw [pOnDev, devSem_asid h]
  rfl

theorem vOnDev_asid {type : Nat} (h : type < DEVINTNUM + 1) (p : Uproc) :
    vOnDev type (asid p - 1) = call (.verhogen (.dev ⟨type, h⟩ p)) := by
  rw [vOnDev, devSem_asid h]
  rfl

theorem devNo_asid (p : Uproc) : devNo (asid p) = p := by
  revert p
  decide

theorem flashIo_asid (p : Uproc) (blkNo data cmd : Word) :
    flashIo (asid p) blkNo data cmd = do
      call (.passeren (flashSem p))
      act (.setData0 (flashDev p) data)
      let devStat ← call (.doio (flashDev p) (blkNo <<< 8 ||| cmd))
      call (.verhogen (flashSem p))
      return devStat := by
  rw [flashIo, pOnDev_asid (by decide), vOnDev_asid (by decide), devNo_asid]
  rfl

/-! ## The pager -/

section Pager

variable [Umps] {g : Option GenStage} {sup : SupportT} {f : Frame}

theorem follows_writeToFlash {x : Uproc × Page} {e : PteEntry} :
    Follows (protocol p)
      (fun status S => S = ⟨g, some (if status = READY then .saved sup f else .cleared sup f)⟩)
      (writeToFlash (asid p) (pageIndex e.entryHI) (Umps.entryloGetPfn e.entryLO))
      ⟨g, some (.saving sup f x e .start)⟩ := by
  rw [writeToFlash, flashIo_asid]
  exact ⟨rfl, fun _ _ => ⟨⟨rfl, rfl⟩, fun _ _ => ⟨⟨rfl, rfl⟩, fun _ _ => ⟨rfl, fun _ _ => rfl⟩⟩⟩⟩

theorem follows_readFromFlash :
    Follows (protocol p)
      (fun status S => S = ⟨g, some (if status = READY then .loaded sup f else .failed sup f)⟩)
      (readFromFlash (asid p) (pageIndex sup.faultHi) (frameAddr f))
      ⟨g, some (.cleared sup f)⟩ := by
  rw [readFromFlash, flashIo_asid]
  exact ⟨rfl, fun _ _ => ⟨⟨rfl, rfl⟩, fun _ _ => ⟨⟨rfl, rfl⟩, fun _ _ => ⟨rfl, fun _ _ => rfl⟩⟩⟩⟩

theorem follows_freeFrame :
    Follows (protocol p) (fun _ S => S = ⟨g, some (.cleared sup f)⟩) (freeFrame f (asid p))
      ⟨g, some (.victim sup f)⟩ := by
  refine ⟨rfl, fun x _ => ⟨rfl, fun _ _ => ⟨rfl, fun e _ => ?_⟩⟩⟩
  refine follows_writeToFlash.bind fun status S hS => ?_
  subst hS
  by_cases h : status = READY
  · simp only [h, ne_eq, not_true_eq_false, if_false, if_true]
    exact ⟨rfl, fun _ _ => rfl⟩
  · simp only [h, ne_eq, not_false_eq_true, if_true, if_false]
    exact rfl

/-- The pager returns to its caller only after a read that failed. -/
theorem follows_tlbExcHandler :
    Follows (protocol p) (fun _ S => ∃ sup f, S = ⟨g, some (.failed sup f)⟩) (tlbExcHandler p)
      ⟨g, some .entry⟩ := by
  refine ⟨rfl, fun sup hsup => ?_⟩
  have hasid : sup.supAsid = asid p := hsup
  change Follows _ _ (if _ then _ else _) _
  split
  · next hmod => exact ⟨hmod, nofun⟩
  · next hmod =>
    refine ⟨⟨rfl, hmod⟩, fun _ _ => ⟨trivial, fun f _ => ⟨rfl, fun usable _ => ?_⟩⟩⟩
    have hread : ∀ S, S = ⟨g, some (.cleared sup f)⟩ →
        Follows (protocol p) (fun _ S => ∃ sup f, S = ⟨g, some (.failed sup f)⟩)
          (do
            let devStat ← readFromFlash sup.supAsid (pageIndex sup.faultHi) (frameAddr f)
            if devStat ≠ READY then return
            if h : (pageIndex sup.faultHi).toNat < USERPGTBLSIZE then
              act (.install p f ⟨(pageIndex sup.faultHi).toNat, h⟩)
              call (.verhogen .spSem)
              exit (.ldst 0) Call.ldst_zero_res
            else exit .wild Call.wild_res) S := by
      rintro S rfl
      rw [hasid]
      refine follows_readFromFlash.bind fun status S hS => ?_
      subst hS
      by_cases h : status = READY
      · simp only [h, ne_eq, not_true_eq_false, if_false, if_true]
        split
        · exact ⟨⟨rfl, rfl, rfl⟩, fun _ _ => ⟨rfl, fun _ _ => ⟨rfl, nofun⟩⟩⟩
        · next hi => exact ⟨Nat.le_of_not_lt hi, nofun⟩
      · simp only [h, ne_eq, not_false_eq_true, if_true, if_false]
        exact ⟨sup, f, rfl⟩
    cases usable with
    | false => exact hread _ rfl
    | true =>
      change Follows _ _ (freeFrame f sup.supAsid >>= fun _ => _) _
      rw [hasid]
      refine follows_freeFrame.bind fun _ S hS => ?_
      have := hread S hS
      rwa [hasid] at this

end Pager

/-! ## The general handler -/

theorem cleanFrames_asid (p : Uproc) :
    cleanFrames (asid p) = (do
      let spAsids ← act .loadAsids
      act (.storeAsids (spAsids ^^^ Mem.asidBit (asid p)))) := by
  have h : ¬ ((asid p).toNat > 8 ∨ asid p = 0) := by
    revert p
    decide
  rw [cleanFrames, if_neg h]

/-- What `write_to_printer` and `write_to_terminal` fulfil. -/
structure Writer.Ok (w : Writer) (p : Uproc) : Prop where
  lt : w.sems < DEVINTNUM + 1
  mem : Sem.dev ⟨w.sems, lt⟩ p ∈ serviceSems p
  dev : ∀ no q, w.dev no ≠ flashDev q
  no : ∀ no, (w.dev no).no = no
  mutex : ∀ no, (w.dev no).mutex = .dev ⟨w.sems, lt⟩ no
  cmd : ∀ c, w.cmdval c ≠ ACK

/-- A command of a terminal is no acknowledgement. -/
theorem transmit_ne (c : Word) : c <<< 8 ||| TRANSMITCHAR ≠ ACK := by
  intro h
  have hbit := congrArg (·.getLsbD 1) h
  simp [TRANSMITCHAR, ACK] at hbit

theorem printer_ok (p : Uproc) : printer.Ok p := by
  refine ⟨by decide, ?_, fun no q h => ?_, fun _ => rfl, fun _ => rfl, fun _ => ?_⟩
  · exact List.mem_cons_self
  · have : (3 : Fin 4) = 1 := (SubDev.dtp.inj h).1
    exact absurd this (by decide)
  · exact (by decide : TRANSMITCHAR ≠ ACK)

theorem terminal_ok (p : Uproc) : terminal.Ok p :=
  ⟨by decide, List.mem_cons_of_mem _ (List.mem_cons_of_mem _ List.mem_cons_self), nofun,
    fun _ => rfl, fun _ => rfl, transmit_ne⟩

section General

variable [Umps] {sup : SupportT}

/-- The general handler is in a stage, and the pager is not active. -/
abbrev inGen (g : GenStage) : Stage := ⟨some g, none⟩

theorem follows_terminate {α : Type} {Q : α → Stage → Prop} (ht : sup.IsTerminate) :
    Follows (protocol p) Q (terminate (asid p)) (inGen (.plain sup)) := by
  rw [terminate, cleanFrames_asid]
  exact ⟨ht, fun _ _ => ⟨rfl, fun _ _ => ⟨trivial, nofun⟩⟩⟩

variable {w : Writer}

omit [Umps] in
theorem Writer.Ok.serviceDev (hw : w.Ok p) :
    ServiceDev p (.dev ⟨w.sems, hw.lt⟩ p) (w.dev (devNo (asid p))) := by
  rw [devNo_asid]
  exact ⟨hw.no p, hw.mutex p, hw.dev p⟩

theorem Writer.Ok.loop (hw : w.Ok p) (virtAddr : Word) (n i : Nat) :
    Follows (protocol p) (fun _ S => S = inGen (.plain sup)) (w.loop virtAddr (asid p) i n)
      (inGen (.holding sup (.dev ⟨w.sems, hw.lt⟩ p))) := by
  induction n generalizing i with
  | zero =>
    rw [Writer.loop, vOnDev_asid hw.lt]
    exact ⟨rfl, fun _ _ => rfl⟩
  | succ n ih =>
    rw [Writer.loop, vOnDev_asid hw.lt]
    refine ⟨trivial, fun c _ => ?_⟩
    have hrest : Follows (protocol p) (fun _ S => S = inGen (.plain sup)) (do
        let c' ← call (.load (virtAddr + BitVec.ofNat 32 i))
        if c' = 0 then
          call (.verhogen (.dev ⟨w.sems, hw.lt⟩ p))
          return BitVec.ofNat 32 i
        else
          let status ← call (.doio (w.dev (devNo (asid p))) (w.cmdval (charVal c)))
          if w.ok status then w.loop virtAddr (asid p) (i + 1) n
          else
            call (.verhogen (.dev ⟨w.sems, hw.lt⟩ p))
            return - (← act (.status (w.dev (devNo (asid p))))))
        (inGen (.holding sup (.dev ⟨w.sems, hw.lt⟩ p))) := by
      refine ⟨trivial, fun c' _ => ?_⟩
      change Follows _ _ (if _ then _ else _) _
      split
      · exact ⟨rfl, fun _ _ => rfl⟩
      · refine ⟨⟨hw.serviceDev, hw.cmd _⟩, fun status _ => ?_⟩
        change Follows _ _ (if _ then _ else _) _
        split
        · exact ih (i + 1)
        · exact ⟨rfl, fun _ _ => ⟨hw.serviceDev.no, fun _ _ => rfl⟩⟩
    change Follows _ _ (if w.viaData0 then _ else _) _
    split
    · exact ⟨hw.serviceDev, fun _ _ => hrest⟩
    · exact hrest

theorem Writer.Ok.write (hw : w.Ok p) (virtAddr len : Word) (ht : ¬ sup.IsTerminate) :
    Follows (protocol p) (fun _ S => S = inGen (.plain sup)) (w.write virtAddr len (asid p))
      (inGen (.plain sup)) := by
  rw [Writer.write]
  split
  · exact ⟨ht, nofun⟩
  · rw [pOnDev_asid hw.lt]
    exact ⟨⟨hw.mem, ht⟩, fun _ _ => hw.loop virtAddr _ 0⟩

/-- Where the loop of `read_from_terminal` goes on the semaphore is held. -/
theorem follows_readRound (virtAddr i : Word) :
    Follows (protocol p)
      (fun x S => S = x.elim (fun _ => inGen (.holding sup (.dev 4 p)))
        fun _ => inGen (.plain sup))
      (readRound virtAddr i (asid p)) (inGen (.holding sup (.dev 4 p))) := by
  have hdev : ServiceDev p (.dev 4 p) (.recv (devNo (asid p))) := by
    rw [devNo_asid]
    exact ⟨rfl, rfl, nofun⟩
  rw [readRound, vOnDev_asid (by decide)]
  refine ⟨⟨hdev, by decide⟩, fun status _ => ?_⟩
  change Follows _ _ (if _ then _ else _) _
  split
  · exact ⟨rfl, fun _ _ => rfl⟩
  · refine ⟨trivial, fun _ _ => ?_⟩
    change Follows _ _ (if _ then _ else _) _
    split
    · exact rfl
    · exact ⟨rfl, fun _ _ => rfl⟩

theorem follows_readFromTerminal (virtAddr : Word) (ht : ¬ sup.IsTerminate) :
    Follows (protocol p) (fun _ S => S = inGen (.plain sup)) (readFromTerminal virtAddr (asid p))
      (inGen (.plain sup)) := by
  rw [readFromTerminal]
  split
  · exact ⟨ht, nofun⟩
  · rw [pOnDev_asid (by decide)]
    refine ⟨⟨?_, ht⟩, fun _ _ => ⟨⟨rfl, rfl⟩, fun _ _ => rfl⟩⟩
    exact List.mem_cons_of_mem _ List.mem_cons_self

/-- A service that returns is not SYS2. -/
theorem follows_service (hasid : sup.supAsid = asid p)
    (hsys : CAUSE_GET_EXCCODE (sup.supExceptState GENERALEXCEPT).cause = EXC_SYS) :
    Follows (protocol p) (fun _ S => S = inGen (.plain sup) ∧ ¬ sup.IsTerminate) (service sup)
      (inGen (.plain sup)) := by
  have hnot : (sup.supExceptState GENERALEXCEPT).gpr regA0 ≠ TERMINATE → ¬ sup.IsTerminate :=
    fun hn ht => hn ht.2
  rw [service, hasid]
  split
  · next h => exact ⟨trivial, fun _ _ => ⟨rfl, hnot (by rw [h]; decide)⟩⟩
  · split
    · next h => exact follows_terminate ⟨hsys, h⟩
    · next ht =>
      split
      · exact ((printer_ok p).write _ _ (hnot ht)).mono fun _ _ hS => ⟨hS, hnot ht⟩
      · split
        · exact ((terminal_ok p).write _ _ (hnot ht)).mono fun _ _ hS => ⟨hS, hnot ht⟩
        · split
          · exact (follows_readFromTerminal _ (hnot ht)).mono fun _ _ hS => ⟨hS, hnot ht⟩
          · exact ⟨hnot ht, nofun⟩

/-- The general handler does not return to its caller. -/
theorem follows_supportExecHandler :
    Follows (protocol p) (fun _ _ => False) (supportExecHandler p) (inGen .entry) := by
  refine ⟨rfl, fun sup hsup => ?_⟩
  change Follows _ _ (if _ then _ else _) _
  split
  · next hsys =>
    rw [supportSyscallHandler]
    refine (follows_service hsup hsys).bind ?_
    rintro ret S ⟨rfl, ht⟩
    exact ⟨rfl, fun _ _ => ⟨⟨rfl, rfl, ht⟩, fun _ _ => ⟨rfl, nofun⟩⟩⟩
  · next hsys => exact ⟨fun ht => hsys ht.1, nofun⟩

end General

end Rocm
