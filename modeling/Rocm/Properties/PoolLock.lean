import Rocm.Properties.HandlerSafety
import Rocm.Properties.SupportLocks

/-!
# How long a pager waits for the swap pool

Nobody waits for a semaphore other than `sp_sem`, and its owner is never stopped by anybody: it can
take its next step, or its flash device is at work. From the P to the V the owner takes a bounded
number of steps, so that whoever waits has its turn after a bounded number of steps of the owners
before it, however often the other processes run.
-/

namespace Rocm

open Runs LockOrder

variable [Umps]

/-! ## The steps that are left to the owner -/

/-- The steps to the V on the semaphore of the flash. -/
def IoStage.left (w : Wait) : IoStage → Nat
  | .start => 5
  | .locked => 4
  | .ready => if w = .io then 2 else 3
  | .done _ => 1

/-- The steps to the V on `sp_sem`, at most. -/
def TlbStage.left (w : Wait) : TlbStage → Nat
  | .entry => 20
  | .started _ => 19
  | .locked _ => 18
  | .chosen _ _ => 17
  | .victim _ _ => 16
  | .victimAt _ _ _ => 15
  | .invalid _ _ _ => 14
  | .saving _ _ _ _ io => 8 + io.left w
  | .saved _ _ => 8
  | .cleared _ _ => 7
  | .loading _ _ io => 2 + io.left w
  | .loaded _ _ => 2
  | .failed _ _ => 0
  | .installed => 1
  | .released => 0

variable {a a' : Abs} {d : Did} {p q h : Uproc} {t t' : TlbStage}

section Left

omit [Umps]

theorem IoStage.left_le (io : IoStage) (w : Wait) : io.left w ≤ 5 := by
  cases io with
  | ready =>
    rw [IoStage.left]
    split <;> decide
  | _ => simp [IoStage.left]

theorem TlbStage.left_congr {w w' : Wait} (hw : w' = .io ↔ w = .io) : t.left w' = t.left w := by
  have hio : ∀ io : IoStage, io.left w' = io.left w := fun io => by
    cases io with
    | ready => simp only [IoStage.left, hw]
    | _ => rfl
  cases t with
  | saving => exact congrArg _ (hio _)
  | loading => exact congrArg _ (hio _)
  | _ => rfl

/-- A pager that has `sp_sem` has taken its P. -/
theorem TlbStage.left_le {w : Wait} (ht : Sem.spSem ∈ t.held p) : t.left w ≤ 18 := by
  cases t with
  | entry => cases ht
  | started => cases ht
  | saving sup f x e io => exact (Nat.add_le_add_left (io.left_le w) 8).trans (by decide)
  | loading sup f io => exact (Nat.add_le_add_left (io.left_le w) 2).trans (by decide)
  | _ => simp [TlbStage.left]

/-- A status by which an operation of the flash has ended. -/
theorem TlbStage.left_status {sup : SupportT} {f : Frame} (status : Word) (w : Wait) :
    (if status = READY then saved sup f else cleared sup f).left w ≤ 8 ∧
      (if status = READY then loaded sup f else failed sup f).left w ≤ 2 := by
  constructor <;> split <;> simp [TlbStage.left]

/-! Every step lowers the number. -/

theorem TlbStage.left_passeren {s : Sem} (hc : t.CallOf p (.passeren s)) :
    (t.next (.call (.passeren s)) ()).left .ready < t.left .ready := by
  cases hc <;> exact Nat.lt_succ_self _

theorem TlbStage.left_verhogen {s : Sem} (hc : t.CallOf p (.verhogen s)) :
    (t.next (.call (.verhogen s)) ()).left .ready < t.left .ready := by
  cases hc with
  | @saveUnlock sup f x e status =>
    rw [TlbStage.next_saved]
    exact Nat.lt_succ_of_le (TlbStage.left_status status _).1
  | @loadUnlock sup f status =>
    rw [TlbStage.next_read]
    exact Nat.lt_succ_of_le (TlbStage.left_status status _).2
  | unlock => exact Nat.lt_succ_self _

theorem TlbStage.left_doio {e : SubDev} {v : Word} (hc : t.CallOf p (.doio e v)) :
    t.left .io < t.left .ready ∧
      ∀ r, (t.next (.call (.doio e v)) r).left .ready < t.left .io := by
  cases hc <;> exact ⟨Nat.lt_succ_self _, fun r => Nat.lt_succ_self _⟩

end Left

theorem TlbStage.left_act {x : Act} (hx : t.ActOf p x) (r : x.Res) :
    (t.next (.act x) r).left .ready < t.left .ready := by
  cases hx with
  | usable =>
    rw [TlbStage.next_usable]
    split <;> simp [TlbStage.left]
  | _ => exact Nat.lt_succ_self _

/-! While the pager is there, what is done is done by it. -/

theorem Stage.actOf {S : Stage} (ht : S.tlb = some t) {x : Act} (hx : S.allows p (.act x)) :
    t.ActOf p x := by
  rcases Stage.allows_act hx with ⟨t', ht', hx⟩ | ⟨g, rfl, -⟩
  · obtain rfl := Option.some.inj (ht.symm.trans ht')
    exact hx
  · cases ht

theorem Stage.callOf {S : Stage} (ht : S.tlb = some t) {c : Call} (hc : S.allows p (.call c)) :
    t.CallOf p c := by
  rcases Stage.allows_call hc with ⟨t', ht', hc⟩ | ⟨g, rfl, -⟩
  · obtain rfl := Option.some.inj (ht.symm.trans ht')
    exact hc
  · cases ht

omit [Umps] in
theorem Stage.tlb_of_usesMemory {S : Stage} (hS : S.usesMemory) : S.tlb = none := by
  rcases hS with rfl | ⟨sup, s, rfl⟩ <;> rfl

/-- The steps that the pager of `h` has left. -/
def Abs.left (a : Abs) (h : Uproc) : Nat := (a.stage h).tlb.elim 0 (TlbStage.left (a.wait h))

theorem Abs.left_eq (ht : (a.stage h).tlb = some t) : a.left h = t.left (a.wait h) := by
  rw [Abs.left, ht]
  rfl

theorem Abs.left_congr (hs : a'.stage h = a.stage h) (hw : a'.wait h = .io ↔ a.wait h = .io) :
    a'.left h = a.left h := by
  rw [Abs.left, Abs.left, hs]
  cases (a.stage h).tlb with
  | none => rfl
  | some t => exact TlbStage.left_congr hw

omit [Umps] in
/-- The owner of `sp_sem` is in its pager. -/
theorem Sane.owner {S : Stage} {saved : Fin 2 → ProcState} (hS : Sane p S saved)
    (hm : Sem.spSem ∈ S.held p) : ∃ t, S.tlb = some t ∧ Sem.spSem ∈ t.held p := by
  rcases List.mem_append.mp hm with hm | hm
  · cases ht : S.tlb with
    | some t =>
      rw [ht] at hm
      exact ⟨t, rfl, hm⟩
    | none =>
      rw [ht] at hm
      cases hm
  · cases hS.rank_gen _ hm

/-- Nobody enters or leaves an operation of a device with a P or a V. -/
theorem Abs.semOp_io (hl : a.Locked) (hp : a.wait p = .ready) (s : Sem) (op : Semaphore.Op)
    (S : Stage) (q : Uproc) : (a.semOp p s op S).wait q = .io ↔ a.wait q = .io := by
  refine ⟨a.waitAfter_io s op, fun hq => ?_⟩
  have hne : ∀ {r w}, a.wait r = w → w ≠ .io → q ≠ r := by
    rintro r w hr hw rfl
    exact hw (hr.symm.trans hq)
  rcases a.semOp_cases hl s op S (p := p) with ⟨-, hwait, -⟩ | ⟨-, w, ws, -, hw, hwait, -⟩ |
    ⟨-, -, hwait, -⟩
  · rwa [hwait, Function.update_of_ne (hne hp (by simp))]
  · rwa [hwait, Function.update_of_ne (hne hw (by simp))]
  · rwa [hwait]

theorem Abs.setWait_wait_ne {w : Wait} (hq : q ≠ p) : (a.setWait p w).wait q = a.wait q :=
  Function.update_of_ne hq ..

/-! ## A step of the owner, a step of another process -/

theorem Move.left_other (hm : Move a d a') (hl : a.Locked) (hd : d.actor ≠ some h) :
    a'.left h = a.left h := by
  have hne : ∀ {p}, some p ≠ some h → h ≠ p := fun hp he => hp (congrArg some he.symm)
  cases hm with
  | fault => exact Abs.left_congr (Abs.setStage_stage_ne (hne hd)) .rfl
  | trap => exact Abs.left_congr (Abs.setStage_stage_ne (hne hd)) .rfl
  | again => exact Abs.left_congr (Abs.setStage_stage_ne (hne hd)) .rfl
  | act => exact Abs.left_congr (Abs.setStage_stage_ne (hne hd)) .rfl
  | passeren s hw =>
    exact Abs.left_congr (Function.update_of_ne (hne hd) ..) (a.semOp_io hl hw s .passeren _ h)
  | verhogen s hw =>
    exact Abs.left_congr (Function.update_of_ne (hne hd) ..) (a.semOp_io hl hw s .verhogen _ h)
  | issue => exact Abs.left_congr rfl (by rw [Abs.setWait_wait_ne (hne hd), Abs.setMem])
  | ended =>
    refine Abs.left_congr (Abs.setStage_stage_ne (hne hd)) ?_
    change Function.update a.wait _ .ready h = .io ↔ _
    rw [Function.update_of_ne (hne hd)]
  | die => exact Abs.left_congr rfl (by rw [Abs.setWait_wait_ne (hne hd)])
  | resume => exact Abs.left_congr (Abs.setStage_stage_ne (hne hd)) .rfl
  | finish => exact Abs.left_congr (Abs.setStage_stage_ne (hne hd)) .rfl
  | _ => rfl

/-- While it has `sp_sem`, a process does nothing but go on with its pager. -/
theorem Move.left_owner (hm : Move a d a') (hl : a.Locked) (ht : (a.stage h).tlb = some t)
    (hheld : Sem.spSem ∈ t.held h) (hd : d.actor = some h)
    (hgave : ∀ c, d = .gave h c → (a.stage h).allows h c) : a'.left h < a.left h := by
  have hmem : ∀ {P : Prop}, (a.stage h).usesMemory → P := fun hS => by
    rw [Stage.tlb_of_usesMemory hS] at ht
    cases ht
  have hnext : ∀ {c : Cmd} {r : c.Res} {w : Wait} {b : Abs}, b.stage h = (a.stage h).next c r →
      (b.wait h = .io ↔ w = .io) → b.left h = (t.next c r).left w := fun hs hw => by
    rw [Abs.left_eq ((congrArg Stage.tlb hs).trans (Stage.next_tlb ht _ _))]
    exact TlbStage.left_congr hw
  have hready : a.wait h = .ready → a.left h = t.left .ready := fun hw => by
    rw [Abs.left_eq ht, hw]
  cases hm with
  | quiet => cases hd
  | loaded _ hS => cases hd; exact hmem hS
  | stored _ hS => cases hd; exact hmem hS
  | refill _ _ hS => cases hd; exact hmem hS
  | fault _ hS => cases hd; exact hmem hS
  | trap _ hS => cases hd; rw [hS] at ht; cases ht
  | again _ hS => cases hd; rw [hS] at ht; cases ht
  | finish _ hS => cases hd; rw [hS] at ht; cases ht
  | stck => cases hd; cases Stage.callOf ht (hgave _ rfl)
  | readLoop => cases hd; cases Stage.callOf ht (hgave _ rfl)
  | act x hw hx =>
    cases hd
    rw [hready hw, hnext (w := .ready) Abs.setStage_stage (by change a.wait h = _ ↔ _; rw [hw])]
    exact TlbStage.left_act (Stage.actOf ht hx) _
  | passeren s hw hc =>
    cases hd
    rw [hready hw, hnext (w := .ready) Abs.semOp_stage (by rw [a.semOp_io hl hw, hw])]
    exact TlbStage.left_passeren (Stage.callOf ht hc)
  | verhogen s hw hc =>
    cases hd
    rw [hready hw, hnext (w := .ready) Abs.semOp_stage (by rw [a.semOp_io hl hw, hw])]
    exact TlbStage.left_verhogen (Stage.callOf ht hc)
  | issue e v hw hc =>
    cases hd
    rw [hready hw]
    have hio : ((a.setMem (a.mem.setCommand e v)).setWait h .io).wait h = .io :=
      Function.update_self ..
    rw [Abs.left_eq (a := (a.setMem _).setWait h .io) ht, hio]
    exact (TlbStage.left_doio (Stage.callOf ht hc)).1
  | ended status hw hc =>
    cases hd
    rw [Abs.left_eq ht, hw, hnext (w := .ready) Abs.setStage_stage
      (by change Function.update a.wait h .ready h = _ ↔ _; rw [Function.update_self])]
    exact (TlbStage.left_doio (Stage.callOf ht hc)).2 status
  | die _ hc =>
    cases hd
    cases Stage.callOf ht hc
    cases hheld
  | resume _ htlb =>
    cases hd
    obtain rfl := Option.some.inj (ht.symm.trans htlb)
    cases hheld

/-! ## The queue for the pool -/

/-- The steps of owners until it is the turn of `p`, where `h` is the owner. -/
def Abs.ahead (a : Abs) (h p : Uproc) : Nat := a.left h + 18 * (a.sem .spSem).queue.idxOf p

/-- Who does a V has the semaphore. -/
theorem Abs.holds_of_verhogen (hw : a.wait p = .ready) {s : Sem}
    (hc : (a.stage p).allows p (.call (.verhogen s))) : a.Holds p s := by
  refine ⟨?_, by rw [hw]; simp⟩
  rw [Stage.held_verhogen hc]
  exact List.mem_cons_self

/-- Unless the owner releases it, those who wait keep their places. -/
theorem Move.place (hm : Move a d a') (ho : a.Ordered) (hp : a.wait p = .sem .spSem)
    (hh : a.Holds h .spSem) (hd : d ≠ .gave h (.call (.verhogen .spSem))) :
    (a'.sem .spSem).queue.idxOf p = (a.sem .spSem).queue.idxOf p := by
  have hl := ho.locked
  have hmem : p ∈ (a.sem .spSem).queue := (hl.queue _ p).mpr hp
  rcases hm.lock_cases with ⟨q, s, rfl, hw, hc, rfl⟩ | ⟨q, s, rfl, hw, hc, rfl⟩ | ⟨-, hsem, -, -⟩
  · by_cases hs : s = .spSem
    · subst hs
      rcases a.semOp_cases hl .spSem .passeren ((a.stage q).next (.call (.passeren .spSem)) ())
        (p := q) with ⟨-, -, hsem⟩ | ⟨hup, -⟩ | ⟨hup, -⟩
      · rw [hsem, Function.update_self]
        exact List.idxOf_append_of_mem hmem
      · rw [(hl.free .spSem (by simpa [Semaphore.Op.blocksAt] using hup)).1] at hmem
        cases hmem
      · rw [(hl.free .spSem (by simpa [Semaphore.Op.blocksAt] using hup)).1] at hmem
        cases hmem
    · exact congrArg (fun x : Semaphore.State Uproc => x.queue.idxOf p) (Function.update_of_ne (Ne.symm hs) ..)
  · have hs : s ≠ .spSem := by
      rintro rfl
      obtain rfl := hl.holder_unique hh (Abs.holds_of_verhogen hw hc)
      exact hd rfl
    exact congrArg (fun x : Semaphore.State Uproc => x.queue.idxOf p) (Function.update_of_ne hs.symm ..)
  · rw [hsem]

/-- The V of the owner hands the semaphore to the first in the queue. -/
theorem Move.handover (hm : Move a (.gave h (.call (.verhogen .spSem))) a') (ho : a.Ordered)
    (hp : a.wait p = .sem .spSem) (hp' : a'.wait p = .sem .spSem) :
    ∃ w, a'.Holds w .spSem ∧ a'.ahead w p < a.ahead h p := by
  have hl := ho.locked
  have hmem : p ∈ (a.sem .spSem).queue := (hl.queue _ p).mpr hp
  have hholds := fun w => hm.holds_iff ho w .spSem
  have ho' := hm.ordered ho
  cases hm with
  | verhogen _ hw hc =>
    obtain ⟨t, ht, hheld⟩ := (ho.sane h).owner (Abs.holds_of_verhogen hw hc).1
    have hleft := (Move.verhogen .spSem hw hc).left_owner hl ht hheld rfl
      (by rintro _ ⟨⟩; exact hc)
    rcases a.semOp_cases hl .spSem .verhogen ((a.stage h).next (.call (.verhogen .spSem)) ())
      (p := h) with ⟨hup, -⟩ | ⟨-, w, ws, hq, hww, hwait, hsem⟩ | ⟨-, hq, -⟩
    · rw [hl.down hw hc] at hup
      cases hup
    · have hwp : w ≠ p := by
        rintro rfl
        rw [hwait, Function.update_self] at hp'
        cases hp'
      have hwh : w ≠ h := by
        rintro rfl
        rw [hw] at hww
        cases hww
      have hholdsW := (hholds w).mpr ⟨fun he => hwh (Did.gave.inj he).1.symm, .inr ⟨.inr hww, by
        rw [hwait, Function.update_self]
        simp⟩⟩
      obtain ⟨tw, htw, hheldW⟩ := (ho'.sane w).owner hholdsW.1
      have hle := TlbStage.left_le (w := (a.semOp h .spSem .verhogen
        ((a.stage h).next (.call (.verhogen .spSem)) ())).wait w) hheldW
      refine ⟨w, hholdsW, ?_⟩
      rw [Abs.ahead, Abs.ahead, Abs.left_eq htw, hsem, Function.update_self, hq,
        List.idxOf_cons_ne _ hwp]
      dsimp only
      omega
    · rw [hq] at hmem
      cases hmem

/-- Every step of the owner brings the turn of `p` nearer, and no step puts it off. -/
theorem Move.ahead (hm : Move a d a') (ho : a.Ordered) (hp : a.wait p = .sem .spSem)
    (hp' : a'.wait p = .sem .spSem) (hh : a.Holds h .spSem)
    (hgave : ∀ c, d = .gave h c → (a.stage h).allows h c) :
    ∃ h', a'.Holds h' .spSem ∧ a'.ahead h' p ≤ a.ahead h p ∧
      (d.actor = some h → a'.ahead h' p < a.ahead h p) := by
  by_cases hd : d = .gave h (.call (.verhogen .spSem))
  · subst hd
    obtain ⟨w, hw, hlt⟩ := hm.handover ho hp hp'
    exact ⟨w, hw, hlt.le, fun _ => hlt⟩
  · refine ⟨h, (hm.holds_iff ho h .spSem).mpr ⟨hd, .inl hh⟩, ?_⟩
    rw [Abs.ahead, Abs.ahead, hm.place ho hp hh hd]
    obtain ⟨t, ht, hheld⟩ := (ho.sane h).owner hh.1
    by_cases hact : d.actor = some h
    · have hlt := hm.left_owner ho.locked ht hheld hact hgave
      omega
    · rw [hm.left_other ho.locked hact]
      exact ⟨le_rfl, fun he => absurd he hact⟩

/-! ## The events of the owner -/

variable {m m' : System} {st : Uproc → Stage} {e : UserEvent}

/-- Not the end of a read of a flash device that has failed. -/
def Did.ReadsReady : Did → Prop
  | .ended q d v status => d = flashDev q → v &&& 0xFF = FLASHREAD → status = READY
  | _ => True

instance (d : Did) : Decidable d.ReadsReady := by
  unfold Did.ReadsReady
  split <;> infer_instance

/-- The read of the page has not failed. -/
def TlbStage.ReadReady : TlbStage → Prop
  | .loading _ _ (.done status) => status = READY
  | .failed _ _ => False
  | _ => True

theorem TlbStage.ReadReady.act (ht : t.ReadReady) {x : Act} (hx : t.ActOf p x) (r : x.Res) :
    (t.next (.act x) r).ReadReady := by
  cases hx with
  | usable =>
    rw [TlbStage.next_usable]
    split <;> trivial
  | _ => trivial

omit [Umps] in
theorem TlbStage.ReadReady.passeren {s : Sem} (hc : t.CallOf p (.passeren s)) :
    (t.next (.call (.passeren s)) ()).ReadReady := by
  cases hc <;> trivial

omit [Umps] in
theorem TlbStage.ReadReady.verhogen (ht : t.ReadReady) {s : Sem}
    (hc : t.CallOf p (.verhogen s)) : (t.next (.call (.verhogen s)) ()).ReadReady := by
  cases hc with
  | saveUnlock =>
    rw [TlbStage.next_saved]
    split <;> trivial
  | @loadUnlock sup f status =>
    have hready : status = READY := ht
    rw [TlbStage.next_read, if_pos hready]
    trivial
  | unlock => trivial

omit [Umps] in
theorem TlbStage.ReadReady.doio {v status : Word} (hc : t.CallOf p (.doio (flashDev p) v))
    (hd : (Did.ended p (flashDev p) v status).ReadsReady) :
    (t.next (.call (.doio (flashDev p) v)) status).ReadReady := by
  cases hc with
  | saveIo => trivial
  | @loadIo sup f => exact hd rfl (flashCmd_low _ (by decide))

/-- The waits that a P or a V can begin or end. -/
def Wait.OfSem (w : Wait) : Prop := w = .ready ∨ ∃ s, w = .sem s

/-- How a pager can wait in a stage. -/
def TlbStage.MayWait (p : Uproc) (t : TlbStage) : Wait → Prop
  | .io => ∃ v, t.CallOf p (.doio (flashDev p) v)
  | .dead => ∃ sup, t = .started sup
  | _ => True

omit [Umps] in
theorem TlbStage.mayWait_ofSem {w : Wait} (hw : w.OfSem) : t.MayWait p w := by
  rcases hw with rfl | ⟨s, rfl⟩ <;> trivial

/-- The pager of `q` has come to no end. -/
def Abs.GoesOn (a : Abs) (q : Uproc) : Prop :=
  ∀ t, (a.stage q).tlb = some t → t.ReadReady ∧ t.MayWait q (a.wait q)

theorem Abs.GoesOn.keep (hq : a.GoesOn q) (hst : a'.stage q = a.stage q)
    (hw : a'.wait q = a.wait q ∨ (a'.wait q).OfSem) : a'.GoesOn q := by
  intro t ht
  obtain ⟨hready, hmay⟩ := hq t (hst ▸ ht)
  refine ⟨hready, ?_⟩
  rcases hw with hw | hw
  · rwa [hw]
  · exact TlbStage.mayWait_ofSem hw

theorem Abs.GoesOn.of_none (ht : (a.stage q).tlb = none) : a.GoesOn q := fun t hst => by
  rw [ht] at hst
  cases hst

/-- `p` goes on to the stage `S`, and the others stay where they are. -/
theorem Abs.GoesOn.setStage (hg : ∀ q, q ≠ p → a.GoesOn q) {m : Mem} {S : Stage}
    (hw : a.wait p = .ready) (hS : ∀ t, S.tlb = some t → t.ReadReady) (q : Uproc) :
    ((a.setMem m).setStage p S).GoesOn q := by
  by_cases hq : q = p
  · subst hq
    intro t ht
    rw [Abs.setStage_stage] at ht
    exact ⟨hS t ht, TlbStage.mayWait_ofSem (.inl hw)⟩
  · exact (hg q hq).keep (Abs.setStage_stage_ne hq) (.inl rfl)

/-- A P or a V of `p`. -/
theorem Abs.GoesOn.semOp (hg : ∀ q, a.GoesOn q) (hl : a.Locked) (hw : a.wait p = .ready) (s : Sem)
    (op : Semaphore.Op) {S : Stage} (hS : ∀ t, S.tlb = some t → t.ReadReady) (q : Uproc) :
    (a.semOp p s op S).GoesOn q := by
  have hupd : ∀ {r w}, w.OfSem → Function.update a.wait r w q = a.wait q ∨
      (Function.update a.wait r w q).OfSem := by
    intro r w hw
    by_cases hq : q = r
    · subst hq
      rw [Function.update_self]
      exact .inr hw
    · exact .inl (Function.update_of_ne hq ..)
  have hwait : (a.semOp p s op S).wait q = a.wait q ∨ ((a.semOp p s op S).wait q).OfSem := by
    rcases a.semOp_cases hl s op S (p := p) with ⟨-, hwait, -⟩ | ⟨-, w, ws, -, -, hwait, -⟩ |
      ⟨-, -, hwait, -⟩ <;> rw [hwait]
    · exact hupd (.inr ⟨s, rfl⟩)
    · exact hupd (.inl rfl)
    · exact .inl rfl
  by_cases hq : q = p
  · subst hq
    intro t ht
    rw [Abs.semOp_stage] at ht
    refine ⟨hS t ht, TlbStage.mayWait_ofSem ?_⟩
    rcases hwait with he | hfree
    · exact .inl (he.trans hw)
    · exact hfree
  · exact (hg q).keep (Function.update_of_ne hq ..) hwait

theorem Move.goesOn (hm : Move a d a') (hl : a.Locked) (hd : d.ReadsReady)
    (hg : ∀ q, a.GoesOn q) (q : Uproc) : a'.GoesOn q := by
  have hnext : ∀ {p : Uproc} {c : Cmd} {r : c.Res},
      (∀ t, (a.stage p).tlb = some t → (t.next c r).ReadReady) →
      ∀ t, ((a.stage p).next c r).tlb = some t → t.ReadReady := fun {p c r} h t ht => by
    cases hst : (a.stage p).tlb with
    | none =>
      rw [Stage.next_none hst] at ht
      cases ht
    | some t' =>
      rw [Stage.next_tlb hst] at ht
      rw [← Option.some.inj ht]
      exact h t' hst
  have hother : ∀ {p : Uproc} (r : Uproc), r ≠ p → a.GoesOn r := fun r _ => hg r
  cases hm with
  | quiet => exact hg q
  | loaded => exact hg q
  | stck => exact hg q
  | readLoop => exact hg q
  | stored => exact (hg q).keep rfl (.inl rfl)
  | refill => exact (hg q).keep rfl (.inl rfl)
  | fault hw => exact .setStage hother hw (fun t ht => by cases ht; trivial) q
  | trap hw => exact .setStage hother hw (fun t ht => by cases ht) q
  | again hw => exact .setStage hother hw (fun t ht => by cases ht) q
  | resume hw => exact .setStage (m := a.mem) hother hw (fun t ht => by cases ht) q
  | finish hw => exact .setStage (m := a.mem) hother hw (fun t ht => by cases ht) q
  | @act p x hw hx =>
    exact .setStage hother hw (hnext fun t ht => (hg p t ht).1.act (Stage.actOf ht hx) _) q
  | @passeren p s hw hc =>
    exact .semOp hg hl hw s .passeren (hnext fun t ht => .passeren (Stage.callOf ht hc)) q
  | @verhogen p s hw hc =>
    exact .semOp hg hl hw s .verhogen
      (hnext fun t ht => (hg p t ht).1.verhogen (Stage.callOf ht hc)) q
  | @issue p e v hw hc =>
    by_cases hq : q = p
    · subst hq
      intro t ht
      refine ⟨(hg q t ht).1, ?_⟩
      have hio : ((a.setMem (a.mem.setCommand e v)).setWait q .io).wait q = .io :=
        Function.update_self ..
      rw [hio]
      cases Stage.callOf ht hc with
      | saveIo => exact ⟨_, .saveIo⟩
      | loadIo => exact ⟨_, .loadIo⟩
    · exact (hg q).keep rfl (.inl (Abs.setWait_wait_ne hq))
  | @ended p e v status hw hc =>
    refine .setStage (a := a.setWait p .ready) (m := a.mem.complete e status)
      (fun q hq => (hg q).keep rfl (.inl (Abs.setWait_wait_ne hq))) (Function.update_self ..)
      (hnext fun t ht => ?_) q
    rcases Stage.allows_doio hc with ⟨t', ht', hcall, rfl⟩ | ⟨hnone, -⟩
    · obtain rfl := Option.some.inj (ht.symm.trans ht')
      exact .doio hcall hd
    · rw [hnone] at ht
      cases ht
  | @die p hw hc =>
    by_cases hq : q = p
    · subst hq
      intro t ht
      have hdead : (a.setWait q .dead).wait q = .dead := Function.update_self ..
      refine ⟨(hg q t ht).1, ?_⟩
      rw [hdead]
      cases Stage.callOf ht hc
      exact ⟨_, rfl⟩
    · exact (hg q).keep rfl (.inl (Abs.setWait_wait_ne hq))

omit [Umps] in
/-- A process uses `sp_sem` and semaphores of its own. -/
theorem Sane.held_own {S : Stage} {saved : Fin 2 → ProcState} (hS : Sane p S saved) {s : Sem}
    (hs : s ∈ S.held p) : s = .spSem ∨ ∃ type, s = .dev type p := by
  have hservice : ∀ s ∈ serviceSems p, ∃ type, s = .dev type p := fun s hs => by
    rcases List.mem_cons.mp hs with rfl | hs
    · exact ⟨3, rfl⟩
    · rcases List.mem_cons.mp hs with rfl | hs
      · exact ⟨4, rfl⟩
      · exact ⟨5, List.mem_singleton.mp hs⟩
  rcases List.mem_append.mp hs with hs | hs
  · cases ht : S.tlb with
    | none =>
      rw [ht] at hs
      cases hs
    | some t =>
      rw [ht] at hs
      have hs : s ∈ t.held p := hs
      rcases t.held_cases (p := p) with he | he | he <;> rw [he] at hs
      · cases hs
      · exact .inl (List.mem_singleton.mp hs)
      · rcases List.mem_cons.mp hs with rfl | hs
        · exact .inr ⟨1, rfl⟩
        · exact .inl (List.mem_singleton.mp hs)
  · cases hg : S.gen with
    | none =>
      rw [hg] at hs
      cases hs
    | some g =>
      rw [hg] at hs
      cases g with
      | holding sup s' =>
        obtain rfl := List.mem_singleton.mp hs
        exact .inr (hservice _ (hS.service sup _ hg).1)
      | _ => cases hs

/-- The semaphores of the devices are never waited for. -/
theorem Abs.Ordered.waits_pool (ho : a.Ordered) {s : Sem} (hw : a.wait p = .sem s) :
    s = .spSem ∧ ∃ w, a.Holds w .spSem := by
  have hl := ho.locked
  have htaken : ∃ w, a.Holds w s := by
    cases hup : (a.sem s).up with
    | true =>
      have hmem := (hl.queue s p).mpr hw
      rw [(hl.free s hup).1] at hmem
      cases hmem
    | false =>
      obtain ⟨w, hholds⟩ := hl.taken s hup
      exact ⟨w, (hholds w).mpr rfl⟩
  obtain ⟨w, hholds⟩ := htaken
  obtain ⟨held, hheld, -⟩ := hl.waits p s hw
  have hmem : s ∈ (a.stage p).held p := by
    rw [hheld]
    exact List.mem_cons_self
  rcases (ho.sane p).held_own hmem with rfl | ⟨type, rfl⟩
  · exact ⟨rfl, w, hholds⟩
  · rcases (ho.sane w).held_own hholds.1 with he | ⟨type', he⟩
    · cases he
    · obtain ⟨-, rfl⟩ := Sem.dev.inj he
      exact absurd hw hholds.2

/-- The process can take its next step, or the operation of its device can end. -/
def System.Able (m : System) (p : Uproc) : Prop :=
  (∀ slot s now, (m.next (.step p slot s now)).isSome) ∨
    ∀ status, (m.next (.complete p status)).isSome

theorem System.able_of_holds (hf : m.Fits st) (ho : (m.abs st).Ordered) (hs : HandlersSafe m)
    (hg : (m.abs st).GoesOn h) (hh : (m.abs st).Holds h .spSem) : m.Able h := by
  obtain ⟨t, ht, hheld⟩ := (ho.sane h).owner hh.1
  have ht : (st h).tlb = some t := ht
  obtain ⟨hready, hmay⟩ := hg t ht
  have hnow := (hf h).now
  rw [ht] at hnow
  obtain ⟨c, hnow, hfol⟩ := hnow
  cases c with
  | ret u =>
    obtain ⟨sup, f, hfail⟩ := hfol
    obtain rfl := Option.some.inj (ht.symm.trans hfail)
    cases hready
  | cmd c k =>
    have hallow : (st h).allows h c := hfol.1
    cases hw : (m.proc h).wait with
    | ready =>
      refine .inl fun slot s now => ?_
      simp only [System.next, hw, hnow, if_true]
      cases c with
      | act x => rfl
      | call c =>
        have hcall := Stage.callOf ht hallow
        cases hcall with
        | termProcess => cases hheld
        | wild => exact absurd hnow (hs.wild h _ _)
        | ldst => cases hheld
        | _ => rfl
    | sem s =>
      obtain ⟨rfl, -⟩ := ho.waits_pool hw
      exact absurd hw hh.2
    | io =>
      have hmay' : t.MayWait h (m.proc h).wait := hmay
      rw [hw] at hmay'
      obtain ⟨v, hcall⟩ := hmay'
      refine .inr fun status => ?_
      simp only [System.next, hw, hnow, if_true]
      cases c with
      | act x =>
        have hact := Stage.actOf ht hallow
        cases hcall <;> cases hact
      | call c =>
        have hcall' := Stage.callOf ht hallow
        cases hcall <;> cases hcall' <;> rfl
    | dead =>
      have hmay' : t.MayWait h (m.proc h).wait := hmay
      rw [hw] at hmay'
      obtain ⟨sup, rfl⟩ := hmay'
      cases hheld

/-- What holds of `sp_sem` at the end of a run. -/
structure PoolRight (tr : List (System × UserEvent × System)) (m : System) : Prop where
  /-- No other semaphore is ever waited for. -/
  only : ∀ p s, (m.proc p).wait = .sem s → s = .spSem
  /-- It has an owner while it is waited for. -/
  owned : ∀ p s, (m.proc p).wait = .sem s → ∃ w, Between tr w .spSem
  /-- The owner can go on. -/
  able : ∀ w, Between tr w .spSem → m.Able w

/-- As long as the TLB misses only at pages of the table and no read of a flash fails, nobody waits
    for ever: the only semaphore that is waited for is `sp_sem`, and its owner can always go on, or
    its flash is at work. -/
theorem pool_progress {mem : Mem} {tr : List (System × UserEvent × System)} {m : System}
    (hi : Initial mem)
    (h : Run (UserStep fun m e => (m.did e).InPages ∧ (m.did e).ReadsReady) (.start mem) tr m) :
    PoolRight tr m := by
  obtain ⟨st, hf, ht, hmod⟩ := run_tamed hi (h.mono fun hs => ⟨hs.1, hs.2.1⟩)
  have hsafe := System.handlersSafe hf ht hmod
  obtain ⟨st, hf, ho, hb, hg⟩ := run_invariant_past
    (I := fun tr a => a.Ordered ∧ (∀ p s, Between tr p s ↔ a.Holds p s) ∧ ∀ p, a.GoesOn p) h
    ⟨Abs.start_ordered mem, fun p s => iff_of_false id fun hh => absurd hh.1 List.not_mem_nil,
      fun p => .of_none rfl⟩ (by
      rintro tr m e m' st st' hok - hm ⟨ho, hb, hg⟩
      refine ⟨hm.ordered ho, fun p s => ?_, hm.goesOn ho.locked hok.2 hg⟩
      rw [hm.holds_iff ho p s, ← hb p s, between_snoc]
      rfl)
  refine ⟨fun p s hw => (ho.waits_pool hw).1, fun p s hw => ?_, fun w hw => ?_⟩
  · obtain ⟨w, hw⟩ := (ho.waits_pool hw).2
    exact ⟨w, (hb w _).mpr hw⟩
  · exact System.able_of_holds hf ho hsafe (hg w) ((hb w _).mp hw)

omit [Umps] in
/-- A process waits while the flash of another one is at work. -/
theorem pool_progress_reading :
    letI := sampleUmps
    ∃ tr m, Run (UserStep fun m e => (m.did e).InPages ∧ (m.did e).ReadsReady)
        (.start sampleMem) tr m ∧
      (m.proc 1).wait = .sem .spSem ∧ (m.proc 0).wait = .io ∧ PoolRight tr m := by
  let _ := sampleUmps
  obtain ⟨tr, m, h, hw⟩ := System.exists_run_of_play
    (fun m e => (m.did e).InPages ∧ (m.did e).ReadsReady)
    (.start sampleMem) ((bringIn 0 0).take 9 ++ firstFault 1 0)
    (P := fun _ m => (m.proc 1).wait = .sem .spSem ∧ (m.proc 0).wait = .io) (by decide +kernel)
  obtain ⟨hw1, hw0⟩ := of_decide_eq_true hw
  exact ⟨tr, m, h, hw1, hw0, pool_progress sampleMem_initial h⟩

end Rocm
