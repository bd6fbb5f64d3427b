import Rocm.Properties.Confinement
import Rocm.Properties.SupportLocks

/-!
# What is written only between a P and a V

As long as the TLB misses only at pages of the table, the page tables, the table of the swap pool
and its cursor change only in steps of the process that has `sp_sem`, the registers and the blocks of
a device only in those of the process of its number, between the P and the V on the semaphore of the
device.
-/

namespace Rocm

open Runs

variable [Umps]

/-- Who may have changed what in a step, when `between` says who is between which P and V. -/
structure WritesGuarded (between : Uproc → Sem → Prop) (m : System) (d : Did) (m' : System) :
    Prop where
  /-- The page tables, `sp_tbl` and `frame_top`. -/
  pool : (m'.mem.pte = m.mem.pte ∧ m'.mem.spTbl = m.mem.spTbl ∧
      m'.mem.frameTop = m.mem.frameTop) ∨ ∃ p, d.actor = some p ∧ between p .spSem
  /-- The frames: otherwise it is a store through the TLB. -/
  frames : m'.mem.frame = m.mem.frame ∨ (∃ p va b, d = .stored p va b) ∨
    ∃ p, d.actor = some p ∧ between p .spSem
  /-- The registers of the devices. -/
  devices : ∀ e, m'.mem.dev e = m.mem.dev e ∨ d.actor = some e.no ∧ between e.no e.mutex
  /-- The blocks of the flash devices. -/
  flash : ∀ q, m'.mem.flash q = m.mem.flash q ∨
    d.actor = some q ∧ between q (flashSem q) ∧ between q .spSem
  /-- The states saved for the handlers. -/
  saved : ∀ q, m'.mem.saved q = m.mem.saved q ∨ d.actor = some q

variable {p : Uproc} {a a' : Abs} {d : Did}

/-! ## The commands and the semaphores that are held -/

omit [Umps] in
/-- A command of the pager to its flash. -/
theorem TlbStage.held_doio {t : TlbStage} {e : SubDev} {v : Word} (hc : t.CallOf p (.doio e v)) :
    e = flashDev p ∧ t.held p = [flashSem p, .spSem] := by
  cases hc with
  | saveIo => exact ⟨rfl, rfl⟩
  | loadIo => exact ⟨rfl, rfl⟩

theorem TlbStage.held_act {t : TlbStage} {x : Act} (hx : t.ActOf p x) :
    x = .support p ∨ .spSem ∈ t.held p := by
  cases hx with
  | support => exact .inl rfl
  | saveData0 => exact .inr (List.mem_cons_of_mem _ List.mem_cons_self)
  | loadData0 => exact .inr (List.mem_cons_of_mem _ List.mem_cons_self)
  | _ => exact .inr List.mem_cons_self

omit [Umps] in
theorem Stage.held_of_tlb {S : Stage} {t : TlbStage} (h : S.tlb = some t) {s : Sem}
    (hs : s ∈ t.held p) : s ∈ S.held p := by
  unfold Stage.held
  rw [h]
  exact List.mem_append_left _ hs

/-- Who gives a command to a device has its semaphore. -/
theorem Stage.mutex_doio {S : Stage} {e : SubDev} {v : Word}
    (h : S.allows p (.call (.doio e v))) : e.no = p ∧ e.mutex ∈ S.held p := by
  rcases Stage.allows_call h with ⟨t, ht, hc⟩ | ⟨g, rfl, hc⟩
  · obtain ⟨rfl, hheld⟩ := TlbStage.held_doio hc
    refine ⟨rfl, Stage.held_of_tlb ht ?_⟩
    rw [hheld]
    exact List.mem_cons_self
  · cases hc with
    | @doio sup s _ _ hd =>
      refine ⟨hd.no, ?_⟩
      rw [hd.mutex]
      exact List.mem_cons_self

theorem Stage.mutex_setData0 {S : Stage} {e : SubDev} {v : Word}
    (h : S.allows p (.act (.setData0 e v))) : e.no = p ∧ e.mutex ∈ S.held p := by
  rcases Stage.allows_act h with ⟨t, ht, hx⟩ | ⟨g, rfl, hx⟩
  · cases hx with
    | saveData0 => exact ⟨rfl, Stage.held_of_tlb ht List.mem_cons_self⟩
    | loadData0 => exact ⟨rfl, Stage.held_of_tlb ht List.mem_cons_self⟩
  · cases hx with
    | @setData0 sup s _ _ hd =>
      refine ⟨hd.no, ?_⟩
      rw [hd.mutex]
      exact List.mem_cons_self

/-- Who waits for a device has what it holds. -/
theorem Abs.holds_of_io {s : Sem} (hw : a.wait p = .io) (h : s ∈ (a.stage p).held p) :
    a.Holds p s := by
  refine ⟨h, ?_⟩
  rw [hw]
  nofun

/-! ## Every move -/

/-- Who may have changed what in a move. -/
structure Abs.WritesHeld (a : Abs) (d : Did) (a' : Abs) : Prop where
  pool : (a'.mem.pte = a.mem.pte ∧ a'.mem.spTbl = a.mem.spTbl ∧
      a'.mem.frameTop = a.mem.frameTop) ∨ ∃ p, d.actor = some p ∧ a.Holds p .spSem
  devices : ∀ e, a'.mem.dev e = a.mem.dev e ∨ d.actor = some e.no ∧ a.Holds e.no e.mutex
  saved : ∀ q, a'.mem.saved q = a.mem.saved q ∨ d.actor = some q

theorem Abs.WritesHeld.of_mem (hpte : a'.mem.pte = a.mem.pte) (htbl : a'.mem.spTbl = a.mem.spTbl)
    (htop : a'.mem.frameTop = a.mem.frameTop) (hdev : a'.mem.dev = a.mem.dev)
    (hsaved : ∀ q, a'.mem.saved q = a.mem.saved q ∨ d.actor = some q) : a.WritesHeld d a' :=
  ⟨.inl ⟨hpte, htbl, htop⟩, fun e => .inl (congrFun hdev e), hsaved⟩

/-- The nucleus saves a state for a handler of `p`. -/
theorem Abs.WritesHeld.raise {k : Fin 2} {s : ProcState} {S : Stage} (hd : d.actor = some p) :
    a.WritesHeld d ((a.setMem (a.mem.setExceptState p k s)).setStage p S) := by
  refine .of_mem (a.mem.setExceptState_pte p k s) rfl rfl rfl fun q => ?_
  by_cases hq : q = p
  · exact .inr (hq ▸ hd)
  · exact .inl (saved_setExceptState a.mem k s hq)

/-- The registers of one device change. -/
theorem Abs.WritesHeld.device {e : SubDev} {r : DevReg} (hd : d.actor = some e.no)
    (hh : a.Holds e.no e.mutex) (hsup : a'.mem.sup = a.mem.sup)
    (htbl : a'.mem.spTbl = a.mem.spTbl) (htop : a'.mem.frameTop = a.mem.frameTop)
    (hdev : a'.mem.dev = Function.update a.mem.dev e r) : a.WritesHeld d a' := by
  refine ⟨.inl ⟨?_, htbl, htop⟩, fun e' => ?_, fun q => .inl ?_⟩
  · funext x
    unfold Mem.pte
    rw [hsup]
  · by_cases he : e' = e
    · subst he
      exact .inr ⟨hd, hh⟩
    · left
      rw [hdev, Function.update_of_ne he]
  · unfold Mem.saved
    rw [hsup]

theorem Move.writesHeld (h : Move a d a') : a.WritesHeld d a' := by
  cases h with
  | fault => exact .raise rfl
  | trap => exact .raise rfl
  | again => exact .raise rfl
  | @act p x hw hx =>
    by_cases hdata : ∃ e v, x = .setData0 e v
    · obtain ⟨e, v, rfl⟩ := hdata
      obtain ⟨rfl, hs⟩ := Stage.mutex_setData0 hx
      exact .device rfl (a.holds_of_ready hw hs) rfl rfl rfl rfl
    · have hdev : (x.run a.mem).2.dev = a.mem.dev := by
        cases x <;> first | rfl | exact absurd ⟨_, _, rfl⟩ hdata
      have hsaved : ∀ q, q ≠ p → (x.run a.mem).2.saved q = a.mem.saved q := fun q hq =>
        funext fun k => Stage.saved_act a.mem hx q k (.inl hq)
      refine ⟨?_, fun e => .inl (congrFun hdev e), fun q => ?_⟩
      · rcases Stage.allows_act hx with ⟨t, ht, hact⟩ | ⟨g, hg, hact⟩
        · rcases TlbStage.held_act hact with rfl | hheld
          · exact .inl ⟨rfl, rfl, rfl⟩
          · exact .inr ⟨p, rfl, a.holds_of_ready hw (Stage.held_of_tlb ht hheld)⟩
        · left
          cases hact with
          | setExceptState s => exact ⟨a.mem.setExceptState_pte p 1 s, rfl, rfl⟩
          | _ => exact ⟨rfl, rfl, rfl⟩
      · by_cases hq : q = p
        · exact .inr (congrArg some hq.symm)
        · exact .inl (hsaved q hq)
  | @issue p e v hw hc =>
    obtain ⟨rfl, hs⟩ := Stage.mutex_doio hc
    exact .device rfl (a.holds_of_ready hw hs) rfl rfl rfl rfl
  | @ended p e v status hw hc =>
    obtain ⟨rfl, hs⟩ := Stage.mutex_doio hc
    have hsup := a.mem.complete_sup e status
    obtain ⟨htbl, htop⟩ := a.mem.complete_pool e status
    obtain ⟨ram, flash, hm, -⟩ := a.mem.complete_eq e status
    have hdev := congrArg Mem.dev hm
    exact .device rfl (a.holds_of_io hw hs) hsup htbl htop hdev
  | _ => exact .of_mem rfl rfl rfl rfl fun _ => .inl rfl

/-- The flash device of a process works for a pager that has both semaphores. -/
theorem Move.ended_flash {v status : Word} (h : Move a (.ended p (flashDev p) v status) a') :
    a.Holds p (flashSem p) ∧ a.Holds p .spSem := by
  cases h with
  | ended _ hw hc =>
    rcases Stage.allows_doio hc with ⟨t, ht, hcall, -⟩ | ⟨-, hne⟩
    · obtain ⟨-, hheld⟩ := TlbStage.held_doio hcall
      refine ⟨a.holds_of_io hw (Stage.held_of_tlb ht ?_), a.holds_of_io hw (Stage.held_of_tlb ht ?_)⟩
      · rw [hheld]
        exact List.mem_cons_self
      · rw [hheld]
        exact List.mem_cons_of_mem _ List.mem_cons_self
    · exact absurd rfl (hne p)

/-! ## Every run -/

/-- In every run whose TLB misses are at pages of the table, whatever else the user processes do and
    however their handlers interleave: what the processes share changes only between the P and the
    V that guard it. -/
theorem writes_guarded {mem : Mem} {tr : List (System × UserEvent × System)} {m m' : System}
    {e : UserEvent} (hi : Initial mem)
    (h : Run (UserStep fun m e => (m.did e).InPages) (.start mem) tr m)
    (hn : m.next e = some m') : WritesGuarded (Between tr) m (m.did e) m' := by
  obtain ⟨st, hf, ht, hb⟩ := run_invariant_past
    (I := fun tr a => a.Tamed ∧ ∀ p s, Between tr p s ↔ a.Holds p s) h
    ⟨Abs.start_tamed hi, fun p s => iff_of_false id fun hh => absurd hh.1 List.not_mem_nil⟩ (by
      rintro tr m e m' st st' hin - hm ⟨ht, hb⟩
      refine ⟨hm.tamed hin ht, fun p s => ?_⟩
      rw [hm.holds_iff ht.toOrdered p s, ← hb p s, between_snoc]
      rfl)
  obtain ⟨st', -, hm⟩ := System.next_moves hf hn
  have hw := hm.writesHeld
  have hdata := hm.data ht.tame ht.aimed
  refine ⟨?_, ?_, fun e' => ?_, fun q => ?_, hw.saved⟩
  · rcases hw.pool with hsame | ⟨p, hp, hh⟩
    · exact .inl hsame
    · exact .inr ⟨p, hp, (hb p _).mpr hh⟩
  · have hsame : m'.mem.ram = m.mem.ram → m'.mem.frame = m.mem.frame := fun hram => by
      funext f o
      rw [Mem.frame_apply, Mem.frame_apply, hram]
    generalize m.did e = d at hm hdata ⊢
    cases hdata with
    | same hs => exact .inl (hsame hs.ram)
    | store hd => exact .inr (.inl ⟨_, _, _, hd⟩)
    | @read p v _ _ _ hd =>
      subst hd
      exact .inr (.inr ⟨p, rfl, (hb _ _).mpr hm.ended_flash.2⟩)
    | write _ hram => exact .inl (hsame hram)
  · rcases hw.devices e' with hsame | ⟨hp, hh⟩
    · exact .inl hsame
    · exact .inr ⟨hp, (hb _ _).mpr hh⟩
  · rcases hdata.flash_cases q with hsame | ⟨v, status, blk, b, hd, -⟩
    · exact .inl hsame
    · rw [hd] at hm ⊢
      obtain ⟨h1, h2⟩ := hm.ended_flash
      exact .inr ⟨rfl, (hb _ _).mpr h1, (hb _ _).mpr h2⟩

omit [Umps] in
/-- The flash of a process ends the read of a page. -/
theorem writes_guarded_read :
    letI := sampleUmps
    ∃ tr m m', Run (UserStep fun m e => (m.did e).InPages) (.start sampleMem) tr m ∧
      m.next (.complete 0 READY) = some m' ∧ (m.mem.dev (flashDev 0)).status = BUSY ∧
      WritesGuarded (Between tr) m (m.did (.complete 0 READY)) m' := by
  let _ := sampleUmps
  obtain ⟨tr, m, h, hP⟩ := System.exists_run_of_play (fun m e => (m.did e).InPages)
    (.start sampleMem) ((bringIn 0 0).take 9) (P := fun _ m => (m.next (.complete 0 READY)).isSome ∧
      (m.mem.dev (flashDev 0)).status = BUSY) (by decide +kernel)
  obtain ⟨hsome, hbusy⟩ := of_decide_eq_true hP
  obtain ⟨m', hn⟩ := Option.isSome_iff_exists.mp hsome
  exact ⟨tr, m, m', h, hn, hbusy, writes_guarded sampleMem_initial h hn⟩

end Rocm
