import Rocm.Proofs.WriteBack

/-!
# What the entries of page tables and TLB can say

Whatever the processes do, an entry of a page table or of the TLB is one that the pager has made: a
page that is in memory is in a frame of the pool, and may be stored to. With that, the pager always
works on the page of the fault, and its device copies from or to the frame it has chosen. Nothing
is asked of the runs here.
-/

namespace Rocm

variable [Umps] {P P' : Paging} {a a' : Abs} {d : Did} {p q : Uproc} {f : Frame} {x : Uproc × Page}
  {t : TlbStage}

/-- A `pte_entryLO` that the pager makes. -/
structure TameLo (lo : Word) : Prop where
  isLocal : lo &&& ENTRYLO_GLOBAL = 0
  dirty : lo &&& ENTRYLO_DIRTY ≠ 0
  framed : lo &&& ENTRYLO_VALID ≠ 0 → ∃ f, lo = frameLo f

section Lo

omit [Umps]

theorem tameLo_dirty : TameLo ENTRYLO_DIRTY :=
  ⟨by decide, by decide, fun hv => absurd (by decide) hv⟩

theorem tameLo_frameLo (f : Frame) : TameLo (frameLo f) := by
  refine ⟨frameLo_local f, ?_, fun _ => ⟨f, rfl⟩⟩
  revert f
  decide

theorem TameLo.invalid {lo : Word} (h : TameLo lo) : TameLo (invalidLo lo) := by
  refine ⟨invalidLo_local h.isLocal, ?_, fun hv => absurd (invalidLo_valid lo) hv⟩
  by_cases hv : lo &&& ENTRYLO_VALID ≠ 0
  · have hframe : ∀ f, invalidLo (frameLo f) &&& ENTRYLO_DIRTY ≠ 0 := by decide
    obtain ⟨f, rfl⟩ := h.framed hv
    exact hframe f
  · rw [invalidLo, if_neg hv]
    exact h.dirty

theorem TameLo.frame {e : PteEntry} (h : TameLo e.entryLO) (hv : e.valid) :
    ∃ f, e.entryLO = frameLo f :=
  h.framed (of_decide_eq_true hv)

end Lo

/-- The entries are the pager's. -/
structure Paging.Tame (P : Paging) : Prop where
  hi : ∀ x, (P.pte x).entryHI = pteHi x.1 x.2
  lo : ∀ x, TameLo (P.pte x).entryLO
  tlb : ∀ s, (P.tlb s).Foreign ∨
    (∃ x : Uproc × Page, (P.tlb s).entryHI = pteHi x.1 x.2) ∧ TameLo (P.tlb s).entryLO

/-- The entry that translates an address is that of its page. -/
theorem Paging.Tame.hits (h : P.Tame) {s : Slot} {va : Word} (hs : (P.tlb s).hits (hiOf p va)) :
    (∃ i, hiOf p va = pteHi p i) ∧ TameLo (P.tlb s).entryLO := by
  rcases h.tlb s with hf | ⟨⟨⟨r, i⟩, hx⟩, hlo⟩
  · exact absurd hs (hf.not_hits p va)
  · obtain ⟨rfl, hva⟩ := (hits_pteHi hx hlo.isLocal).mp hs
    exact ⟨⟨i, hva⟩, hlo⟩

/-! ## A move of the paging -/

/-- A page table changes by an entry of the pager, a slot of the TLB may take one. -/
theorem Paging.Tame.put (h : P.Tame) {lo : Word} (hlo : TameLo lo) {pte : Uproc × Page → PteEntry}
    {tlb : Tlb} (hpte : pte = Function.update P.pte x ⟨pteHi x.1 x.2, lo⟩)
    (htlb : tlb = (updateTlb (pteHi x.1 x.2) lo P.tlb).2) (hP : P'.pte = pte) (hT : P'.tlb = tlb) :
    P'.Tame := by
  have hentry : ∀ y, P'.pte y = ⟨pteHi x.1 x.2, lo⟩ ∧ y = x ∨ P'.pte y = P.pte y := by
    intro y
    rw [hP, hpte]
    by_cases hy : y = x
    · subst hy
      exact .inl ⟨Function.update_self .., rfl⟩
    · exact .inr (Function.update_of_ne hy ..)
  refine ⟨fun y => ?_, fun y => ?_, fun s => ?_⟩
  · rcases hentry y with ⟨he, rfl⟩ | he
    · rw [he]
    · rw [he]
      exact h.hi y
  · rcases hentry y with ⟨he, -⟩ | he
    · rw [he]
      exact hlo
    · rw [he]
      exact h.lo y
  · rw [hT, htlb]
    rcases updateTlb_cases (pteHi x.1 x.2) lo P.tlb with ⟨he, -⟩ | ⟨j, he, -⟩
    · rw [he]
      exact h.tlb s
    · rw [he]
      by_cases hs : s = j
      · rw [hs, Function.update_self]
        exact .inr ⟨⟨x, rfl⟩, hlo⟩
      · rw [Function.update_of_ne hs]
        exact h.tlb s

theorem PageMove.tame (h : PageMove P d P') (hin : d.InPages) (hP : P.Tame) : P'.Tame := by
  cases h with
  | @refill p va _ slot _ he =>
    obtain ⟨i, -, rfl⟩ := refill_eq (hin va rfl) he
    refine ⟨hP.hi, hP.lo, fun s => ?_⟩
    dsimp only
    by_cases hs : s = slot
    · rw [hs, Function.update_self]
      exact .inr ⟨⟨(p, i), hP.hi (p, i)⟩, hP.lo (p, i)⟩
    · rw [Function.update_of_ne hs]
      exact hP.tlb s
  | @invalidate p f x => exact hP.put (hP.lo x).invalid rfl rfl rfl rfl
  | @install p f i => exact hP.put (x := (p, i)) (tameLo_frameLo f) rfl rfl rfl rfl
  | _ => exact ⟨hP.hi, hP.lo, hP.tlb⟩

/-! ## The devices of the pagers -/

/-- The registers of the flash device are those of the operation that is next. -/
def TlbStage.Aimed (r : DevReg) (w : Wait) : TlbStage → Prop
  | .saving _ _ _ e io => io.Set r w (Umps.entryloGetPfn e.entryLO) (writeCmd e)
  | .loading sup f io => io.Set r w (frameAddr f) (readCmd sup)
  | _ => True

theorem TlbStage.Aimed.keep {r : DevReg} {w w' : Wait} (h : t.Aimed r w) (hw : w' = .io → w = .io) :
    t.Aimed r w' := by
  cases t with
  | saving => exact IoStage.Set.keep h hw
  | loading => exact IoStage.Set.keep h hw
  | _ => trivial

/-- The pager of a process works on a fault at one of its pages, with its device as it should be. -/
def Abs.PagerAimed (a : Abs) (p : Uproc) : Prop :=
  ∀ t, (a.stage p).tlb = some t → t.Aimed (a.mem.dev (flashDev p)) (a.wait p) ∧
    ∃ i, (a.mem.saved p PGFAULTEXCEPT).entryHi = pteHi p i

theorem Abs.PagerAimed.of_none (h : (a.stage p).tlb = none) : a.PagerAimed p := by
  intro t ht
  rw [h] at ht
  cases ht

theorem Abs.PagerAimed.of_stage {i : Page} (h : (a.stage p).tlb = some t)
    (ht : t.Aimed (a.mem.dev (flashDev p)) (a.wait p))
    (hi : (a.mem.saved p PGFAULTEXCEPT).entryHi = pteHi p i) : a.PagerAimed p := by
  intro t' ht'
  obtain rfl := Option.some.inj (h.symm.trans ht')
  exact ⟨ht, i, hi⟩

/-- The pager has done nothing, and its device and the saved state are as before. -/
theorem Abs.PagerAimed.keep (h : a.PagerAimed p)
    (ht : ∀ t, (a'.stage p).tlb = some t → (a.stage p).tlb = some t)
    (hdev : a'.mem.dev (flashDev p) = a.mem.dev (flashDev p))
    (hsaved : a'.mem.saved p PGFAULTEXCEPT = a.mem.saved p PGFAULTEXCEPT)
    (hw : a'.wait p = .io → a.wait p = .io) : a'.PagerAimed p := by
  intro t hst
  obtain ⟨haim, hi⟩ := h t (ht t hst)
  rw [hdev, hsaved]
  exact ⟨haim.keep hw, hi⟩

/-- After a call the registers are not set for an operation. -/
theorem TlbStage.aimed_call {c : Call} (hc : t.CallOf p c) (res : c.Res) {r : DevReg} {w : Wait} :
    (t.next (.call c) res).Aimed r w := by
  cases hc with
  | saveUnlock =>
    rw [TlbStage.next_saved]
    split <;> trivial
  | loadUnlock =>
    rw [TlbStage.next_read]
    split <;> trivial
  | _ => trivial

theorem Abs.PagerAimed.act_pager (hp : a.PagerAimed p) {y : Act} (hw : a.wait p = .ready)
    (hy : (a.stage p).allows p (.act y)) (ht : (a.stage p).tlb = some t) (hact : t.ActOf p y) :
    ((a.setMem (y.run a.mem).2).setStage p
      ((a.stage p).next (.act y) (y.run a.mem).1)).PagerAimed p := by
  obtain ⟨-, i, hi⟩ := hp t ht
  have hsaved := Stage.saved_act a.mem hy p PGFAULTEXCEPT (.inr (.inr rfl))
  have htlb : (((a.setMem (y.run a.mem).2).setStage p
      ((a.stage p).next (.act y) (y.run a.mem).1)).stage p).tlb =
        some (t.next (.act y) (y.run a.mem).1) := by
    rw [Abs.setStage_stage]
    exact Stage.next_tlb ht (.act y) (y.run a.mem).1
  have hnow : ∀ {P : Prop}, a.wait p = .io → P := fun he => by
    rw [hw] at he
    cases he
  refine .of_stage (i := i) htlb ?_ ((congrArg ProcState.entryHi hsaved).trans hi)
  change (t.next (.act y) (y.run a.mem).1).Aimed ((y.run a.mem).2.dev (flashDev p)) (a.wait p)
  cases hact with
  | usable =>
    rw [TlbStage.next_usable]
    split <;> trivial
  | saveData0 => exact ⟨congrArg DevReg.data0 (a.mem.setData0_dev _ _), hnow⟩
  | loadData0 => exact ⟨congrArg DevReg.data0 (a.mem.setData0_dev _ _), hnow⟩
  | _ => trivial

/-- What a call of its own leaves to the pager, where it changes neither device nor saved state. -/
theorem Abs.PagerAimed.call_pager (hp : a.PagerAimed p) (ht : (a.stage p).tlb = some t) {c : Call}
    (hc : t.CallOf p c) {r : c.Res} (hst : (a'.stage p) = (a.stage p).next (.call c) r)
    (hsup : a'.mem.sup = a.mem.sup) : a'.PagerAimed p := by
  obtain ⟨-, i, hi⟩ := hp t ht
  refine .of_stage (i := i) (t := t.next (.call c) r) ?_ (TlbStage.aimed_call hc r) ?_
  · rw [hst]
    exact Stage.next_tlb ht (.call c) r
  · rw [saved_of_sup hsup]
    exact hi

theorem Abs.PagerAimed.issue_pager (hp : a.PagerAimed p) (ht : (a.stage p).tlb = some t) {v : Word}
    (hc : t.CallOf p (.doio (flashDev p) v)) :
    ((a.setMem (a.mem.setCommand (flashDev p) v)).setWait p .io).PagerAimed p := by
  obtain ⟨haim, i, hi⟩ := hp t ht
  refine .of_stage (i := i) (t := t) ht ?_ hi
  have hdev := a.mem.setCommand_dev (flashDev p) v
  cases hc with
  | saveIo =>
    exact ⟨(congrArg DevReg.data0 hdev).trans haim.1, fun _ => congrArg DevReg.command hdev⟩
  | loadIo =>
    exact ⟨(congrArg DevReg.data0 hdev).trans haim.1, fun _ => congrArg DevReg.command hdev⟩

/-- An access of `p` leaves the device and the saved state of another process alone. -/
theorem Stage.act_dev {S : Stage} {y : Act} (hy : S.allows p (.act y)) (hq : q ≠ p) (m : Mem) :
    (y.run m).2.dev (flashDev q) = m.dev (flashDev q) := by
  rcases Stage.allows_act hy with ⟨t, -, hact⟩ | ⟨g, -, hact⟩
  · cases hact with
    | saveData0 => exact Function.update_of_ne (flashDev_ne hq) ..
    | loadData0 => exact Function.update_of_ne (flashDev_ne hq) ..
    | _ => rfl
  · cases hact with
    | setData0 d v hd => exact Function.update_of_ne (hd.not_flash q).symm ..
    | _ => rfl

/-- An exception of another process. -/
theorem Abs.PagerAimed.raise_other {k : Fin 2} {s : ProcState} {S : Stage} (h : a.PagerAimed q)
    (hq : q ≠ p) : ((a.setMem (a.mem.setExceptState p k s)).setStage p S).PagerAimed q := by
  refine h.keep (fun t ht => ?_) rfl ?_ id
  · rwa [Abs.setStage_stage_ne hq] at ht
  · exact congrFun (saved_setExceptState a.mem k s hq) _

/-- A semaphore operation of `p`. -/
theorem Abs.PagerAimed.semOp (h : a.PagerAimed q) {c : Call} (hc : (a.stage p).allows p (.call c))
    (s : Sem) (op : Semaphore.Op) (r : c.Res) :
    (a.semOp p s op ((a.stage p).next (.call c) r)).PagerAimed q := by
  by_cases hq : q = p
  · subst hq
    rcases Stage.allows_call hc with ⟨t, ht, hcall⟩ | ⟨g, hS, -⟩
    · exact h.call_pager ht hcall (Function.update_self ..) rfl
    · exact .of_none ((congrArg Stage.tlb (Function.update_self ..)).trans
        (Stage.next_none (by rw [hS])))
  · refine h.keep (fun t ht => ?_) rfl rfl (a.waitAfter_io s op)
    have hst : (a.semOp p s op ((a.stage p).next (.call c) r)).stage q = a.stage q :=
      Function.update_of_ne hq ..
    rwa [hst] at ht

/-- What translates an address of a process, if anything, is the entry of its page. -/
theorem Abs.translated {e : PteEntry} {va : Word} (h : a.paging.Tame)
    (htr : a.mem.translate (hiOf p va) = some e) :
    (∃ i, hiOf p va = pteHi p i) ∧ TameLo e.entryLO := by
  obtain ⟨s, hs, rfl⟩ := Option.map_eq_some_iff.mp htr
  exact h.hits (Tlb.hits_of_probe hs)

theorem Move.pagerAimed (h : Move a d a') (ht : a.paging.Tame) (hp : ∀ q, a.PagerAimed q)
    (q : Uproc) : a'.PagerAimed q := by
  cases h with
  | quiet => exact hp q
  | loaded => exact hp q
  | stck => exact hp q
  | readLoop => exact hp q
  | stored => exact (hp q).keep (fun _ h => h) rfl rfl id
  | refill => exact (hp q).keep (fun _ h => h) rfl rfl id
  | @fault p va e s hw hS htr he hhi =>
    by_cases hq : q = p
    · subst hq
      obtain ⟨⟨i, hva⟩, -⟩ := Abs.translated ht htr
      refine .of_stage (i := i) (t := .entry) (congrArg Stage.tlb Abs.setStage_stage) trivial ?_
      have hsaved : (a.mem.setExceptState q PGFAULTEXCEPT s).saved q PGFAULTEXCEPT = s :=
        a.mem.setExceptState_self q PGFAULTEXCEPT s
      exact (congrArg ProcState.entryHi hsaved).trans (hhi.trans hva)
    · exact (hp q).raise_other hq
  | @trap p =>
    by_cases hq : q = p
    · subst hq
      exact .of_none (congrArg Stage.tlb Abs.setStage_stage)
    · exact (hp q).raise_other hq
  | @again p =>
    by_cases hq : q = p
    · subst hq
      exact .of_none (congrArg Stage.tlb Abs.setStage_stage)
    · exact (hp q).raise_other hq
  | @act p y hw hy =>
    by_cases hq : q = p
    · subst hq
      rcases Stage.allows_act hy with ⟨t, ht, hact⟩ | ⟨g, hS, -⟩
      · exact (hp q).act_pager hw hy ht hact
      · exact .of_none ((congrArg Stage.tlb Abs.setStage_stage).trans
          (Stage.next_none (by rw [hS])))
    · refine (hp q).keep (fun t ht => ?_) (Stage.act_dev hy hq a.mem)
        (Stage.saved_act a.mem hy q PGFAULTEXCEPT (.inl hq)) id
      rwa [Abs.setStage_stage_ne hq] at ht
  | passeren s hw hc => exact (hp q).semOp hc s .passeren ()
  | verhogen s hw hc => exact (hp q).semOp hc s .verhogen ()
  | @issue p e v hw hc =>
    by_cases hq : q = p
    · subst hq
      rcases Stage.allows_doio hc with ⟨t, ht, hcall, rfl⟩ | ⟨hnone, -⟩
      · exact (hp q).issue_pager ht hcall
      · exact .of_none hnone
    · refine (hp q).keep (fun _ h => h) ?_ rfl fun he => ?_
      · exact Function.update_of_ne (Stage.doio_ne hc hq).symm ..
      · change Function.update a.wait p .io q = .io at he
        rwa [Function.update_of_ne hq] at he
  | @ended p e v status hw hc =>
    by_cases hq : q = p
    · subst hq
      rcases Stage.allows_doio hc with ⟨t, ht, hcall, rfl⟩ | ⟨hnone, -⟩
      · exact (hp q).call_pager ht hcall Abs.setStage_stage (a.mem.complete_sup _ status)
      · exact .of_none ((congrArg Stage.tlb Abs.setStage_stage).trans (Stage.next_none hnone))
    · have hne := Stage.doio_ne hc hq
      refine (hp q).keep (fun t ht => ?_) (a.mem.complete_dev status hne) ?_
        (wait_update_io (by simp))
      · rwa [Abs.setStage_stage_ne hq] at ht
      · exact congrFun (saved_of_sup (a.mem.complete_sup e status) q) _
  | die => exact (hp q).keep (fun _ h => h) rfl rfl (wait_update_io (by simp))
  | @resume p hw ht =>
    by_cases hq : q = p
    · subst hq
      exact .of_none (congrArg Stage.tlb Abs.setStage_stage)
    · refine (hp q).keep (fun t ht => ?_) rfl rfl id
      rwa [Abs.setStage_stage_ne hq] at ht
  | @finish p =>
    by_cases hq : q = p
    · subst hq
      exact .of_none (congrArg Stage.tlb Abs.setStage_stage)
    · refine (hp q).keep (fun t ht => ?_) rfl rfl id
      rwa [Abs.setStage_stage_ne hq] at ht

/-! ## All of it -/

/-- What holds in every run that keeps to the pages of the program and of the stack. -/
structure Abs.Tamed (a : Abs) : Prop extends a.Disciplined where
  tame : a.paging.Tame
  aimed : ∀ p, a.PagerAimed p

theorem Move.tamed (h : Move a d a') (hin : d.InPages) (ha : a.Tamed) : a'.Tamed where
  toDisciplined := h.disciplined ha.toDisciplined
  tame := (h.paging ha.toDisciplined).tame hin ha.tame
  aimed := h.pagerAimed ha.tame ha.aimed

theorem Abs.start_tamed {mem : Mem} (h : Initial mem) : (Abs.start mem).Tamed := by
  refine ⟨Abs.start_disciplined mem, ⟨fun x => mem.pte_hi x.1 x.2, ?_, fun s => .inl (h.tlb s)⟩,
    fun p => .of_none rfl⟩
  obtain ⟨⟨sup, spTbl, tlb, ram, dev, flash, rfl⟩, -⟩ := h
  intro x
  exact tameLo_dirty

end Rocm
