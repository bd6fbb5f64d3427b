import Rocm.Proofs.Entries
import Rocm.Properties.SupportSample

/-!
# What never happens in the handlers

In no run of the user processes in which the TLB misses only at pages of the table does a handler
come to a `PANIC` or use an array past its end, and the pager is never entered for a
TLB-modification exception: its `safe_kill` is never reached. Every fault that comes to it is at a
page that its process has.
-/

namespace Rocm

open Runs

variable [Umps] {m m' : System} {p q : Uproc} {va va' : Word} {a a' : Abs} {d : Did}

/-! ## The cause of a fault -/

/-- The state that a fault of `p` at `va` leaves, and the entry that has not permitted it. -/
structure FaultSaved (m : System) (p : Uproc) (va : Word) (m' : System) : Prop where
  saved : ∃ e s, m.mem.translate (hiOf p va) = some e ∧
    m'.mem = m.mem.setExceptState p PGFAULTEXCEPT s ∧
    (s.exc = EXC_MOD → e.entryLO &&& ENTRYLO_DIRTY = 0)

theorem used_faulted {ok : PteEntry → Did} (h : m.used p va ok = .faulted q va') :
    (q = p ∧ va' = va ∧ ∃ e, m.mem.translate (hiOf p va) = some e ∧ ¬ e.valid) ∨
      ∃ e, m.mem.translate (hiOf p va) = some e ∧ e.valid ∧ ok e = .faulted q va' := by
  unfold System.used at h
  split at h
  · next e he =>
    split at h
    · next hv => exact .inr ⟨e, he, hv, h⟩
    · next hv =>
      cases h
      exact .inl ⟨rfl, rfl, e, he, hv⟩
  · cases h

/-- The entry is there and not valid. -/
theorem access_faulted {e : PteEntry} (he : m.mem.translate (hiOf p va) = some e) (hv : ¬ e.valid)
    (exc : Word) (hexc : CAUSE_GET_EXCCODE (exc <<< CAUSESHIFT) ≠ EXC_MOD) (r : Refill)
    (s : ProcState) : ∃ m', m.access p va exc r s = .inr m' ∧ FaultSaved m p va m' := by
  refine ⟨m.raise p PGFAULTEXCEPT { System.excState s exc with entryHi := hiOf p va }, ?_,
    e, _, he, rfl, fun h => absurd h hexc⟩
  simp only [System.access, he, hv, Bool.false_eq_true, if_false]

theorem loadDid_faulted (h : m.loadDid p va = .faulted q va') :
    q = p ∧ va' = va ∧ ∃ e, m.mem.translate (hiOf p va) = some e ∧ ¬ e.valid := by
  rcases used_faulted h with h | ⟨e, -, -, h⟩
  · exact h
  · have h : Did.loaded p va (m.mem.ram (physAddr e va)) = .faulted q va' := h
    cases h

theorem storeDid_faulted {b : Byte} (h : m.storeDid p va b = .faulted q va') (r : Refill)
    (s : ProcState) (c : Cont) :
    q = p ∧ va' = va ∧ FaultSaved m p va (m.userStore p va b r s c) := by
  rcases used_faulted h with ⟨rfl, rfl, e, he, hv⟩ | ⟨e, he, hv, h⟩
  · obtain ⟨m', hm', hs⟩ := access_faulted he hv EXC_TLBS (by decide) r s
    refine ⟨rfl, rfl, ?_⟩
    rw [System.userStore, hm']
    exact hs
  · split at h
    · cases h
    · next hd =>
      cases h
      have hd : e.entryLO &&& ENTRYLO_DIRTY = 0 := not_not.mp hd
      have hacc : m.access p va EXC_TLBS r s = .inl e := by
        simp only [System.access, he, hv, if_true]
      refine ⟨rfl, rfl, e, { System.excState s EXC_MOD with entryHi := hiOf p va }, he, ?_,
        fun _ => hd⟩
      simp only [System.userStore, hacc, hd, ne_eq, not_true_eq_false, if_false]
      rfl

/-- The state that a fault leaves behind. -/
theorem System.next_faulted {e : UserEvent} (h : m.next e = some m')
    (hd : m.did e = .faulted p va) : FaultSaved m p va m' := by
  cases e with
  | user r pc i rf s =>
    simp only [System.next, Option.ite_none_right_eq_some] at h
    obtain ⟨-, h⟩ := h
    rcases used_faulted hd with ⟨rfl, rfl, e, he, hv⟩ | ⟨e, he, hv, hd⟩
    · obtain ⟨m1, hm1, hs⟩ := access_faulted he hv EXC_TLBL (by decide) rf s
      rw [hm1] at h
      exact Option.some.inj h ▸ hs
    · have hacc : m.access r pc EXC_TLBL rf s = .inl e := by
        simp only [System.access, he, hv, if_true]
      rw [hacc] at h
      cases i with
      | load va1 =>
        obtain ⟨rfl, rfl, e1, he1, hv1⟩ := loadDid_faulted hd
        obtain ⟨m1, hm1, hs⟩ := access_faulted he1 hv1 EXC_TLBL (by decide) rf s
        simp only [System.instr, hm1, Option.ite_none_right_eq_some] at h
        exact Option.some.inj h.2 ▸ hs
      | store va1 b =>
        obtain ⟨rfl, rfl, hs⟩ := storeDid_faulted hd rf s .user
        simp only [System.instr, Option.ite_none_right_eq_some] at h
        exact Option.some.inj h.2 ▸ hs
      | _ => cases hd
  | step r rf s now =>
    simp only [System.next, Option.ite_none_right_eq_some] at h
    obtain ⟨-, h⟩ := h
    dsimp only [System.did] at hd
    split at hd
    · next lvl c k hnow =>
      rw [hnow] at h
      dsimp only at h
      cases c with
      | act x => cases hd
      | call c =>
        cases c with
        | load va1 =>
          obtain ⟨rfl, rfl, e1, he1, hv1⟩ := loadDid_faulted hd
          obtain ⟨m1, hm1, hs⟩ := access_faulted he1 hv1 EXC_TLBL (by decide) rf s
          simp only [System.exec, hm1, Option.ite_none_right_eq_some] at h
          exact Option.some.inj h.2 ▸ hs
        | store va1 b =>
          obtain ⟨rfl, rfl, hs⟩ := storeDid_faulted hd rf s (.code lvl (k ()))
          simp only [System.exec, Option.ite_none_right_eq_some] at h
          exact Option.some.inj h.2 ▸ hs
        | _ => cases hd
    · cases hd
  | complete r status =>
    dsimp only [System.did] at hd
    split at hd <;> cases hd

/-! ## The pager never works for a store that is not permitted -/

/-- The fault that the pager of `q` works on is not a TLB modification. -/
def Abs.NotMod (a : Abs) (q : Uproc) : Prop :=
  (a.stage q).tlb.isSome → (a.mem.saved q PGFAULTEXCEPT).exc ≠ EXC_MOD

theorem Abs.NotMod.keep (h : a.NotMod q)
    (ht : (a'.stage q).tlb.isSome → (a.stage q).tlb.isSome)
    (hs : a'.mem.saved q PGFAULTEXCEPT = a.mem.saved q PGFAULTEXCEPT) : a'.NotMod q := fun h' => by
  rw [hs]
  exact h (ht h')

omit [Umps] in
/-- Only the stage of `p` changes, and the pager of `p` is not entered. -/
theorem tlb_isSome_update {st : Uproc → Stage} {S : Stage}
    (hS : S.tlb.isSome → (st p).tlb.isSome) :
    (Function.update st p S q).tlb.isSome → (st q).tlb.isSome := by
  by_cases hq : q = p
  · subst hq
    rwa [Function.update_self]
  · rw [Function.update_of_ne hq]
    exact id

omit [Umps] in
theorem Stage.next_isSome {S : Stage} {c : Cmd} {r : c.Res} (h : (S.next c r).tlb.isSome) :
    S.tlb.isSome := by
  cases ht : S.tlb with
  | some t => rfl
  | none =>
    rw [Stage.next_none ht] at h
    cases h

theorem Move.notMod (h : Move a d a') (hq : a.NotMod q)
    (hf : ∀ va, d = .faulted q va → (a'.mem.saved q PGFAULTEXCEPT).exc ≠ EXC_MOD) :
    a'.NotMod q := by
  cases h with
  | refill => exact hq.keep id (congrFun (saved_of_sup Mem.uTlbRefill_sup q) _)
  | @fault p va e s =>
    by_cases hp : q = p
    · subst hp
      exact fun _ => hf va rfl
    · refine hq.keep (fun h => ?_) (congrFun (saved_setExceptState a.mem _ s hp) _)
      change (Function.update a.stage p _ q).tlb.isSome at h
      rwa [Function.update_of_ne hp] at h
  | @trap p pc e s =>
    exact hq.keep (tlb_isSome_update nofun)
      (a.mem.setExceptState_of_ne s (.inr (by decide)))
  | @again p sup s =>
    exact hq.keep (tlb_isSome_update nofun)
      (a.mem.setExceptState_of_ne s (.inr (by decide)))
  | act x _ hx =>
    exact hq.keep (tlb_isSome_update Stage.next_isSome)
      (Stage.saved_act a.mem hx q PGFAULTEXCEPT (.inr (.inr rfl)))
  | passeren => exact hq.keep (tlb_isSome_update Stage.next_isSome) rfl
  | verhogen => exact hq.keep (tlb_isSome_update Stage.next_isSome) rfl
  | ended status =>
    exact hq.keep (tlb_isSome_update Stage.next_isSome)
      (congrFun (saved_of_sup (a.mem.complete_sup _ status) q) _)
  | resume => exact hq.keep (tlb_isSome_update nofun) rfl
  | finish => exact hq.keep (tlb_isSome_update nofun) rfl
  | _ => exact hq.keep id rfl

/-! ## Every run -/

/-- What holds of the handlers at every moment. -/
structure HandlersSafe (m : System) : Prop where
  panic : ∀ p lvl k, (m.proc p).now ≠ .code lvl (.cmd (.call .panic) k)
  wild : ∀ p lvl k, (m.proc p).now ≠ .code lvl (.cmd (.call .wild) k)
  /-- The pager is there for pages that are missing, not for stores that are not permitted. -/
  fault : ∀ p c, (m.proc p).now = .code .pager c →
    (m.mem.saved p PGFAULTEXCEPT).exc ≠ EXC_MOD ∧
      ∃ i, (m.mem.saved p PGFAULTEXCEPT).entryHi = (m.mem.pte (p, i)).entryHI
  /-- It does not come to its `safe_kill`. -/
  kill : ∀ p k, (m.proc p).now ≠ .code .pager (.cmd (.call .termProcess) k)
  /-- The general handler always ends in a system call. -/
  returns : ∀ p u, (m.proc p).now ≠ .code .general (.ret u)

/-- A fault is at an entry of the pager, which permits stores. -/
theorem Abs.Tamed.faulted_exc {st : Uproc → Stage} (ht : (m.abs st).Tamed)
    (h : FaultSaved m p va m') : (m'.mem.saved p PGFAULTEXCEPT).exc ≠ EXC_MOD := by
  obtain ⟨e, s, htr, hmem, hmod⟩ := h
  obtain ⟨-, hlo⟩ := Abs.translated (a := m.abs st) ht.tame htr
  have hs : m'.mem.saved p PGFAULTEXCEPT = s := by
    rw [hmem]
    exact m.mem.setExceptState_self p PGFAULTEXCEPT s
  rw [hs]
  exact fun hexc => hlo.dirty (hmod hexc)

theorem System.handlersSafe {st : Uproc → Stage} (hf : m.Fits st) (ht : (m.abs st).Tamed)
    (hmod : ∀ q, (m.abs st).NotMod q) : HandlersSafe m where
  panic p lvl k hnow := by
    obtain ⟨⟨hallow, -⟩, -, -⟩ := (hf p).follows hnow
    rcases Stage.allows_call hallow with ⟨t, -, hc⟩ | ⟨g, -, hc⟩ <;> cases hc
  wild p lvl k hnow := by
    obtain ⟨⟨hallow, -⟩, -, -⟩ := (hf p).follows hnow
    rcases Stage.allows_call hallow with ⟨t, hst, hc⟩ | ⟨g, -, hc⟩
    · cases hc with
      | @wild sup f hlarge =>
        have hsup : sup.supExceptState PGFAULTEXCEPT = m.mem.saved p PGFAULTEXCEPT :=
          (ht.sane p).tlb _ sup hst rfl
        obtain ⟨-, i, hi⟩ := ht.aimed p _ hst
        have hhi : sup.faultHi = pteHi p i := (congrArg ProcState.entryHi hsup).trans hi
        rw [hhi, pageIndex_pteHi] at hlarge
        exact absurd i.isLt (Nat.not_lt.mpr hlarge)
    · cases hc
  fault p c hnow := by
    obtain ⟨-, hlvl, -⟩ := (hf p).follows hnow
    have hsome := hlvl.mpr rfl
    obtain ⟨t, hst⟩ := Option.isSome_iff_exists.mp hsome
    obtain ⟨-, i, hi⟩ := ht.aimed p t hst
    exact ⟨hmod p hsome, i, hi.trans (ht.tame.hi (p, i)).symm⟩
  kill p k hnow := by
    obtain ⟨⟨hallow, -⟩, hlvl, -⟩ := (hf p).follows hnow
    have hsome := hlvl.mpr rfl
    rcases Stage.allows_call hallow with ⟨t, hst, hc⟩ | ⟨g, hS, -⟩
    · cases hc with
      | @termProcess sup hexc =>
        have hsup : sup.supExceptState PGFAULTEXCEPT = m.mem.saved p PGFAULTEXCEPT :=
          (ht.sane p).tlb _ sup hst rfl
        rw [hsup] at hexc
        exact hmod p hsome hexc
    · rw [hS] at hsome
      cases hsome
  returns p u hnow := by
    obtain ⟨hfol, hlvl, -⟩ := (hf p).follows hnow
    obtain ⟨sup, f, hst⟩ := hfol
    have hpager := hlvl.mp (by rw [hst]; rfl)
    cases hpager

theorem run_tamed {mem : Mem} {tr : List (System × UserEvent × System)} (hi : Initial mem)
    (h : Run (UserStep fun m e => (m.did e).InPages) (.start mem) tr m) :
    ∃ st, m.Fits st ∧ (m.abs st).Tamed ∧ ∀ q, (m.abs st).NotMod q := by
  refine h.invariant (I := fun m => ∃ st, m.Fits st ∧ (m.abs st).Tamed ∧
    ∀ q, (m.abs st).NotMod q) ⟨_, System.start_fits mem, Abs.start_tamed hi, fun _ => nofun⟩ ?_
  rintro m e m' ⟨st, hf, ht, hmod⟩ ⟨hnext, hin⟩
  obtain ⟨st', hf', hm⟩ := System.next_moves hf hnext
  refine ⟨st', hf', hm.tamed hin ht, fun q => hm.notMod (hmod q) fun va hd => ?_⟩
  exact ht.faulted_exc (System.next_faulted hnext hd)

/-- In every run of the user processes whose TLB misses are at pages of the table, whatever their
    programs do with these: no handler comes to a `PANIC`, uses an array past its end, or returns
    without a system call, except for the pager after a read of the flash that has failed; and the
    pager runs only for faults at pages that its process has, and never kills it. -/
theorem handlers_safe {mem : Mem} {tr : List (System × UserEvent × System)} (hi : Initial mem)
    (h : Run (UserStep fun m e => (m.did e).InPages) (.start mem) tr m) : HandlersSafe m := by
  obtain ⟨st, hf, ht, hmod⟩ := run_tamed hi h
  exact System.handlersSafe hf ht hmod

omit [Umps] in
/-- A process stores to a page that has been written back and is not valid any more: its pager is
    there for a page, as it would be for the first fault. -/
theorem handlers_safe_again :
    letI := sampleUmps
    ∃ tr m, Run (UserStep fun m e => (m.did e).InPages) (.start sampleMem) tr m ∧
      (m.mem.saved 0 PGFAULTEXCEPT).entryHi = pteHi 0 0 ∧ ¬ (m.proc 0).now.isUser ∧
      HandlersSafe m := by
  let _ := sampleUmps
  obtain ⟨tr, m, h, hP⟩ := System.exists_run_of_play (fun m e => (m.did e).InPages)
    (.start sampleMem)
    (bringInPage 0 0 0 ++
      ((List.finRange 15).flatMap fun i => bringInPage 0 (i.succ.castLE (by decide)) 0) ++
      replacePage 0 16 0 ++ List.replicate 2 (fetchAt 0 KUSEG 0))
    (P := fun _ m => (m.mem.saved 0 PGFAULTEXCEPT).entryHi = pteHi 0 0 ∧ ¬ (m.proc 0).now.isUser)
    (by decide +kernel)
  obtain ⟨hhi, huser⟩ := of_decide_eq_true hP
  exact ⟨tr, m, h, hhi, huser, handlers_safe sampleMem_initial h⟩

end Rocm
