import Rocm.Proofs.Stages
import Rocm.Refine.Support

/-!
# The semaphores of the support level

What the stages say about each other and about the saved states, and the invariant of the
semaphores: each is held by at most one process, and who waits is in the queue.
-/

namespace Rocm

variable [Umps] {p : Uproc} {a a' : Abs} {d : Did}

/-- The support structure that the general handler has read. -/
def GenStage.sup : GenStage → Option SupportT
  | .plain sup => some sup
  | .holding sup _ => some sup
  | .cleaning sup _ => some sup
  | .cleaned sup => some sup
  | _ => none

/-- The support structure that the pager has read. -/
def TlbStage.sup : TlbStage → Option SupportT
  | .started sup => some sup
  | .locked sup => some sup
  | .chosen sup _ => some sup
  | .victim sup _ => some sup
  | .victimAt sup _ _ => some sup
  | .invalid sup _ _ => some sup
  | .saving sup _ _ _ _ => some sup
  | .saved sup _ => some sup
  | .cleared sup _ => some sup
  | .loading sup _ _ => some sup
  | .loaded sup _ => some sup
  | .failed sup _ => some sup
  | _ => none

/-- What holds of the stage of a process by itself, with the states saved for its handlers. -/
structure Sane (p : Uproc) (S : Stage) (saved : Fin 2 → ProcState) : Prop where
  outer : S.tlb.isSome → S.gen = none ∨ ∃ sup s, S.gen = some (.holding sup s)
  service : ∀ sup s, S.gen = some (.holding sup s) → s ∈ serviceSems p ∧ ¬ sup.IsTerminate
  cleaning : ∀ sup v, S.gen = some (.cleaning sup v) → sup.IsTerminate
  cleaned : ∀ sup, S.gen = some (.cleaned sup) → sup.IsTerminate
  gen : ∀ g sup, S.gen = some g → g.sup = some sup →
    sup.supExceptState GENERALEXCEPT = saved GENERALEXCEPT
  tlb : ∀ t sup, S.tlb = some t → t.sup = some sup →
    sup.supExceptState PGFAULTEXCEPT = saved PGFAULTEXCEPT

/-- The states saved for a process. -/
def Mem.saved (m : Mem) (p : Uproc) : Fin 2 → ProcState := (m.sup p).supExceptState

omit [Umps] in
/-- No handler has read anything yet. -/
theorem Sane.fresh {S : Stage} {saved : Fin 2 → ProcState} (htlb : S.tlb = none)
    (hgen : S.gen = none ∨ S.gen = some .entry ∨ S.gen = some .returning) : Sane p S saved := by
  constructor
  · rw [htlb]
    nofun
  · rcases hgen with h | h | h <;> rw [h] <;> nofun
  · rcases hgen with h | h | h <;> rw [h] <;> nofun
  · rcases hgen with h | h | h <;> rw [h] <;> nofun
  · intro g sup hg hsup
    rcases hgen with h | h | h <;> rw [h] at hg
    · cases hg
    · cases hg
      cases hsup
    · cases hg
      cases hsup
  · rw [htlb]
    nofun

omit [Umps] in
/-- A process whose general handler has cleaned its frames is not in its pager. -/
theorem Sane.not_cleaned {S : Stage} {saved : Fin 2 → ProcState} (h : Sane p S saved)
    (ht : S.tlb.isSome) (sup : SupportT) : S.gen ≠ some (.cleaned sup) := by
  intro hgen
  rcases h.outer ht with hnone | ⟨sup', s, hold⟩
  · cases hnone.symm.trans hgen
  · cases hold.symm.trans hgen

omit [Umps] in
/-- The pager goes on; the general handler stays. -/
theorem Sane.setTlb {S : Stage} {saved : Fin 2 → ProcState} (h : Sane p S saved) {t t' : TlbStage}
    (ht : S.tlb = some t) (hsup : t'.sup = t.sup ∨ t'.sup = none ∨
      ∃ sup, t'.sup = some sup ∧ sup.supExceptState PGFAULTEXCEPT = saved PGFAULTEXCEPT) :
    Sane p ⟨S.gen, some t'⟩ saved := by
  refine ⟨fun _ => h.outer (by rw [ht]; rfl), h.service, h.cleaning, h.cleaned, h.gen, ?_⟩
  rintro u sup hu hs
  obtain rfl := Option.some.inj hu
  rcases hsup with he | he | ⟨sup', he, hsaved⟩
  · exact h.tlb t sup ht (he ▸ hs)
  · rw [he] at hs
    cases hs
  · rw [he] at hs
    rw [← Option.some.inj hs]
    exact hsaved

omit [Umps] in
/-- The general handler goes on with the same support structure. -/
theorem Sane.setGen {saved : Fin 2 → ProcState} {g g' : GenStage} (h : Sane p ⟨some g, none⟩ saved)
    (hsup : g'.sup = g.sup) (hserv : ∀ sup s, g' = .holding sup s → s ∈ serviceSems p ∧
      ¬ sup.IsTerminate) (hclean : ∀ sup v, g' = .cleaning sup v → sup.IsTerminate)
    (hcleaned : ∀ sup, g' = .cleaned sup → sup.IsTerminate) : Sane p ⟨some g', none⟩ saved := by
  refine ⟨nofun, fun sup s he => hserv sup s (Option.some.inj he),
    fun sup v he => hclean sup v (Option.some.inj he),
    fun sup he => hcleaned sup (Option.some.inj he), ?_, nofun⟩
  rintro g1 sup hg1 hs
  obtain rfl := Option.some.inj hg1
  exact h.gen g sup rfl (hsup ▸ hs)

theorem TlbStage.sup_act {t : TlbStage} {x : Act} (m : Mem) (hx : t.ActOf p x) :
    (t.next (.act x) (x.run m).1).sup = t.sup ∨ (t.next (.act x) (x.run m).1).sup = none ∨
      ∃ sup, (t.next (.act x) (x.run m).1).sup = some sup ∧
        sup.supExceptState PGFAULTEXCEPT = m.saved p PGFAULTEXCEPT := by
  cases hx with
  | support => exact .inr (.inr ⟨_, rfl, rfl⟩)
  | @usable sup f =>
    left
    rw [TlbStage.next_usable]
    split <;> rfl
  | install => exact .inr (.inl rfl)
  | _ => exact .inl rfl

omit [Umps] in
theorem TlbStage.sup_call {t : TlbStage} {c : Call} (r : c.Res) (hc : t.CallOf p c) :
    (t.next (.call c) r).sup = t.sup ∨ (t.next (.call c) r).sup = none := by
  cases hc with
  | @saveUnlock sup f x e status =>
    left
    rw [TlbStage.next_saved]
    split <;> rfl
  | @loadUnlock sup f status =>
    left
    rw [TlbStage.next_read]
    split <;> rfl
  | unlock => exact .inr rfl
  | _ => exact .inl rfl

/-- An access of a handler leaves the states saved for the pager alone. -/
theorem Stage.saved_act {S : Stage} {x : Act} (m : Mem) (hx : S.allows p (.act x)) (q : Uproc)
    (k : Fin 2) (hk : q ≠ p ∨ S.tlb.isSome ∨ k = PGFAULTEXCEPT) :
    (x.run m).2.saved q k = m.saved q k := by
  refine Act.run_exceptState m x q k ?_
  rintro s rfl
  rcases Stage.allows_act hx with ⟨t, -, ht⟩ | ⟨g, rfl, hg⟩
  · cases ht
  · cases hg
    rcases hk with h | h | h
    · exact h rfl
    · cases h
    · exact absurd h (by decide)

theorem Sane.act {S : Stage} {x : Act} {m : Mem} (h : Sane p S (m.saved p))
    (hx : S.allows p (.act x)) : Sane p (S.next (.act x) (x.run m).1) ((x.run m).2.saved p) := by
  have hsaved := Stage.saved_act m hx
  rcases Stage.allows_act hx with ⟨t, ht, hact⟩ | ⟨g, rfl, hact⟩
  · have he : (x.run m).2.saved p = m.saved p :=
      funext fun k => hsaved p k (.inr (.inl (by rw [ht]; rfl)))
    rw [he, Stage.next, ht]
    exact h.setTlb ht (TlbStage.sup_act m hact)
  · cases hact with
    | entry =>
      refine ⟨nofun, nofun, nofun, nofun, ?_, nofun⟩
      rintro g sup hg hs
      obtain rfl := Option.some.inj hg
      obtain rfl := Option.some.inj hs
      rfl
    | support => exact h
    | status d => exact h
    | setExceptState s hn => exact .fresh rfl (.inr (.inr rfl))
    | loadAsids ht => exact h.setGen rfl nofun (fun sup v he => by cases he; exact ht) nofun
    | setData0 d v hd => exact h
    | @storeAsids sup v =>
      refine h.setGen rfl nofun nofun fun sup' he => ?_
      cases he
      exact h.cleaning sup v rfl

theorem Sane.call {S : Stage} {c : Call} {saved : Fin 2 → ProcState} (h : Sane p S saved)
    (hc : S.allows p (.call c)) (r : c.Res) : Sane p (S.next (.call c) r) saved := by
  rcases Stage.allows_call hc with ⟨t, ht, hcall⟩ | ⟨g, rfl, hcall⟩
  · rw [Stage.next, ht]
    rcases TlbStage.sup_call r hcall with he | he
    · exact h.setTlb ht (.inl he)
    · exact h.setTlb ht (.inr (.inl he))
  · cases hcall with
    | passeren s hs hn =>
      exact h.setGen rfl (fun sup s he => by cases he; exact ⟨hs, hn⟩) nofun nofun
    | verhogen => exact h.setGen rfl nofun nofun nofun
    | readLoop va i => exact h.setGen rfl nofun nofun nofun
    | _ => exact h

/-- Every process has a sane stage. -/
def Abs.Sane (a : Abs) : Prop := ∀ p, Rocm.Sane p (a.stage p) (a.mem.saved p)

/-- Only `p` moves. -/
theorem Abs.Sane.setStage (h : a.Sane) {m : Mem} {S : Stage}
    (hm : ∀ q, q ≠ p → m.saved q = a.mem.saved q) (hp : Rocm.Sane p S (m.saved p)) :
    ((a.setMem m).setStage p S).Sane := by
  intro q
  by_cases hq : q = p
  · subst hq
    simpa [Abs.setStage, Abs.setMem] using hp
  · have := h q
    rw [← hm q hq] at this
    simpa [Abs.setStage, Abs.setMem, Function.update_of_ne hq] using this

theorem Abs.Sane.setMem (h : a.Sane) {m : Mem} (hm : m.sup = a.mem.sup) : (a.setMem m).Sane := by
  intro q
  have := h q
  rwa [show a.mem.saved q = m.saved q by rw [Mem.saved, Mem.saved, hm]] at this

theorem saved_of_sup {m m' : Mem} (h : m'.sup = m.sup) (q : Uproc) : m'.saved q = m.saved q := by
  rw [Mem.saved, Mem.saved, h]

theorem saved_setExceptState (m : Mem) {q : Uproc} (k : Fin 2) (s : ProcState) (h : q ≠ p) :
    (m.setExceptState p k s).saved q = m.saved q :=
  funext fun _ => m.setExceptState_of_ne s (.inl h)

theorem Move.sane (h : Move a d a') (hs : a.Sane) : a'.Sane := by
  cases h with
  | quiet => exact hs
  | loaded => exact hs
  | stored => exact hs.setMem rfl
  | refill => exact hs.setMem Mem.uTlbRefill_sup
  | @fault p va e s _ hS =>
    refine hs.setStage (fun q hq => saved_setExceptState a.mem _ s hq) ?_
    have hk : (a.mem.setExceptState p PGFAULTEXCEPT s).saved p GENERALEXCEPT =
        a.mem.saved p GENERALEXCEPT := a.mem.setExceptState_of_ne s (.inr (by decide))
    have hp := hs p
    refine ⟨fun _ => ?_, hp.service, hp.cleaning, hp.cleaned, fun g sup hg hsup => ?_, ?_⟩
    · rcases hS with he | ⟨sup, sem, he⟩
      · left
        rw [he]
        rfl
      · right
        exact ⟨sup, sem, by rw [he]⟩
    · rw [hk]
      exact hp.gen g sup hg hsup
    · rintro t sup ht hsup
      obtain rfl := Option.some.inj ht
      cases hsup
  | trap =>
    exact hs.setStage (fun q hq => saved_setExceptState a.mem _ _ hq)
      (.fresh rfl (.inr (.inl rfl)))
  | again =>
    exact hs.setStage (fun q hq => saved_setExceptState a.mem _ _ hq)
      (.fresh rfl (.inr (.inl rfl)))
  | @act p x _ hx =>
    exact hs.setStage (fun q hq => funext fun k => Stage.saved_act a.mem hx q k (.inl hq))
      ((hs p).act hx)
  | @passeren p s _ hc => exact hs.setStage (m := a.mem) (fun _ _ => rfl) ((hs p).call hc ())
  | @verhogen p s _ hc => exact hs.setStage (m := a.mem) (fun _ _ => rfl) ((hs p).call hc ())
  | issue => exact hs.setMem rfl
  | @ended p d v status _ hc =>
    have hm := a.mem.complete_sup d status
    refine hs.setStage (m := a.mem.complete d status) (fun q _ => saved_of_sup hm q) ?_
    rw [saved_of_sup hm p]
    exact (hs p).call hc status
  | die => exact hs
  | stck => exact hs
  | readLoop => exact hs
  | @resume p _ ht =>
    have hp := hs p
    exact hs.setStage (m := a.mem) (fun _ _ => rfl)
      ⟨nofun, hp.service, hp.cleaning, hp.cleaned, hp.gen, nofun⟩
  | finish => exact hs.setStage (m := a.mem) (fun _ _ => rfl) (.fresh rfl (.inl rfl))

theorem Abs.start_sane (m : Mem) : (Abs.start m).Sane := fun _ => .fresh rfl (.inl rfl)

/-! ## Which semaphores a stage holds -/

/-- The order in which semaphores are taken: those of the services, `sp_sem`, those of the flash. -/
def Sem.rank : Sem → Nat
  | .spSem => 1
  | .dev type _ => if type = 1 then 2 else 0

omit [Umps] in
theorem rank_service {s : Sem} (h : s ∈ serviceSems p) : s.rank = 0 := by
  rcases List.mem_cons.mp h with rfl | h
  · rfl
  · rcases List.mem_cons.mp h with rfl | h
    · rfl
    · rw [List.mem_singleton.mp h]
      rfl

section Held

variable {S : Stage} {saved : Fin 2 → ProcState}

omit [Umps] in
theorem Sane.rank_gen (h : Sane p S saved) : ∀ s ∈ S.gen.elim [] GenStage.held, s.rank = 0 := by
  intro s hs
  cases hg : S.gen with
  | none =>
    rw [hg] at hs
    cases hs
  | some g =>
    rw [hg] at hs
    cases g with
    | holding sup s' =>
      rw [List.mem_singleton.mp hs]
      exact rank_service (h.service sup s' hg).1
    | _ => cases hs

theorem Stage.held_act {x : Act} (r : x.Res) (h : S.allows p (.act x)) :
    (S.next (.act x) r).held p = S.held p := by
  rcases Stage.allows_act h with ⟨t, ht, hact⟩ | ⟨g, rfl, hact⟩
  · unfold Stage.next Stage.held
    rw [ht]
    cases hact with
    | usable => cases r <;> rfl
    | _ => rfl
  · cases hact <;> rfl

/-- A P takes a semaphore above all that are held. -/
theorem Sane.held_passeren (hS : Sane p S saved) {s : Sem} (h : S.allows p (.call (.passeren s))) :
    (S.next (.call (.passeren s)) ()).held p = s :: S.held p ∧ ∀ s' ∈ S.held p, s'.rank < s.rank := by
  rcases Stage.allows_call h with ⟨t, ht, hcall⟩ | ⟨g, rfl, hcall⟩
  · have hgen := hS.rank_gen
    unfold Stage.next Stage.held
    rw [ht]
    have hlow : ∀ s' ∈ S.gen.elim [] GenStage.held, s'.rank < 1 := fun s' hs' => by
      rw [hgen s' hs']
      exact Nat.one_pos
    have hflash : ∀ s' ∈ [Sem.spSem] ++ S.gen.elim [] GenStage.held, s'.rank < 2 := by
      intro s' hs'
      rcases List.mem_append.mp hs' with hs' | hs'
      · rw [List.mem_singleton.mp hs']
        exact Nat.one_lt_two
      · exact (hlow s' hs').trans Nat.one_lt_two
    cases hcall with
    | lock => exact ⟨rfl, hlow⟩
    | saveLock => exact ⟨rfl, hflash⟩
    | loadLock => exact ⟨rfl, hflash⟩
    | loadRelock => exact ⟨rfl, hflash⟩
  · cases hcall
    exact ⟨rfl, nofun⟩

/-- A V releases the semaphore that was taken last. -/
theorem Stage.held_verhogen {s : Sem} (h : S.allows p (.call (.verhogen s))) :
    S.held p = s :: (S.next (.call (.verhogen s)) ()).held p := by
  rcases Stage.allows_call h with ⟨t, ht, hcall⟩ | ⟨g, rfl, hcall⟩
  · unfold Stage.next Stage.held
    rw [ht]
    cases hcall with
    | @saveUnlock sup f x e status =>
      simp only [TlbStage.next_saved]
      split <;> rfl
    | @loadUnlock sup f status =>
      simp only [TlbStage.next_read]
      split <;> rfl
    | unlock => rfl
  · cases hcall
    rfl

theorem Stage.held_doio {d : SubDev} {v : Word} (r : Word) (h : S.allows p (.call (.doio d v))) :
    (S.next (.call (.doio d v)) r).held p = S.held p := by
  rcases Stage.allows_call h with ⟨t, ht, hcall⟩ | ⟨g, rfl, hcall⟩
  · unfold Stage.next Stage.held
    rw [ht]
    cases hcall <;> rfl
  · cases hcall
    rfl

omit [Umps] in
theorem TlbStage.held_cases (t : TlbStage) :
    t.held p = [] ∨ t.held p = [.spSem] ∨ t.held p = [flashSem p, .spSem] := by
  cases t with
  | entry => exact .inl rfl
  | started => exact .inl rfl
  | released => exact .inl rfl
  | saving sup f x e io => cases io <;> simp [TlbStage.held, IoStage.isLocked]
  | loading sup f io => cases io <;> simp [TlbStage.held, IoStage.isLocked]
  | _ => exact .inr (.inl rfl)

omit [Umps] in
/-- No semaphore is held twice. -/
theorem Sane.held_nodup (h : Sane p S saved) : (S.held p).Nodup := by
  have hgen := h.rank_gen
  have hgenNodup : (S.gen.elim [] GenStage.held).Nodup := by
    cases S.gen with
    | none => exact List.nodup_nil
    | some g =>
      cases g with
      | holding sup s => exact List.nodup_singleton s
      | _ => exact List.nodup_nil
  have htlb : S.tlb.elim [] (TlbStage.held p) = [] ∨ S.tlb.elim [] (TlbStage.held p) = [.spSem] ∨
      S.tlb.elim [] (TlbStage.held p) = [flashSem p, .spSem] := by
    cases S.tlb with
    | none => exact .inl rfl
    | some t => exact t.held_cases
  have hsp : Sem.spSem ∉ S.gen.elim [] GenStage.held := fun hm => by simpa [Sem.rank] using hgen _ hm
  have hflash : flashSem p ∉ S.gen.elim [] GenStage.held := fun hm => by
    simpa [Sem.rank] using hgen _ hm
  unfold Stage.held
  rcases htlb with he | he | he <;> rw [he]
  · exact hgenNodup
  · exact List.nodup_cons.mpr ⟨hsp, hgenNodup⟩
  · refine List.nodup_cons.mpr ⟨?_, List.nodup_cons.mpr ⟨hsp, hgenNodup⟩⟩
    rintro (_ | ⟨_, hm⟩)
    exact hflash hm

end Held

/-! ## The invariant -/

/-- The process is between the P and the V of the semaphore. -/
def Abs.Holds (a : Abs) (p : Uproc) (s : Sem) : Prop :=
  s ∈ (a.stage p).held p ∧ a.wait p ≠ .sem s

structure Abs.Locked (a : Abs) : Prop where
  /-- A semaphore that is up has no holder, one that is down has one. -/
  free : ∀ s, (a.sem s).up = true → (a.sem s).queue = [] ∧ ∀ p, ¬ a.Holds p s
  taken : ∀ s, (a.sem s).up = false → ∃ p, ∀ q, a.Holds q s ↔ q = p
  /-- The queue is that of those who wait. -/
  queue : ∀ s p, p ∈ (a.sem s).queue ↔ a.wait p = .sem s
  nodup : ∀ s, (a.sem s).queue.Nodup
  /-- Who waits holds only semaphores of a lower rank. -/
  waits : ∀ p s, a.wait p = .sem s →
    ∃ held, (a.stage p).held p = s :: held ∧ ∀ s' ∈ held, s'.rank < s.rank

/-- Nobody takes or releases a semaphore. -/
theorem Abs.Locked.same (h : a.Locked) (hsem : a'.sem = a.sem)
    (hheld : ∀ q, (a'.stage q).held q = (a.stage q).held q)
    (hwait : ∀ q s, a'.wait q = .sem s ↔ a.wait q = .sem s) : a'.Locked := by
  have hholds : ∀ q s, a'.Holds q s ↔ a.Holds q s := fun q s => by
    rw [Abs.Holds, Abs.Holds, hheld, ne_eq, hwait, ne_eq]
  refine ⟨fun s hs => ?_, fun s hs => ?_, fun s q => ?_, fun s => ?_, fun q s hq => ?_⟩
  · rw [hsem] at hs ⊢
    exact ⟨(h.free s hs).1, fun q hq => (h.free s hs).2 q ((hholds q s).mp hq)⟩
  · rw [hsem] at hs
    obtain ⟨q, hq⟩ := h.taken s hs
    exact ⟨q, fun q' => (hholds q' s).trans (hq q')⟩
  · rw [hsem, hwait]
    exact h.queue s q
  · rw [hsem]
    exact h.nodup s
  · rw [hheld]
    exact h.waits q s ((hwait q s).mp hq)

/-- Only the stage of `p` changes, and what it holds does not. -/
theorem held_setStage {S : Stage} (hp : S.held p = (a.stage p).held p) (q : Uproc) :
    (Function.update a.stage p S q).held q = (a.stage q).held q := by
  by_cases hq : q = p
  · subst hq
    rwa [Function.update_self]
  · rw [Function.update_of_ne hq]

/-- A process that does not wait for a semaphore goes on or waits for something else. -/
theorem wait_setWait {w : Wait} (hp : ∀ s, a.wait p ≠ .sem s) (hw : ∀ s, w ≠ .sem s) (q : Uproc)
    (s : Sem) : Function.update a.wait p w q = .sem s ↔ a.wait q = .sem s := by
  by_cases hq : q = p
  · subst hq
    rw [Function.update_self]
    exact iff_of_false (hw s) (hp s)
  · rw [Function.update_of_ne hq]

/-- What a P or a V makes of the semaphores and of who waits. -/
theorem Abs.semOp_cases (hl : a.Locked) (s : Sem) (op : Semaphore.Op) (S : Stage) :
    ((a.sem s).up = op.blocksAt ∧ (a.semOp p s op S).wait = Function.update a.wait p (.sem s) ∧
      (a.semOp p s op S).sem = Function.update a.sem s ⟨(a.sem s).up, (a.sem s).queue ++ [p]⟩) ∨
    ((a.sem s).up ≠ op.blocksAt ∧ ∃ w ws, (a.sem s).queue = w :: ws ∧ a.wait w = .sem s ∧
      (a.semOp p s op S).wait = Function.update a.wait w .ready ∧
      (a.semOp p s op S).sem = Function.update a.sem s ⟨(a.sem s).up, ws⟩) ∨
    ((a.sem s).up ≠ op.blocksAt ∧ (a.sem s).queue = [] ∧ (a.semOp p s op S).wait = a.wait ∧
      (a.semOp p s op S).sem = Function.update a.sem s ⟨op.blocksAt, []⟩) := by
  unfold Abs.semOp Abs.waitAfter Semaphore.State.call
  dsimp only
  by_cases hup : (a.sem s).up = op.blocksAt
  · exact .inl ⟨hup, by rw [if_pos hup], by rw [if_pos hup]⟩
  · rw [if_neg hup, if_neg hup]
    cases hq : (a.sem s).queue with
    | cons w ws =>
      have hw : a.wait w = .sem s := (hl.queue s w).mp (by rw [hq]; exact List.mem_cons_self)
      exact .inr (.inl ⟨hup, w, ws, rfl, hw, rfl, rfl⟩)
    | nil => exact .inr (.inr ⟨hup, rfl, rfl, rfl⟩)

/-- A semaphore other than the one that is operated on. -/
theorem Abs.Locked.of_sem (h : a.Locked) {s : Sem} (hsem : ∀ s', s' ≠ s → a'.sem s' = a.sem s')
    (hholds : ∀ q s', s' ≠ s → (a'.Holds q s' ↔ a.Holds q s'))
    (hwait : ∀ q s', s' ≠ s → (a'.wait q = .sem s' ↔ a.wait q = .sem s'))
    (hs : ((a'.sem s).up = true → (a'.sem s).queue = [] ∧ ∀ p, ¬ a'.Holds p s) ∧
      ((a'.sem s).up = false → ∃ p, ∀ q, a'.Holds q s ↔ q = p) ∧
      (∀ p, p ∈ (a'.sem s).queue ↔ a'.wait p = .sem s) ∧ (a'.sem s).queue.Nodup)
    (hwaits : ∀ p s, a'.wait p = .sem s →
      ∃ held, (a'.stage p).held p = s :: held ∧ ∀ s' ∈ held, s'.rank < s.rank) : a'.Locked := by
  obtain ⟨hup, hdown, hqueue, hnodup⟩ := hs
  refine ⟨fun s' hs' => ?_, fun s' hs' => ?_, fun s' q => ?_, fun s' => ?_, hwaits⟩
  · by_cases he : s' = s
    · subst he
      exact hup hs'
    · rw [hsem s' he] at hs' ⊢
      exact ⟨(h.free s' hs').1, fun q hq => (h.free s' hs').2 q ((hholds q s' he).mp hq)⟩
  · by_cases he : s' = s
    · subst he
      exact hdown hs'
    · rw [hsem s' he] at hs'
      obtain ⟨q, hq⟩ := h.taken s' hs'
      exact ⟨q, fun q' => (hholds q' s' he).trans (hq q')⟩
  · by_cases he : s' = s
    · subst he
      exact hqueue q
    · rw [hsem s' he, hwait q s' he]
      exact h.queue s' q
  · by_cases he : s' = s
    · subst he
      exact hnodup
    · rw [hsem s' he]
      exact h.nodup s'

theorem Abs.semOp_stage {s : Sem} {op : Semaphore.Op} {S : Stage} :
    (a.semOp p s op S).stage p = S := Function.update_self ..

theorem Abs.Locked.passeren (hl : a.Locked) {saved : Fin 2 → ProcState}
    (hS : Rocm.Sane p (a.stage p) saved) (hw : a.wait p = .ready) {s : Sem}
    (hc : (a.stage p).allows p (.call (.passeren s))) :
    (a.semOp p s .passeren ((a.stage p).next (.call (.passeren s)) ())).Locked := by
  obtain ⟨hheld, hrank⟩ := hS.held_passeren hc
  have hnot : s ∉ (a.stage p).held p := fun hm => Nat.lt_irrefl _ (hrank s hm)
  have hp : ∀ s', a.wait p ≠ .sem s' := fun s' he => by rw [hw] at he; cases he
  have hcases := a.semOp_cases hl s .passeren ((a.stage p).next (.call (.passeren s)) ()) (p := p)
  set a' := a.semOp p s .passeren ((a.stage p).next (.call (.passeren s)) ()) with ha'
  have hstage : ∀ q, q ≠ p → a'.stage q = a.stage q := fun q hq => Function.update_of_ne hq ..
  have hstageP : (a'.stage p).held p = s :: (a.stage p).held p := by
    rw [← hheld, ha', Abs.semOp_stage]
  rcases hcases with ⟨hup, hwait, hsem⟩ | ⟨hup, w, ws, hq, -⟩ | ⟨hup, hq, hwait, hsem⟩
  · have hwaitNe : ∀ q, q ≠ p → a'.wait q = a.wait q := fun q hq => by
      rw [hwait, Function.update_of_ne hq]
    have hwaitP : a'.wait p = .sem s := by rw [hwait, Function.update_self]
    have hholds : ∀ q s', a'.Holds q s' ↔ a.Holds q s' := by
      intro q s'
      by_cases hqp : q = p
      · subst hqp
        unfold Abs.Holds
        rw [hstageP, hwaitP, List.mem_cons]
        constructor
        · rintro ⟨rfl | hm, hne⟩
          · exact absurd rfl hne
          · exact ⟨hm, hp s'⟩
        · rintro ⟨hm, -⟩
          exact ⟨.inr hm, fun he => hnot (by cases he; exact hm)⟩
      · unfold Abs.Holds
        rw [hstage q hqp, hwaitNe q hqp]
    refine hl.of_sem (s := s) (fun s' he => by rw [hsem, Function.update_of_ne he])
      (fun q s' _ => hholds q s') (fun q s' he => ?_) ?_ (fun q s' hq => ?_)
    · by_cases hqp : q = p
      · subst hqp
        rw [hwaitP]
        exact iff_of_false (fun h => he (by cases h; rfl)) (hp s')
      · rw [hwaitNe q hqp]
    · rw [hsem, Function.update_self]
      refine ⟨fun h => ?_, fun h => ?_, fun q => ?_, ?_⟩
      · rw [hup] at h
        cases h
      · obtain ⟨q, hq⟩ := hl.taken s h
        exact ⟨q, fun q' => (hholds q' s).trans (hq q')⟩
      · rw [List.mem_append, List.mem_singleton]
        by_cases hqp : q = p
        · subst hqp
          exact iff_of_true (.inr rfl) hwaitP
        · rw [hwaitNe q hqp, hl.queue s q]
          exact or_iff_left hqp
      · refine List.nodup_append.mpr ⟨hl.nodup s, List.nodup_singleton p, ?_⟩
        rintro q hq q' hq' rfl
        rw [List.mem_singleton.mp hq'] at hq
        exact hp s ((hl.queue s p).mp hq)
    · by_cases hqp : q = p
      · subst hqp
        rw [hwaitP] at hq
        obtain rfl : s = s' := by cases hq; rfl
        exact ⟨_, hstageP, hrank⟩
      · rw [hwaitNe q hqp] at hq
        rw [hstage q hqp]
        exact hl.waits q s' hq
  · rw [(hl.free s (by simpa [Semaphore.Op.blocksAt] using hup)).1] at hq
    cases hq
  · have hfree := (hl.free s (by simpa [Semaphore.Op.blocksAt] using hup)).2
    have hholds : ∀ q s', a'.Holds q s' ↔ a.Holds q s' ∨ q = p ∧ s' = s := by
      intro q s'
      unfold Abs.Holds
      rw [hwait]
      by_cases hqp : q = p
      · subst hqp
        rw [hstageP, List.mem_cons]
        constructor
        · rintro ⟨rfl | hm, hne⟩
          · exact .inr ⟨rfl, rfl⟩
          · exact .inl ⟨hm, hne⟩
        · rintro (⟨hm, hne⟩ | ⟨-, rfl⟩)
          · exact ⟨.inr hm, hne⟩
          · exact ⟨.inl rfl, hp s'⟩
      · rw [hstage q hqp]
        exact (or_iff_left fun h => hqp h.1).symm
    refine hl.of_sem (s := s) (fun s' he => by rw [hsem, Function.update_of_ne he])
      (fun q s' he => (hholds q s').trans (or_iff_left fun h => he h.2))
      (fun q s' _ => by rw [hwait]) ?_ (fun q s' hq => ?_)
    · rw [hsem, Function.update_self]
      refine ⟨by rintro ⟨⟩, fun _ => ⟨p, fun q => ?_⟩, fun q => ?_, List.nodup_nil⟩
      · rw [hholds]
        exact (or_iff_right (hfree q)).trans (and_iff_left rfl)
      · rw [hwait, ← hl.queue s q, hq]
    · rw [hwait] at hq
      by_cases hqp : q = p
      · subst hqp
        exact absurd hq (hp s')
      · rw [hstage q hqp]
        exact hl.waits q s' hq

/-- A process holds the semaphore on which it does a V, so the semaphore is down. -/
theorem Abs.Locked.down (hl : a.Locked) (hw : a.wait p = .ready) {s : Sem}
    (hc : (a.stage p).allows p (.call (.verhogen s))) : (a.sem s).up = false := by
  have hholds : a.Holds p s := by
    refine ⟨?_, fun he => ?_⟩
    · rw [Stage.held_verhogen hc]
      exact List.mem_cons_self
    · rw [hw] at he
      cases he
  cases hup : (a.sem s).up with
  | false => rfl
  | true => exact absurd hholds ((hl.free s hup).2 p)

theorem Abs.Locked.verhogen (hl : a.Locked) {saved : Fin 2 → ProcState}
    (hS : Rocm.Sane p (a.stage p) saved) (hw : a.wait p = .ready) {s : Sem}
    (hc : (a.stage p).allows p (.call (.verhogen s))) :
    (a.semOp p s .verhogen ((a.stage p).next (.call (.verhogen s)) ())).Locked := by
  have hheld := Stage.held_verhogen hc
  have hdown := hl.down hw hc
  have hp : ∀ s', a.wait p ≠ .sem s' := fun s' he => by rw [hw] at he; cases he
  have hnodup := hS.held_nodup
  rw [hheld, List.nodup_cons] at hnodup
  have hpHolds : a.Holds p s := ⟨by rw [hheld]; exact List.mem_cons_self, hp s⟩
  have honly : ∀ q, a.Holds q s → q = p := by
    obtain ⟨q0, hq0⟩ := hl.taken s hdown
    intro q hq
    rw [(hq0 q).mp hq, (hq0 p).mp hpHolds]
  have hcases := a.semOp_cases hl s .verhogen ((a.stage p).next (.call (.verhogen s)) ()) (p := p)
  set a' := a.semOp p s .verhogen ((a.stage p).next (.call (.verhogen s)) ()) with ha'
  have hstage : ∀ q, q ≠ p → a'.stage q = a.stage q := fun q hq => Function.update_of_ne hq ..
  have hstageP : (a.stage p).held p = s :: (a'.stage p).held p := by
    rw [hheld, ha', Abs.semOp_stage]
  have hnotP : s ∉ (a'.stage p).held p := by
    rw [ha', Abs.semOp_stage]
    exact hnodup.1
  have hother : ∀ q s', s' ≠ s → (s' ∈ (a'.stage q).held q ↔ s' ∈ (a.stage q).held q) := by
    intro q s' he
    by_cases hqp : q = p
    · subst hqp
      rw [hstageP, List.mem_cons]
      exact (or_iff_right he).symm
    · rw [hstage q hqp]
  rcases hcases with ⟨hup, -⟩ | ⟨-, w, ws, hq, hww, hwait, hsem⟩ | ⟨-, hq, hwait, hsem⟩
  · rw [hdown] at hup
    cases hup
  · have hwp : w ≠ p := fun he => hp s (he ▸ hww)
    have hwaitNe : ∀ q, q ≠ w → a'.wait q = a.wait q := fun q hq => by
      rw [hwait, Function.update_of_ne hq]
    have hwaitW : a'.wait w = .ready := by rw [hwait, Function.update_self]
    have hws : w ∉ ws := by
      have := hl.nodup s
      rw [hq] at this
      exact (List.nodup_cons.mp this).1
    have hwaits : ∀ q s', q ≠ w → (a'.wait q = .sem s' ↔ a.wait q = .sem s') := fun q s' hqw => by
      rw [hwaitNe q hqw]
    refine hl.of_sem (s := s) (fun s' he => by rw [hsem, Function.update_of_ne he])
      (fun q s' he => ?_) (fun q s' he => ?_) ?_ (fun q s' hq' => ?_)
    · unfold Abs.Holds
      rw [hother q s' he]
      by_cases hqw : q = w
      · subst hqw
        rw [hwaitW, hww]
        exact and_congr_right fun _ => iff_of_true nofun fun h => he (by cases h; rfl)
      · rw [hwaitNe q hqw]
    · by_cases hqw : q = w
      · subst hqw
        rw [hwaitW, hww]
        exact iff_of_false nofun fun h => he (by cases h; rfl)
      · exact hwaits q s' hqw
    · rw [hsem, Function.update_self]
      refine ⟨fun h => ?_, fun _ => ⟨w, fun q => ⟨fun hh => ?_, ?_⟩⟩, fun q => ?_, ?_⟩
      · rw [hdown] at h
        cases h
      · by_contra hqw
        by_cases hqp : q = p
        · subst hqp
          exact hnotP hh.1
        · refine hqp (honly q ⟨?_, ?_⟩)
          · rw [← hstage q hqp]
            exact hh.1
          · rw [← hwaitNe q hqw]
            exact hh.2
      · rintro rfl
        refine ⟨?_, ?_⟩
        · rw [hstage q hwp]
          obtain ⟨held, hh, -⟩ := hl.waits q s hww
          rw [hh]
          exact List.mem_cons_self
        · rw [hwaitW]
          nofun
      · by_cases hqw : q = w
        · subst hqw
          rw [hwaitW]
          exact iff_of_false hws nofun
        · rw [hwaits q s hqw, ← hl.queue s q, hq, List.mem_cons]
          exact (or_iff_right hqw).symm
      · have := hl.nodup s
        rw [hq] at this
        exact (List.nodup_cons.mp this).2
    · have hqw : q ≠ w := by
        rintro rfl
        rw [hwaitW] at hq'
        cases hq'
      rw [hwaits q s' hqw] at hq'
      have hqp : q ≠ p := fun he => hp s' (he ▸ hq')
      rw [hstage q hqp]
      exact hl.waits q s' hq'
  · refine hl.of_sem (s := s) (fun s' he => by rw [hsem, Function.update_of_ne he])
      (fun q s' he => ?_) (fun q s' _ => by rw [hwait]) ?_ (fun q s' hq' => ?_)
    · unfold Abs.Holds
      rw [hother q s' he, hwait]
    · rw [hsem, Function.update_self]
      refine ⟨fun _ => ⟨rfl, fun q hh => ?_⟩, nofun, fun q => ?_, List.nodup_nil⟩
      · by_cases hqp : q = p
        · subst hqp
          exact hnotP hh.1
        · refine hqp (honly q ⟨?_, ?_⟩)
          · rw [← hstage q hqp]
            exact hh.1
          · rw [← hwait]
            exact hh.2
      · rw [hwait, ← hl.queue s q, hq]
    · rw [hwait] at hq'
      have hqp : q ≠ p := fun he => hp s' (he ▸ hq')
      rw [hstage q hqp]
      exact hl.waits q s' hq'

/-- A move is a P, a V or changes nothing about the semaphores. -/
theorem Move.lock_cases (h : Move a d a') :
    (∃ p s, d = .gave p (.call (.passeren s)) ∧ a.wait p = .ready ∧
      (a.stage p).allows p (.call (.passeren s)) ∧
      a' = a.semOp p s .passeren ((a.stage p).next (.call (.passeren s)) ())) ∨
    (∃ p s, d = .gave p (.call (.verhogen s)) ∧ a.wait p = .ready ∧
      (a.stage p).allows p (.call (.verhogen s)) ∧
      a' = a.semOp p s .verhogen ((a.stage p).next (.call (.verhogen s)) ())) ∨
    ((∀ p s, d ≠ .gave p (.call (.passeren s)) ∧ d ≠ .gave p (.call (.verhogen s))) ∧
      a'.sem = a.sem ∧ (∀ q, (a'.stage q).held q = (a.stage q).held q) ∧
      ∀ q s, a'.wait q = .sem s ↔ a.wait q = .sem s) := by
  have hready : ∀ {p}, a.wait p = .ready → ∀ s, a.wait p ≠ .sem s := fun hw s he => by
    rw [hw] at he
    cases he
  have hno : ∀ {p : Uproc} {c : Cmd}, (∀ s, c ≠ .call (.passeren s) ∧ c ≠ .call (.verhogen s)) →
      ∀ q s, Did.gave p c ≠ .gave q (.call (.passeren s)) ∧
        Did.gave p c ≠ .gave q (.call (.verhogen s)) := fun hc q s =>
    ⟨fun he => (hc s).1 (Did.gave.inj he).2, fun he => (hc s).2 (Did.gave.inj he).2⟩
  cases h with
  | passeren s hw hc => exact .inl ⟨_, s, rfl, hw, hc, rfl⟩
  | verhogen s hw hc => exact .inr (.inl ⟨_, s, rfl, hw, hc, rfl⟩)
  | quiet => exact .inr (.inr ⟨fun _ _ => ⟨nofun, nofun⟩, rfl, fun _ => rfl, fun _ _ => .rfl⟩)
  | loaded => exact .inr (.inr ⟨fun _ _ => ⟨nofun, nofun⟩, rfl, fun _ => rfl, fun _ _ => .rfl⟩)
  | stored => exact .inr (.inr ⟨fun _ _ => ⟨nofun, nofun⟩, rfl, fun _ => rfl, fun _ _ => .rfl⟩)
  | refill => exact .inr (.inr ⟨fun _ _ => ⟨nofun, nofun⟩, rfl, fun _ => rfl, fun _ _ => .rfl⟩)
  | fault hw hS =>
    refine .inr (.inr ⟨fun _ _ => ⟨nofun, nofun⟩, rfl, held_setStage (a := a) ?_,
      fun _ _ => .rfl⟩)
    rcases hS with he | ⟨sup, sem, he⟩
    · rw [he]
      rfl
    · rw [he]
      rfl
  | trap hw hS =>
    refine .inr (.inr ⟨fun _ _ => ⟨nofun, nofun⟩, rfl, held_setStage (a := a) ?_,
      fun _ _ => .rfl⟩)
    rw [hS]
    rfl
  | again hw hS =>
    refine .inr (.inr ⟨hno fun _ => ⟨nofun, nofun⟩, rfl, held_setStage (a := a) ?_,
      fun _ _ => .rfl⟩)
    rw [hS]
    rfl
  | act x hw hx =>
    exact .inr (.inr ⟨hno fun _ => ⟨nofun, nofun⟩, rfl,
      held_setStage (a := a) (Stage.held_act _ hx), fun _ _ => .rfl⟩)
  | issue d v hw =>
    exact .inr (.inr ⟨hno fun _ => ⟨nofun, nofun⟩, rfl, fun _ => rfl,
      wait_setWait (hready hw) nofun⟩)
  | ended status hw hc =>
    refine .inr (.inr ⟨fun _ _ => ⟨nofun, nofun⟩, rfl,
      held_setStage (a := a) (Stage.held_doio status hc), wait_setWait (a := a) ?_ nofun⟩)
    intro s he
    rw [hw] at he
    cases he
  | die hw =>
    exact .inr (.inr ⟨hno fun _ => ⟨nofun, nofun⟩, rfl, fun _ => rfl,
      wait_setWait (hready hw) nofun⟩)
  | stck =>
    exact .inr (.inr ⟨hno fun _ => ⟨nofun, nofun⟩, rfl, fun _ => rfl, fun _ _ => .rfl⟩)
  | readLoop =>
    exact .inr (.inr ⟨hno fun _ => ⟨nofun, nofun⟩, rfl, fun _ => rfl, fun _ _ => .rfl⟩)
  | resume hw ht =>
    refine .inr (.inr ⟨hno fun _ => ⟨nofun, nofun⟩, rfl, held_setStage (a := a) ?_,
      fun _ _ => .rfl⟩)
    unfold Stage.held
    rw [ht]
    rfl
  | finish hw hS =>
    refine .inr (.inr ⟨hno fun _ => ⟨nofun, nofun⟩, rfl, held_setStage (a := a) ?_,
      fun _ _ => .rfl⟩)
    rw [hS]
    rfl

/-- Every move keeps the invariant of the semaphores. -/
theorem Move.locked (h : Move a d a') (hs : a.Sane) (hl : a.Locked) : a'.Locked := by
  rcases h.lock_cases with ⟨p, s, -, hw, hc, rfl⟩ | ⟨p, s, -, hw, hc, rfl⟩ |
    ⟨-, hsem, hheld, hwait⟩
  · exact hl.passeren (hs p) hw hc
  · exact hl.verhogen (hs p) hw hc
  · exact hl.same hsem hheld hwait

theorem Abs.start_locked (m : Mem) : (Abs.start m).Locked := by
  refine ⟨fun s _ => ⟨rfl, fun p hh => ?_⟩, fun s hs => ?_, fun s p => ?_, fun s => ?_, ?_⟩
  · exact absurd hh.1 List.not_mem_nil
  · cases hs
  · exact iff_of_false List.not_mem_nil nofun
  · exact List.nodup_nil
  · nofun

/-! ## Both invariants -/

/-- The invariants of the processes and of the semaphores. -/
structure Abs.Ordered (a : Abs) : Prop where
  sane : a.Sane
  locked : a.Locked

theorem Move.ordered {a a' : Abs} {d : Did} (h : Move a d a') (ho : a.Ordered) : a'.Ordered :=
  ⟨h.sane ho.sane, h.locked ho.sane ho.locked⟩

theorem Abs.start_ordered (m : Mem) : (Abs.start m).Ordered :=
  ⟨Abs.start_sane m, Abs.start_locked m⟩

/-- The holders after a move are those that the move leaves between a P and a V. -/
theorem Move.holds_iff {a a' : Abs} {d : Did} (h : Move a d a') (ho : a.Ordered) (p : Uproc)
    (s : Sem) :
    a'.Holds p s ↔ d ≠ .gave p (.call (.verhogen s)) ∧
      (a.Holds p s ∨ (d = .gave p (.call (.passeren s)) ∨ a.wait p = .sem s) ∧
        a'.wait p ≠ .sem s) := by
  have hl := ho.locked
  rcases h.lock_cases with ⟨q, t, rfl, hw, hc, rfl⟩ | ⟨q, t, rfl, hw, hc, rfl⟩ |
    ⟨hd, -, hheld, hwait⟩
  · obtain ⟨hheld, hrank⟩ := (ho.sane q).held_passeren hc
    have hcases := a.semOp_cases hl t .passeren ((a.stage q).next (.call (.passeren t)) ()) (p := q)
    set a' := a.semOp q t .passeren ((a.stage q).next (.call (.passeren t)) ()) with ha'
    have hwaitQ : ∀ s', s' ≠ t → a'.wait q ≠ .sem s' := by
      intro s' hs' he
      rcases hcases with ⟨-, hwait, -⟩ | ⟨-, w, ws, -, hww, hwait, -⟩ | ⟨-, -, hwait, -⟩
      · rw [hwait, Function.update_self] at he
        cases he
        exact hs' rfl
      · rw [hwait, Function.update_apply] at he
        split at he
        · cases he
        · rw [hw] at he
          cases he
      · rw [hwait, hw] at he
        cases he
    by_cases hp : p = q
    · subst hp
      have hheld' : (a'.stage p).held p = t :: (a.stage p).held p := by
        rw [ha', Abs.semOp_stage, hheld]
      unfold Abs.Holds
      rw [hheld', List.mem_cons, hw]
      by_cases hs : s = t
      · subst hs
        have hnot : s ∉ (a.stage p).held p := fun hm => Nat.lt_irrefl _ (hrank s hm)
        simp [hnot]
      · simp [hs, hwaitQ s hs, eq_comm]
    · have hstage : a'.stage p = a.stage p := Function.update_of_ne hp ..
      have hwait : a'.wait p = a.wait p := by
        rcases hcases with ⟨-, hwait, -⟩ | ⟨hup, w, ws, hq, -⟩ | ⟨-, -, hwait, -⟩
        · rw [hwait, Function.update_of_ne hp]
        · rw [(hl.free t (by simpa [Semaphore.Op.blocksAt] using hup)).1] at hq
          cases hq
        · rw [hwait]
      unfold Abs.Holds
      rw [hstage, hwait]
      simp [Ne.symm hp]
  · have hheld := Stage.held_verhogen hc
    have hdown := hl.down hw hc
    have hnodup := (ho.sane q).held_nodup
    rw [hheld, List.nodup_cons] at hnodup
    have hcases := a.semOp_cases hl t .verhogen ((a.stage q).next (.call (.verhogen t)) ()) (p := q)
    set a' := a.semOp q t .verhogen ((a.stage q).next (.call (.verhogen t)) ()) with ha'
    have hother : ¬ (p = q ∧ s = t) → (s ∈ (a'.stage p).held p ↔ s ∈ (a.stage p).held p) := by
      intro hne
      by_cases hp : p = q
      · subst hp
        rw [ha', Abs.semOp_stage, hheld, List.mem_cons]
        exact (or_iff_right fun he => hne ⟨rfl, he⟩).symm
      · rw [show a'.stage p = a.stage p from Function.update_of_ne hp ..]
    by_cases hpq : p = q ∧ s = t
    · obtain ⟨rfl, rfl⟩ := hpq
      refine iff_of_false (fun hh => hnodup.1 ?_) fun hh => hh.1 rfl
      have hm := hh.1
      rwa [ha', Abs.semOp_stage] at hm
    · have hd : Did.gave q (.call (.verhogen t)) ≠ .gave p (.call (.verhogen s)) := by
        intro he
        cases he
        exact hpq ⟨rfl, rfl⟩
      have hd' : Did.gave q (.call (.verhogen t)) ≠ .gave p (.call (.passeren s)) := by simp
      have hsame : a'.wait p = a.wait p → (a'.Holds p s ↔ a.Holds p s ∨ a.wait p = .sem s ∧
          a'.wait p ≠ .sem s) := by
        intro hwait
        unfold Abs.Holds
        rw [hother hpq, hwait]
        exact (or_iff_left fun h => h.2 h.1).symm
      rw [and_iff_right hd, or_iff_right hd']
      rcases hcases with ⟨hup, -⟩ | ⟨-, w, ws, -, hww, hwait, -⟩ | ⟨-, -, hwait, -⟩
      · rw [hdown] at hup
        cases hup
      · by_cases hpw : p = w
        · subst hpw
          have hready : a'.wait p = .ready := by rw [hwait, Function.update_self]
          obtain ⟨held, hh, -⟩ := hl.waits p t hww
          unfold Abs.Holds
          rw [hother hpq, hready, hww, hh]
          by_cases hs : s = t
          · subst hs
            simp
          · simp [hs, eq_comm]
        · exact hsame (by rw [hwait, Function.update_of_ne hpw])
      · exact hsame (by rw [hwait])
  · unfold Abs.Holds
    rw [hheld, ne_eq, hwait, ne_eq]
    have h1 := (hd p s).1
    have h2 := (hd p s).2
    constructor
    · intro hh
      exact ⟨h2, .inl hh⟩
    · rintro ⟨-, hh | ⟨he | hw, hne⟩⟩
      · exact hh
      · exact absurd he h1
      · exact absurd hw hne

end Rocm
