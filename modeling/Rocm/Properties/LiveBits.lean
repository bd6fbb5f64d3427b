import Rocm.Properties.FrameOwnership
import Rocm.Proofs.Marks
import Rocm.Support.Session

/-!
# The bits of the processes that live

Whether `sp_asids` says which processes live. It does as long as every process that ends does so by
its SYS2 and nothing stores to `sp_asids` while `clean_frames` changes it. A process that ends by a
trap, by an unknown system call or by a bad argument of `read_from_terminal` is killed by
`safe_kill`, which tells the pager nothing.
-/

namespace Rocm

open Runs

variable [Umps]

def System.Alive (m : System) (p : Uproc) : Prop := (m.proc p).wait ≠ .dead

instance (m : System) (p : Uproc) : Decidable (m.Alive p) := inferInstanceAs (Decidable (¬ _))

/-- A frame of the swap pool is recorded as one of the process. -/
def System.Owns (m : System) (p : Uproc) : Prop := ∃ f, (m.mem.spTbl f).asid = asid p

instance (m : System) (p : Uproc) : Decidable (m.Owns p) := inferInstanceAs (Decidable (∃ _, _))

/-- What the bit of a process says. -/
structure BitTrue (m : System) (p : Uproc) : Prop where
  set : Marked m.mem.spAsids p → m.Alive p
  clear : ¬ Marked m.mem.spAsids p → m.Alive p → ¬ m.Owns p

/-- The process that a step kills. -/
def Did.kills : Did → Option Uproc
  | .gave p (.call .termProcess) => some p
  | _ => none

/-- The TLB misses at pages of the table. A process that is killed is in the handler of its SYS2.
    What `clean_frames` stores is made from the bits as they are, for a process that no frame is
    recorded of. -/
structure Orderly (m : System) (d : Did) : Prop where
  inPages : d.InPages
  told : ∀ p ∈ d.kills, m.Terminating p
  now : ∀ x ∈ d.stores, x.2 = m.mem.spAsids ^^^ Mem.asidBit (asid x.1)
  unowned : ∀ x ∈ d.stores, ¬ m.Owns x.1

instance (m : System) (d : Did) : Decidable (Orderly m d) :=
  letI := Option.decidableForallMem (p := m.Terminating) d.kills
  letI := Option.decidableForallMem
    (p := fun x : Uproc × BitVec 8 => x.2 = m.mem.spAsids ^^^ Mem.asidBit (asid x.1)) d.stores
  letI := Option.decidableForallMem (p := fun x : Uproc × BitVec 8 => ¬ m.Owns x.1) d.stores
  decidable_of_iff (d.InPages ∧ (∀ p ∈ d.kills, m.Terminating p) ∧
      (∀ x ∈ d.stores, x.2 = m.mem.spAsids ^^^ Mem.asidBit (asid x.1)) ∧
      ∀ x ∈ d.stores, ¬ m.Owns x.1)
    ⟨fun h => ⟨h.1, h.2.1, h.2.2.1, h.2.2.2⟩, fun h => ⟨h.inPages, h.told, h.now, h.unowned⟩⟩

/-- The generic handler of a process that is killed in its SYS2 has executed `clean_frames`. -/
theorem Move.told {m : System} {st : Uproc → Stage} {a' : Abs} {p : Uproc} (hf : m.Fits st)
    (hs : (m.abs st).Sane) (h : Move (m.abs st) (.gave p (.call .termProcess)) a')
    (ht : m.Terminating p) : (m.abs st).Gone p := by
  rcases ht with ht | ⟨hgen, hterm⟩
  · exact .inl ht
  · cases h with
    | die hw hc =>
      have hnow := (hf p).now
      have hsane := hs p
      have hc : (st p).allows p (.call .termProcess) := hc
      rcases Stage.allows_call hc with ⟨t, ht, -⟩ | ⟨g, hS, hg⟩
      · rw [ht, Option.isSome_some, if_pos rfl] at hnow
        obtain ⟨c, hc, -⟩ := hnow
        rw [hc] at hgen
        cases hgen
      · cases hg with
        | @kill sup hn =>
          have hsup := hsane.gen _ sup (by change (st p).gen = _; rw [hS]) rfl
          rw [SupportT.IsTerminate, hsup] at hn
          exact absurd hterm hn
        | @terminated sup => exact .inr ⟨sup, by change (st p).gen = _; rw [hS]⟩

omit [Umps] in
theorem Did.stores_eq {d : Did} {x : Uproc × BitVec 8} (h : d.stores = some x) :
    d = .gave x.1 (.act (.storeAsids x.2)) := by
  unfold Did.stores at h
  split at h
  · rw [← Option.some.inj h]
  · cases h

/-- The pager works for a process that lives. -/
theorem Move.installs {a a' : Abs} {p : Uproc} {f : Frame} {i : Page} (hs : a.Sane)
    (h : Move a (.gave p (.act (.install p f i))) a') : ¬ a.Gone p := by
  cases h with
  | act _ hw hc =>
    rcases Stage.allows_act hc with ⟨t, ht, -⟩ | ⟨g, -, hg⟩
    · exact hs.not_gone (by rw [hw]; simp) ht
    · cases hg

/-- What is known about the bits. -/
structure BitsKnown (a : Abs) : Prop where
  disciplined : a.Disciplined
  tracked : a.paging.Tracked
  unowned : a.paging.Unowned

theorem markSafe_of {m : System} {st : Uproc → Stage} {d : Did} {a' : Abs} (hf : m.Fits st)
    (hs : (m.abs st).Sane) (hm : Move (m.abs st) d a') (hin : d.InPages)
    (ht : ∀ p ∈ d.kills, m.Terminating p)
    (hn : ∀ x ∈ d.stores, x.2 = m.mem.spAsids ^^^ Mem.asidBit (asid x.1)) :
    MarkSafe (m.abs st).paging d := by
  constructor
  · exact hin
  · rintro p rfl
    exact hm.told hf hs (ht p rfl)
  · rintro p v rfl
    exact hn (p, v) rfl
  · rintro p f i rfl
    exact hm.installs hs

/-- What `clean_frames` stores clears the bit of the process and no other one. -/
theorem PageMove.clears {P P' : Paging} {d : Did} {x : Uproc × BitVec 8} (h : PageMove P d P')
    (hs : MarkSafe P d) (hc : P.Tracked) (hx : d.stores = some x) :
    Cleared P.spAsids P'.spAsids x.1 := by
  obtain rfl := Did.stores_eq hx
  cases h with
  | store v hlive hserv =>
    have hmark : Marked P.spAsids x.1 := (hc.serving x.1 hserv).resolve_right hlive
    dsimp only
    rw [hs.now x.1 x.2 rfl]
    exact cleared_xor.mpr hmark
  | finish hd => exact absurd rfl (hd x.1 x.2)
  | same hd => exact absurd rfl (hd x.1 x.2)

/-- A store to `sp_asids` is a step of a process that lives, and no frame changes hands. -/
theorem Move.store_same {a a' : Abs} {p : Uproc} {v : BitVec 8}
    (h : Move a (.gave p (.act (.storeAsids v))) a') :
    a'.wait p = .ready ∧ a'.mem.spTbl = a.mem.spTbl := by
  cases h with
  | act _ hw => exact ⟨hw, rfl⟩

/-- In a state in which the pager knows who is gone, the bits are true. -/
theorem BitsKnown.bitTrue {m : System} {st : Uproc → Stage} (h : BitsKnown (m.abs st)) (p : Uproc) :
    BitTrue m p where
  set hmark hdead := h.tracked.gone p (.inl hdead) hmark
  clear := by
    rintro hclear - ⟨f, ha⟩
    have hgone := (h.tracked.owner f p ha).resolve_left hclear
    exact h.unowned p hgone f ha

theorem Abs.start_tracked {mem : Mem} (h : Initial mem) : (Abs.start mem).paging.Tracked := by
  have hcoh := Abs.start_coherent h
  obtain ⟨⟨sup, spTbl, tlb, ram, dev, flash, rfl⟩, htlb⟩ := h
  refine ⟨hcoh.tables, ?_, ?_, ?_, ?_, ?_⟩
  · intro x hv
    refine absurd hv ?_
    change ¬ decide (ENTRYLO_DIRTY &&& ENTRYLO_VALID ≠ 0) = true
    decide
  · intro s p va hs
    exact absurd hs ((htlb s).not_hits p va)
  · intro f p ha
    exact absurd ha.symm (asid_ne_free p)
  · intro p hserv
    cases hserv
  · rintro p (hd | ⟨sup, hgen⟩)
    · cases hd
    · cases hgen

section Run

variable {mem : Mem} {tr : List (System × UserEvent × System)} {m : System}

theorem run_bits (hi : Initial mem)
    (h : Run (UserStep fun m e => Orderly m (m.did e)) (.start mem) tr m) :
    ∃ st, m.Fits st ∧ BitsKnown (m.abs st) := by
  have hnone : ∀ p, ¬ (Abs.start mem).paging.gone p := by
    rintro p (hd | ⟨sup, hgen⟩)
    · cases hd
    · cases hgen
  refine (run_invariant (I := BitsKnown) h
    ⟨Abs.start_disciplined mem, Abs.start_tracked hi, fun p hg => absurd hg (hnone p)⟩ ?_).1
  intro m e m' st st' hok hf hm hI
  have hsafe := markSafe_of hf hI.disciplined.sane hm hok.inPages hok.told hok.now
  have hpage := hm.paging hI.disciplined
  refine ⟨hm.disciplined hI.disciplined, hpage.tracked hsafe hI.tracked,
    hpage.unowned hsafe (fun p v hd => ?_) hI.unowned⟩
  have hno := hok.unowned (p, v) (by rw [hd]; rfl)
  exact fun f ha => hno ⟨f, ha⟩

theorem run_clears (hi : Initial mem)
    (h : Run (UserStep fun m e => Orderly m (m.did e)) (.start mem) tr m) :
    ∀ x ∈ tr, ∀ y ∈ (x.1.did x.2.1).stores,
      Cleared x.1.mem.spAsids x.2.2.mem.spAsids y.1 := by
  induction h with
  | nil => simp
  | @snoc tr m e m' hr hstep ih =>
    intro x hx y hy
    rcases List.mem_append.mp hx with hx | hx
    · exact ih x hx y hy
    · obtain rfl := List.mem_singleton.mp hx
      obtain ⟨st, hf, hI⟩ := run_bits hi hr
      obtain ⟨st', -, hm⟩ := System.next_moves hf hstep.1
      have hok := hstep.2
      have hsafe := markSafe_of hf hI.disciplined.sane hm hok.inPages hok.told hok.now
      exact (hm.paging hI.disciplined).clears hsafe hI.tracked hy

/-- `clean_frames` stores what it should, whether or not the process is recorded of a frame: then
    the bit is clear, and the process still lives. -/
theorem bitTrue_store {e : UserEvent} {m' : System} {p : Uproc} (hi : Initial mem)
    (h : Run (UserStep fun m e => Orderly m (m.did e)) (.start mem) tr m) (hn : m.next e = some m')
    (hs : (m.did e).stores = some (p, m.mem.spAsids ^^^ Mem.asidBit (asid p))) :
    BitTrue m' p ↔ ¬ m.Owns p := by
  obtain ⟨st, hf, hI⟩ := run_bits hi h
  obtain ⟨st', -, hm⟩ := System.next_moves hf hn
  have hd := Did.stores_eq hs
  rw [hd] at hm
  have hsafe := markSafe_of hf hI.disciplined.sane hm nofun nofun
    (fun x hx => by obtain rfl := Option.some.inj hx; rfl)
  have hcleared := (hm.paging hI.disciplined).clears hsafe hI.tracked rfl
  have hclear : ¬ Marked m'.mem.spAsids p := fun hmark => ((hcleared p).mp hmark).2 rfl
  obtain ⟨hwait, htbl⟩ := hm.store_same
  have hlive : m'.Alive p := fun hdead => by
    have hready : (m'.proc p).wait = .ready := hwait
    rw [hready] at hdead
    cases hdead
  have howns : m'.Owns p ↔ m.Owns p := by
    have htbl : m'.mem.spTbl = m.mem.spTbl := htbl
    unfold System.Owns
    rw [htbl]
  constructor
  · exact fun hbit ho => hbit.clear hclear hlive (howns.mpr ho)
  · exact fun hno => ⟨fun hmark => absurd hmark hclear, fun _ _ ho => hno (howns.mp ho)⟩

end Run

/-- `clean_frames` by itself. -/
theorem run_cleanFrames (s : Session) (fuel : Nat) (p : Uproc) :
    (s.run fuel (cleanFrames (asid p))).2.mem.spAsids =
      s.mem.spAsids ^^^ Mem.asidBit (asid p) := by
  have hrun : s.run fuel (do
      let spAsids ← act .loadAsids
      act (.storeAsids (spAsids ^^^ Mem.asidBit (asid p)))) =
      Session.run { s with mem.spAsids := s.mem.spAsids ^^^ Mem.asidBit (asid p) } fuel (.ret ()) :=
    Session.run_act.trans Session.run_act
  rw [cleanFrames_asid, hrun]
  rfl

/-- In every run in which the processes end by their SYS2 and `clean_frames` stores what it has made
    of the bits as they are, for a process without a frame, at every moment: the bits of `sp_asids`
    say which processes live. The stores of `clean_frames` clear one bit each. The law fails as soon
    as it stores for a process that is recorded of a frame. By itself `clean_frames` clears the bit
    of its process and no other one exactly in the states in which that bit is set. -/
theorem bits_live {mem : Mem} {tr : List (System × UserEvent × System)} {m : System}
    (hi : Initial mem)
    (h : Run (UserStep fun m e => Orderly m (m.did e)) (.start mem) tr m) :
    (∀ p, BitTrue m p) ∧
      (∀ x ∈ tr, ∀ y ∈ (x.1.did x.2.1).stores,
        Cleared x.1.mem.spAsids x.2.2.mem.spAsids y.1) ∧
      (∀ e m' p, m.next e = some m' →
        (m.did e).stores = some (p, m.mem.spAsids ^^^ Mem.asidBit (asid p)) →
        (BitTrue m' p ↔ ¬ m.Owns p)) ∧
      ∀ (s : Session) (fuel : Nat) (p : Uproc),
        Cleared s.mem.spAsids (s.run fuel (cleanFrames (asid p))).2.mem.spAsids p ↔
          Marked s.mem.spAsids p := by
  obtain ⟨st, -, hI⟩ := run_bits hi h
  refine ⟨hI.bitTrue, run_clears hi h, fun e m' p hn hs => bitTrue_store hi h hn hs,
    fun s fuel p => ?_⟩
  rw [run_cleanFrames]
  exact cleared_xor

omit [Umps] in
/-- A process calls SYS2 and is interrupted in `clean_frames`, until another one has taken its only
    frame. Then it ends. -/
theorem bits_live_evicted :
    letI := sampleUmps
    ∃ tr m, Run (UserStep fun m e => Orderly m (m.did e)) (.start sampleMem) tr m ∧
      ¬ m.Alive 0 ∧ ¬ Marked m.mem.spAsids 0 ∧ m.Owns 1 ∧ Marked m.mem.spAsids 1 ∧
      (∃ x ∈ tr, (x.1.did x.2.1).stores.isSome) ∧ ∀ p, BitTrue m p := by
  let _ := sampleUmps
  obtain ⟨tr, m, h, hP⟩ := System.exists_run_of_play (fun m e => Orderly m (m.did e))
    (.start sampleMem)
    (bringInPage 0 0 0 ++
      ((List.finRange 15).flatMap fun i => bringInPage 1 (i.castLE (by decide)) 1) ++
      beginTerminate 0 0 ++ replacePage 1 15 1 ++ List.replicate 2 (stepAt 0 0))
    (P := fun tr m => ¬ m.Alive 0 ∧ ¬ Marked m.mem.spAsids 0 ∧ m.Owns 1 ∧ Marked m.mem.spAsids 1 ∧
      ∃ x ∈ tr, (x.1.did x.2.1).stores.isSome) (by decide +kernel)
  obtain ⟨hdead, hclear, howns, hmark, hstore⟩ := of_decide_eq_true hP
  exact ⟨tr, m, h, hdead, hclear, howns, hmark, hstore, (bits_live sampleMem_initial h).1⟩

omit [Umps] in
/-- A process brings in a page and is killed for a trap. Its bit stays set. -/
theorem bits_live_trap :
    letI := sampleUmps
    ∃ tr m, Run (UserStep fun _ _ => True) (.start sampleMem) tr m ∧ ¬ BitTrue m 0 := by
  let _ := sampleUmps
  obtain ⟨tr, m, h, hP⟩ := System.exists_run_of_play (fun _ _ => True) (.start sampleMem)
    (bringInPage 0 0 0 ++ .user 0 KUSEG (.trap EXC_RI) (refillAt 0) .zero ::
      List.replicate 2 (stepAt 0 0))
    (P := fun _ m => Marked m.mem.spAsids 0 ∧ ¬ m.Alive 0) (by decide +kernel)
  obtain ⟨hmark, hdead⟩ := of_decide_eq_true hP
  exact ⟨tr, m, h, fun hbit => hdead (hbit.set hmark)⟩

end Rocm
