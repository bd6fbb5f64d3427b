import Rocm.Properties.Sample

/-!
# Completions of a terminal

Of the two halves of a terminal the handler serves the first one whose operation succeeded. A half
that has failed is never served.
-/

namespace Rocm

open Prog ProcTable Runs

variable [Layout]

/-- From `k` to `k'` the completion of the sub-device `d` has been served, and nothing has been done
    to another one. -/
structure CompletionServed (k k' : Kernel View) (d : SubDev) : Prop where
  completed : (k.g.dev d).intr
  acknowledged : k'.g.dev d = (k.g.dev d).store ACK ∧ ¬ (k'.g.dev d).intr
  others : ∀ d', d' ≠ d → k'.g.dev d' = k.g.dev d'
  woken : ∀ w ws, k.lists.blocked (Layout.toAddresses.semAddr (.dev d)) = w :: ws →
    k'.lists = (k.wake (Layout.toAddresses.semAddr (.dev d)) w).lists ∧
      (k'.g.pcb w).pSemAdd = NULL ∧ (k'.g.pcb w).pS.gpr regV0 = (k.g.dev d).status
  nobody : k.lists.blocked (Layout.toAddresses.semAddr (.dev d)) = [] → k'.lists = k.lists

/-- The terminal `n` is the one that interrupts. -/
def Interrupting (g : Globals) (n : Fin 8) : Prop := topBit 32 (g.bitmap 4) 0 = n

omit [Layout] in
instance (g : Globals) (n : Fin 8) : Decidable (Interrupting g n) :=
  inferInstanceAs (Decidable (_ = _))

/-- `handle_interrupts(IL_TERMINAL)`, which leads from `k` to `k'`, serves one half of the terminal
    `n`, and every half that has completed is served then or when the handler is repeated. -/
structure HalvesServed (n : Fin 8) (k k' : Kernel Heap) : Prop where
  one : ∃ d ∈ subDevs 4 n, CompletionServed k.abs k'.abs d
  both : ∀ d ∈ subDevs 4 n, (k.g.dev d).intr → CompletionServed k.abs k'.abs d ∨
    ∃ r k'', handleInterrupts 7 k' = .ok r k'' ∧ CompletionServed k'.abs k''.abs d

section Terminal

variable {k k' : Kernel View} {r : EhAct}

/-- What is done about an interrupt of a terminal. -/
theorem Outcome.of_terminal (h : Outcome k r k') (hint : k.g.IntTaken)
    (hl : k.g.servedLine = some 7) : r = .continue ∧ ((k.g.served = none ∧ k' = k) ∨ ∃ d p k1,
      k.g.served = some d ∧ VStep (Layout.toAddresses.semAddr (.dev d)) k p k1 ∧
        k' = k1.mapG fun g => (g.deliver p (k.g.dev d).status).command d ACK) := by
  have hne : ∀ {line : Fin 8}, k.g.servedLine = some line → line = 7 := fun h =>
    Option.some.inj (h.symm.trans hl)
  cases h with
  | slice _ h => exact absurd (hne h) (by decide)
  | tick _ h => exact absurd (hne h) (by decide)
  | served _ hs hv => exact ⟨rfl, .inr ⟨_, _, _, hs, hv, rfl⟩⟩
  | unserved _ _ _ _ hs => exact ⟨rfl, .inl ⟨hs, rfl⟩⟩
  | spurious hs =>
    rcases hs with hs | hs
    · exact absurd (hs.2.symm.trans hl) (by simp)
    · exact absurd hint hs.1.1
  | sys _ hcall => exact absurd hint (not_intTaken hcall)
  | die ht => exact absurd hint ht.1

/-- The V of a completion and what follows it. -/
theorem VStep.completionServed {d : SubDev} {p : Option PcbId} {k1 : Kernel View}
    (hz : k.g.int (Layout.toAddresses.semAddr (.dev d)) = 0) (hintr : (k.g.dev d).intr)
    (hbusy : (k.g.dev d).busy = false)
    (hv : VStep (Layout.toAddresses.semAddr (.dev d)) k p k1) :
    CompletionServed k (k1.mapG fun g => (g.deliver p (k.g.dev d).status).command d ACK) d := by
  have hne : k.g.int (Layout.toAddresses.semAddr (.dev d)) ≠ 1 := by rw [hz]; decide
  have hdev : (k1.g.deliver p (k.g.dev d).status).dev = k.g.dev := by
    rw [deliver_dev, hv.dev]
  have hack : ((k1.g.deliver p (k.g.dev d).status).command d ACK).dev d =
      (k.g.dev d).store ACK := by
    rw [Globals.command, hdev]
    exact Function.update_self ..
  constructor
  case completed => exact hintr
  case acknowledged =>
    refine ⟨hack, ?_⟩
    rw [mapG_g, hack, DevState.store, hbusy]
    simp
  case others =>
    intro d' hd'
    rw [mapG_g, Globals.command, hdev]
    exact Function.update_of_ne hd' ..
  case woken =>
    intro w ws hq
    cases hv with
    | idle hone => exact absurd hone hne
    | block hone => exact absurd hone hne
    | give _ hnil => rw [hnil] at hq; cases hq
    | wake _ hq' =>
      obtain ⟨rfl, rfl⟩ := List.cons.inj (hq'.symm.trans hq)
      refine ⟨rfl, ?_, ?_⟩
      · simp [Globals.command, Globals.deliver, Globals.setPS, Kernel.wake, Globals.unblock]
      · simp [Globals.command, Globals.deliver, Globals.setPS]
  case nobody =>
    intro hnil
    cases hv with
    | idle => rfl
    | block hone => exact absurd hone hne
    | wake _ hq => rw [hnil] at hq; cases hq
    | give => rfl

/-- An interrupt of the terminal `n` is handled. -/
structure TermTaken (k : Kernel View) (n : Fin 8) : Prop extends Entered k, SemsInv k where
  int : k.g.IntTaken
  line : k.g.servedLine = some 7
  no : Interrupting k.g n

theorem TermTaken.exists_completed {n : Fin 8} (h : TermTaken k n) :
    ∃ d ∈ subDevs 4 n, (k.g.dev d).intr := by
  obtain ⟨i, hi, hany⟩ := topBit_bitmap k.g 4
  obtain rfl : i = n := Fin.ext (hi.symm.trans h.no)
  have hip : k.g.causeIP 7 := List.find?_some (p := k.g.causeIP) h.line
  have hb : k.g.bitmap 4 ≠ 0 := by simpa [Globals.causeIP] using hip
  simpa using hany hb

theorem TermTaken.served_eq {n : Fin 8} (h : TermTaken k n) :
    k.g.served = (subDevs 4 n).find? fun d => okCharTrans (k.g.dev d).status := by
  rw [Rocm.served_eq h.line (by decide) rfl h.no]
  simp

/-- The half that is served, if any. -/
theorem TermTaken.outcome {n : Fin 8} (h : TermTaken k n) (ho : Outcome k r k') :
    ((∀ d ∈ subDevs 4 n, ¬ okCharTrans (k.g.dev d).status) ∧ k' = k) ∨
      ∃ d ∈ subDevs 4 n, okCharTrans (k.g.dev d).status ∧ CompletionServed k k' d := by
  have hserved := h.served_eq
  obtain ⟨-, ⟨hs, rfl⟩ | ⟨d, p, k1, hs, hv, rfl⟩⟩ := ho.of_terminal h.int h.line
  · rw [hs] at hserved
    exact .inl ⟨by simpa using List.find?_eq_none.mp hserved.symm, rfl⟩
  · have hfind := hserved.symm.trans hs
    have hok := List.find?_some (p := fun d => okCharTrans (k.g.dev d).status) hfind
    have hintr := served_intr h.dev hs
    have hbusy : (k.g.dev d).busy = false := by
      have := (h.dev d).excl
      simpa [hintr] using this
    exact .inr ⟨d, List.mem_of_find?_eq_some hfind, hok,
      hv.completionServed ((h.dev d).pending (.inr hintr)) hintr hbusy⟩

/-- Only a half that has succeeded is served. -/
theorem TermTaken.ok_of_served {n : Fin 8} (h : TermTaken k n) (ho : Outcome k r k') {d : SubDev}
    (hd : CompletionServed k k' d) : okCharTrans (k.g.dev d).status := by
  rcases h.outcome ho with ⟨-, rfl⟩ | ⟨d', -, hok, hd'⟩
  · exact absurd hd.completed hd.acknowledged.2
  · by_cases e : d = d'
    · exact e ▸ hok
    · exact absurd (hd'.others d e ▸ hd.completed) hd.acknowledged.2

omit [Layout] in
theorem deliver_cause (g : Globals) (p : Option PcbId) (v : Word) :
    (g.deliver p v).biosDataPage = g.biosDataPage ∧ (g.deliver p v).pending = g.pending := by
  cases p <;> exact ⟨rfl, rfl⟩

omit [Layout] in
/-- The cause register stays as it is when the same devices interrupt. -/
theorem causeIP_congr {g g' : Globals} (hp : g'.pending = g.pending)
    (hd : ∀ line no, ((subDevs line no).any fun d => (g'.dev d).intr) =
      (subDevs line no).any fun d => (g.dev d).intr) :
    g'.bitmap = g.bitmap ∧ g'.causeIP = g.causeIP := by
  have hb : g'.bitmap = g.bitmap := by
    funext line
    simp only [Globals.bitmap, hd]
  refine ⟨hb, funext fun line => ?_⟩
  rw [Globals.causeIP, Globals.causeIP, hp, hb]

omit [Layout] in
theorem subDevs_unique {line line' : Fin 5} {no no' : Fin 8} {d : SubDev} (h : d ∈ subDevs line no)
    (h' : d ∈ subDevs line' no') : line = line' ∧ no = no' := by
  unfold subDevs at h h'
  split at h <;> split at h' <;> simp only [List.mem_cons, List.not_mem_nil, or_false] at h h' <;>
    grind

omit [Layout] in
/-- Of the two halves of a terminal. -/
theorem subDevs_other {n : Fin 8} {d d1 d2 : SubDev} (h : d ∈ subDevs 4 n) (h1 : d1 ∈ subDevs 4 n)
    (h2 : d2 ∈ subDevs 4 n) (hne : d ≠ d1) (hne2 : d2 ≠ d1) : d2 = d := by
  change d ∈ [SubDev.transm n, SubDev.recv n] at h
  change d1 ∈ [SubDev.transm n, SubDev.recv n] at h1
  change d2 ∈ [SubDev.transm n, SubDev.recv n] at h2
  simp only [List.mem_cons, List.not_mem_nil, or_false] at h h1 h2
  grind

/-- While another half has to be served the same devices interrupt. -/
theorem TermTaken.sameBits {n : Fin 8} (h : TermTaken k n) {d d' : SubDev} (hd : d ∈ subDevs 4 n)
    (hd' : d' ∈ subDevs 4 n) (hs : CompletionServed k k' d) (hintr : (k'.g.dev d').intr)
    (line : Fin 5) (no : Fin 8) : ((subDevs line no).any fun d => (k'.g.dev d).intr) =
      (subDevs line no).any fun d => (k.g.dev d).intr := by
  by_cases hmem : d ∈ subDevs line no
  · obtain ⟨rfl, rfl⟩ := subDevs_unique hmem hd
    rw [List.any_eq_true.mpr ⟨d', hd', hintr⟩, List.any_eq_true.mpr ⟨d, hd, hs.completed⟩]
  · rw [Bool.eq_iff_iff, List.any_eq_true, List.any_eq_true]
    refine exists_congr fun e => and_congr_right fun he => ?_
    rw [hs.others e fun e' => hmem (e' ▸ he)]

/-- The interrupt of a half that has not been served is still there. -/
theorem TermTaken.again {n : Fin 8} (h : TermTaken k n) (ho : Outcome k r k') {d' : SubDev}
    (hd' : d' ∈ subDevs 4 n) (hintr : (k'.g.dev d').intr) : TermTaken k' n := by
  have hen := h.toEntered
  have hsems : SemsInv k' := ho.semsInv h.toSemsInv fun hcall => absurd h.int (not_intTaken hcall)
  have hplaced := ho.placed hen
  obtain ⟨rfl, hk⟩ := ho.of_terminal h.int h.line
  have hcause : k'.g.biosDataPage = k.g.biosDataPage ∧ k'.g.pending = k.g.pending := by
    rcases hk with ⟨-, rfl⟩ | ⟨d, p, k1, -, hv, rfl⟩
    · exact ⟨rfl, rfl⟩
    · have hk1 : k1.g.biosDataPage = k.g.biosDataPage ∧ k1.g.pending = k.g.pending := by
        cases hv <;> exact ⟨rfl, rfl⟩
      obtain ⟨hb, hp⟩ := deliver_cause k1.g p (k.g.dev d).status
      exact ⟨hb.trans hk1.1, hp.trans hk1.2⟩
  have hbits : k'.g.bitmap = k.g.bitmap ∧ k'.g.causeIP = k.g.causeIP := by
    refine causeIP_congr hcause.2 fun line no => ?_
    rcases h.outcome ho with ⟨-, rfl⟩ | ⟨d, hd, -, hs⟩
    · rfl
    · exact h.sameBits hd hd' hs hintr line no
  have hentered : Entered k' := by
    refine ⟨ho.sound hen, fun p hp => hplaced.loose (.inl rfl) p (hplaced.act.symm.trans hp), ?_,
      fun d hd hone => ?_⟩
    · cases hy : k'.g.yieldedProc with
      | none => rfl
      | some y => exact absurd (hplaced.yielded y hy).1 (by decide)
    · have hz := (hsems.dev d).pending (.inr (served_intr hsems.dev hd))
      exact absurd (hz.symm.trans hone) (by decide)
  refine ⟨hentered, hsems, ?_, ?_, ?_⟩
  · rw [Globals.IntTaken, hcause.1]
    exact h.int
  · rw [Globals.servedLine, hbits.2]
    exact h.line
  · rw [Interrupting, hbits.1]
    exact h.no

end Terminal

variable {m : Mach Heap} {saved : ProcState} {status junk : Word} {pending : Fin 3 → Bool}

/-- The handler of interrupts ends. -/
theorem Sim.interrupt_handled {k : Kernel Heap} {l : Kernel Lists} (hs : Sim k l)
    (hen : Entered k.abs) (hit : k.g.int Layout.toAddresses.semIt = 0) (hint : k.g.IntTaken)
    {line : Fin 8} (hl : k.g.servedLine = some line) :
    ∃ r k' l', handleInterrupts line k = .ok r k' ∧ Sim k' l' ∧ Outcome k.abs r k'.abs := by
  rw [hs.abs] at hen
  rw [hs.globals] at hit hint hl
  obtain ⟨r, k', l', hk, hs', ho⟩ := (same_handleInterrupts line).returns hs
    (handleInterrupts_spec hen.inv hint hit hen.loose hl)
  exact ⟨r, k', l', hk, hs', by rw [hs'.abs, hs.abs]; exact ho⟩

/-- Both halves are served exactly when those that have completed have succeeded. -/
theorem Sim.halvesServed {k : Kernel Heap} {l : Kernel Lists} (hs : Sim k l) {n : Fin 8}
    (h : TermTaken k.abs n) : ∃ r k', handleInterrupts 7 k = .ok r k' ∧ (HalvesServed n k k' ↔
      ∀ d ∈ subDevs 4 n, (k.g.dev d).intr → okCharTrans (k.g.dev d).status) := by
  obtain ⟨r, k', l', hk, hs', ho⟩ := hs.interrupt_handled h.toEntered h.it h.int h.line
  refine ⟨r, k', hk, fun hserved d hd hintr => ?_, fun hok => ?_⟩
  · by_cases hfirst : CompletionServed k.abs k'.abs d
    · exact h.ok_of_served ho hfirst
    · -- the half is as it was when the handler is repeated
      obtain ⟨r1, k1, hk1, hs1⟩ := (hserved.both d hd hintr).resolve_left hfirst
      have hagain := h.again ho hd hs1.completed
      obtain ⟨r2, k2, -, hk2, -, ho2⟩ :=
        hs'.interrupt_handled hagain.toEntered hagain.it hagain.int hagain.line
      obtain ⟨rfl, rfl⟩ : r1 = r2 ∧ k1 = k2 := by
        rw [hk1] at hk2
        cases hk2
        exact ⟨rfl, rfl⟩
      have hok := hagain.ok_of_served ho2 hs1
      obtain ⟨d1, -, hd1⟩ := hserved.one
      have hne : d ≠ d1 := fun e => hfirst (e ▸ hd1)
      exact hd1.others d hne ▸ hok
  · obtain ⟨d0, hd0, hintr0⟩ := h.exists_completed
    rcases h.outcome ho with ⟨hnone, -⟩ | ⟨d1, hd1, -, hserved⟩
    · exact absurd (hok d0 hd0 hintr0) (hnone d0 hd0)
    refine ⟨⟨d1, hd1, hserved⟩, fun d hd hintr => ?_⟩
    by_cases e : d = d1
    · exact .inl (e ▸ hserved)
    have hsame : k'.g.dev d = k.g.dev d := hserved.others d e
    have hintr' : (k'.g.dev d).intr := hsame.symm ▸ hintr
    have hagain := h.again ho hd hintr'
    obtain ⟨r2, k2, -, hk2, -, ho2⟩ :=
      hs'.interrupt_handled hagain.toEntered hagain.it hagain.int hagain.line
    rcases hagain.outcome ho2 with ⟨hnone, -⟩ | ⟨d2, hd2, -, hserved2⟩
    · refine absurd (hok d hd hintr) ?_
      rw [← hsame]
      exact hnone d hd
    · -- there are two halves, and the first one has been acknowledged
      have h2 : d2 ≠ d1 := by
        rintro rfl
        exact hserved.acknowledged.2 hserved2.completed
      obtain rfl := subDevs_other hd hd1 hd2 e h2
      exact .inr ⟨r2, k2, hk2, hserved2⟩

theorem Reached.terminal (h : Reached m) (hcan : m.exit.canTake saved)
    (hint : CAUSE_GET_EXCCODE saved.cause = EXC_INT)
    (hl : (m.k.caught saved status pending junk).g.servedLine = some 7) :
    ∃ n r k', Interrupting m.k.g n ∧
      handleInterrupts 7 (m.k.caught saved status pending junk) = .ok r k' ∧
      (HalvesServed n (m.k.caught saved status pending junk) k' ↔
        ∀ d ∈ subDevs 4 n, (m.k.g.dev d).intr → okCharTrans (m.k.g.dev d).status) := by
  have hst := h.good.stable (live_of_canTake hcan)
  have hcontract : Contract m.obs (.exception saved status pending junk) := fun hcall =>
    absurd (hcall.1.symm.trans hint) (by decide)
  obtain ⟨n, hn, -⟩ := topBit_bitmap m.k.g 4
  have htaken : TermTaken (m.obs.k.caught saved status pending junk) n := by
    refine ⟨(hst.ready hcan hcontract).save.toEntered, ⟨?_, fun d => ?_⟩, ?_, hl, ?_⟩
    · rw [caught_int]
      exact hst.it
    · exact (hst.dev d).mapG caught_dev caught_int
    · rw [Globals.IntTaken, caught_biosDataPage]
      exact hint
    · rw [Interrupting, ← hn]
      simp only [Globals.bitmap, caught_dev]
      rfl
  obtain ⟨-, l, hsim⟩ := h
  have hs : Sim (m.k.caught saved status pending junk) (l.k.caught saved status pending junk) :=
    hsim.sim.mapG _
  obtain ⟨r, k', hk, hiff⟩ := hs.halvesServed htaken
  refine ⟨n, r, k', hn, hk, ?_⟩
  simpa only [caught_dev] using hiff

/-- An interrupt of a terminal, handled and handled again, serves the halves of it that have
    completed if and only if each of them has ended with a success. -/
theorem terminal_served_iff {g : Globals} (hg : PowerOn g)
    {tr : List (Mach Heap × Event × Mach Heap)} {m : Mach Heap} (h : Execution g tr m)
    {saved : ProcState} {status junk : Word} {pending : Fin 3 → Bool}
    (hcan : m.exit.canTake saved) (hint : CAUSE_GET_EXCCODE saved.cause = EXC_INT)
    (hl : (m.k.caught saved status pending junk).g.servedLine = some 7) :
    ∃ n r k', Interrupting m.k.g n ∧
      handleInterrupts 7 (m.k.caught saved status pending junk) = .ok r k' ∧
      (HalvesServed n (m.k.caught saved status pending junk) k' ↔
        ∀ d ∈ subDevs 4 n, (m.k.g.dev d).intr → okCharTrans (m.k.g.dev d).status) :=
  (Execution.reached hg h).terminal hcan hint hl

/-- The first process creates a child; a character is sent to terminal 0, which ends with `status`,
    and one is received from it. -/
def terminalEvents (status : Word) : List Event :=
  [createLowEvent, sysEvent DOIO (SubDev.transm 0).commandAddr 0x4102 0,
    sysEvent DOIO (SubDev.recv 0).commandAddr 2 0, .complete (.transm 0) status,
    .complete (.recv 0) 5]

omit [Layout] in
/-- After `terminalEvents` the processor waits and both halves of a terminal have completed. -/
theorem terminalEvents_run {status : Word} (h : status = 4 ∨ status = 5) :
    letI := sampleLayout
    ∃ tr m, Execution sampleGlobals tr m ∧ m.exit.canTake intState ∧
      (m.k.caught intState 0 (fun _ => false) 0).g.servedLine = some 7 ∧ Interrupting m.k.g 0 ∧
      (∀ d ∈ subDevs 4 0, (m.k.g.dev d).intr) ∧ (m.k.g.dev (.transm 0)).status = status := by
  let _ := sampleLayout
  obtain ⟨tr, m, htr, hP⟩ := Mach.exists_run_of_play Contract (boot sampleGlobals)
    (terminalEvents status) (P := fun _ m => m.exit.canTake intState ∧
      (m.k.caught intState 0 (fun _ => false) 0).g.servedLine = some 7 ∧
      Interrupting m.k.g 0 ∧ (∀ d ∈ subDevs 4 0, (m.k.g.dev d).intr) ∧
      (m.k.g.dev (.transm 0)).status = status) (by rcases h with rfl | rfl <;> decide +kernel)
  exact ⟨tr, m, htr, of_decide_eq_true hP⟩

omit [Layout] in
theorem terminal_served_iff_both :
    letI := sampleLayout
    ∃ tr m, Execution sampleGlobals tr m ∧ (∀ d ∈ subDevs 4 0, (m.k.g.dev d).intr) ∧
      ∃ n r k', Interrupting m.k.g n ∧
        handleInterrupts 7 (m.k.caught intState 0 (fun _ => false) 0) = .ok r k' ∧
        (HalvesServed n (m.k.caught intState 0 (fun _ => false) 0) k' ↔
          ∀ d ∈ subDevs 4 n, (m.k.g.dev d).intr → okCharTrans (m.k.g.dev d).status) := by
  let _ := sampleLayout
  obtain ⟨tr, m, htr, hcan, hl, -, hintr, -⟩ := terminalEvents_run (.inr rfl)
  exact ⟨tr, m, htr, hintr, terminal_served_iff sampleGlobals_powerOn htr hcan (by decide) hl⟩

omit [Layout] in
/-- The transmission fails with status 4: it is served neither at once nor when the handler is
    repeated. -/
theorem terminal_error_unserved :
    letI := sampleLayout
    ∃ tr m, Execution sampleGlobals tr m ∧ m.exit.canTake intState ∧
      (m.k.caught intState 0 (fun _ => false) 0).g.servedLine = some 7 ∧
      (∀ d ∈ subDevs 4 0, (m.k.g.dev d).intr) ∧
      ∃ r k', Interrupting m.k.g 0 ∧
        handleInterrupts 7 (m.k.caught intState 0 (fun _ => false) 0) = .ok r k' ∧
        ¬ HalvesServed 0 (m.k.caught intState 0 (fun _ => false) 0) k' := by
  let _ := sampleLayout
  obtain ⟨tr, m, htr, hcan, hl, h0, hintr, hstatus⟩ := terminalEvents_run (.inl rfl)
  obtain ⟨n, r, k', hn, hk, hiff⟩ :=
    (Execution.reached sampleGlobals_powerOn htr).terminal hcan (by decide) hl
  obtain rfl : n = 0 := Fin.ext (hn.symm.trans h0)
  refine ⟨tr, m, htr, hcan, hl, hintr, r, k', h0, hk, fun hs => ?_⟩
  have hok := hiff.mp hs (.transm 0) (by decide) (hintr _ (by decide))
  rw [hstatus] at hok
  exact absurd hok (by decide)

end Rocm
