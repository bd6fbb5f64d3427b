import Rocm.Properties.Sample

/-!
# The nucleus on links and the nucleus on lists

The nucleus with the linked lists of `listx.h`, `pcb.c` and `asl.c` and the one that keeps its
processes in plain lists do the same in every run: they accept the same events, and after each of
them show the same queues, the same tree and variables, and the same thing that the processor does
next.
-/

namespace Rocm

open ProcTable Runs

variable [Layout]

/-- A step of the one machine looks like a step of the other. -/
def SameStep {D D' : Type} [ProcTable D] [ProcTable D'] (x : Mach D × Event × Mach D)
    (y : Mach D' × Event × Mach D') : Prop :=
  x.1.obs = y.1.obs ∧ x.2.1 = y.2.1 ∧ x.2.2.obs = y.2.2.obs

section Table

variable {D : Type} [ProcTable D] {R : Kernel D → Kernel Lists → Prop} [Refines R]

/-- Related machines whose processes have kept the contract. -/
structure InStep (R : Kernel D → Kernel Lists → Prop) (m : Mach D) (l : Mach Lists) : Prop where
  rel : MRel R m l
  good : Good l.obs

theorem boot_inStep {g : Globals} (hg : PowerOn g) : InStep R (boot g) (boot g) :=
  ⟨boot_rel hg, boot_good hg⟩

/-- A step on the lists is one on `D`. -/
theorem InStep.realize {m : Mach D} {l l' : Mach Lists} {ev : Event} (h : InStep R m l)
    (hs : Step Contract l ev l') : ∃ m', Step Contract m ev m' ∧ InStep R m' l' := by
  obtain ⟨hn, hc⟩ := hs
  have hgood := (next_spec h.good hc hn).good h.good hc
  obtain ⟨m', hm, hrel⟩ := h.rel.next hgood hn
  exact ⟨m', ⟨hm, h.rel.obs ▸ hc⟩, hrel, hgood⟩

/-- A step on `D` is one on the lists. -/
theorem InStep.refine {m m' : Mach D} {l : Mach Lists} {ev : Event} (h : InStep R m l)
    (hs : Step Contract m ev m') : ∃ l', Step Contract l ev l' ∧ InStep R m' l' := by
  obtain ⟨l', hl⟩ := h.rel.enabled hs.1
  have hstep : Step Contract l ev l' := ⟨hl, h.rel.obs ▸ hs.2⟩
  obtain ⟨m'', hm, hin⟩ := h.realize hstep
  obtain rfl : m'' = m' := Option.some.inj (hm.1.symm.trans hs.1)
  exact ⟨l', hstep, hin⟩

theorem InStep.sameStep {m m' : Mach D} {l l' : Mach Lists} {ev ev' : Event}
    (h : InStep R m l ∧ ev = ev' ∧ InStep R m' l') : SameStep (m, ev, m') (l, ev', l') :=
  ⟨h.1.rel.obs, h.2.1, h.2.2.rel.obs⟩

end Table

/-- Every run of the nucleus on links is one of the nucleus on lists, with the same events and the
    same to be seen before and after each of them, and the other way round. -/
theorem executions_agree {g : Globals} (hg : PowerOn g) :
    (∀ tr m, Execution g tr m → ∃ tr' l, Run (Step Contract) (boot g : Mach Lists) tr' l ∧
      List.Forall₂ SameStep tr tr' ∧ m.obs = l.obs) ∧
    ∀ tr' l, Run (Step Contract) (boot g : Mach Lists) tr' l → ∃ tr m, Execution g tr m ∧
      List.Forall₂ SameStep tr tr' ∧ m.obs = l.obs := by
  constructor
  · intro tr m h
    obtain ⟨tr', l, hrun, hin, hall⟩ := h.simulate (Step Contract) (R := InStep Sim)
      (boot_inStep hg) fun hin hs => hin.refine hs
    exact ⟨tr', l, hrun, hall.imp fun _ _ => InStep.sameStep, hin.rel.obs⟩
  · intro tr' l h
    obtain ⟨tr, m, hrun, hin, hall⟩ := h.simulate (Step Contract)
      (R := fun l m => InStep Sim m l) (boot_inStep hg) fun hin hs => hin.realize hs
    refine ⟨tr, m, hrun, ?_, hin.rel.obs⟩
    exact (hall.flip).imp fun _ _ hx => InStep.sameStep ⟨hx.1, hx.2.1.symm, hx.2.2⟩

omit [Layout] in
theorem executions_agree_sample :
    letI := sampleLayout
    (∀ tr m, Execution sampleGlobals tr m → ∃ tr' l,
      Run (Step Contract) (boot sampleGlobals : Mach Lists) tr' l ∧
      List.Forall₂ SameStep tr tr' ∧ m.obs = l.obs) ∧
    ∀ tr' l, Run (Step Contract) (boot sampleGlobals : Mach Lists) tr' l → ∃ tr m,
      Execution sampleGlobals tr m ∧ List.Forall₂ SameStep tr tr' ∧ m.obs = l.obs :=
  letI := sampleLayout
  executions_agree sampleGlobals_powerOn

end Rocm
