import Rocm.Refine.Queues

/-!
# What a function leaves alone

`Keeps f` says of a function that the part `f` of the nucleus is after it what it was before,
however it ends. The functions below write to PCBs and to links; a part that reads neither is kept.
-/

namespace Rocm

open Ring Prog ProcTable

/-- A part of the nucleus is the same. -/
def SamePart {γ : Type} (f : Kernel Heap → γ) (k k' : Kernel Heap) : Prop := f k' = f k

theorem SamePart.trans {γ : Type} {f : Kernel Heap → γ} {a b c : Kernel Heap} (h : SamePart f a b)
    (h' : SamePart f b c) : SamePart f a c := Eq.trans h' h

/-- A program does not write to a part of the nucleus. -/
abbrev Keeps {α γ : Type} (f : Kernel Heap → γ) (m : KM Heap α) : Prop := Moves (SamePart f) m

namespace Keeps

variable {α β γ : Type} {f : Kernel Heap → γ}

theorem bind {m : KM Heap α} {n : α → KM Heap β} (hm : Keeps f m) (hn : ∀ a, Keeps f (n a)) :
    Keeps f (m >>= n) :=
  Moves.bind (R := SamePart f) SamePart.trans hm hn

theorem pure (a : α) : Keeps f (Pure.pure a : KM Heap α) := fun _ => rfl

theorem throw (e : Exit) : Keeps f (MonadExcept.throw e : KM Heap α) := fun _ => rfl

theorem ite {c : Prop} [Decidable c] {m m' : KM Heap α} (hm : Keeps f m) (hm' : Keeps f m') :
    Keeps f (if c then m else m') := Moves.ite hm hm'

theorem getG : Keeps f (Rocm.getG : KM Heap Globals) := fun _ => rfl

theorem get : Keeps f (MonadState.get : KM Heap (Kernel Heap)) := fun _ => rfl

theorem modifyG {h : Globals → Globals} (hh : ∀ k, f (k.mapG h) = f k) :
    Keeps f (Rocm.modifyG h : KM Heap PUnit) := hh

theorem containerOf {η μ : Type} (a : Option (Node η μ)) : Keeps f (Heap.containerOf a) := by
  unfold Heap.containerOf
  split
  exacts [pure _, throw _]

theorem listForEach {η μ : Type} [DecidableEq η] [DecidableEq μ] (l : Links (Node η μ)) (head : η)
    (g : μ → Bool) : Keeps f (Heap.listForEach l head g) := by
  unfold Heap.listForEach
  split
  exacts [pure _, throw _, pure _, throw _, throw _]

theorem procsM (hp : ∀ (k : Kernel Heap) l, f (k.setProcs l) = f k) (g) :
    Keeps f (Heap.procsM g) := by
  intro k
  rw [Heap.procsM, wp_bind, wp_get]
  split
  exacts [hp _ _, rfl]

theorem treeM (ht : ∀ (k : Kernel Heap) l, f (k.setTree l) = f k) (g) :
    Keeps f (Heap.treeM g) := by
  intro k
  rw [Heap.treeM, wp_bind, wp_get]
  split
  exacts [ht _ _, rfl]

theorem semdsM (hs : ∀ (k : Kernel Heap) l, f (k.setSemds l) = f k) (g) :
    Keeps f (Heap.semdsM g) := by
  intro k
  rw [Heap.semdsM, wp_bind, wp_get]
  split
  exacts [hs _ _, rfl]

/-! ## The functions of a kill -/

section Kill

variable (hg : ∀ (k : Kernel Heap) p c, f (k.mapG (·.setPcb p c)) = f k)

include hg

section Tree

variable (ht : ∀ (k : Kernel Heap) l, f (k.setTree l) = f k)

include ht

theorem removeChild (p : PcbId) : Keeps f (Heap.removeChild p) :=
  bind get fun _ => ite (pure _) (bind (containerOf _) fun _ => bind (treeM ht _) fun _ =>
    bind (modifyG fun k => hg k _ _) fun _ => pure _)

theorem outChild (p : PcbId) : Keeps f (Heap.outChild p) :=
  bind getG fun _ => ite (pure _) (bind (treeM ht _) fun _ =>
    bind (modifyG fun k => hg k _ _) fun _ => pure _)

theorem leaveParent (p : PcbId) : Keeps f (Rocm.leaveParent p : KM Heap PUnit) :=
  bind getG fun _ => ite (bind (outChild hg ht p) fun _ => ite (throw _) (pure _)) (pure _)

end Tree

variable (hp : ∀ (k : Kernel Heap) l, f (k.setProcs l) = f k)

include hp

theorem freePcb (p : PcbId) : Keeps f (Heap.freePcb p) :=
  bind (modifyG fun k => hg k _ _) fun _ => procsM hp _

omit hg in
theorem outProcQ (h : PHead) (p : PcbId) : Keeps f (Heap.outProcQ h p) :=
  bind get fun _ => bind (listForEach _ _ _) fun r => by
    cases r with
    | none => exact pure _
    | some _ => exact bind (procsM hp _) fun _ => bind (procsM hp _) fun _ => pure _

omit hg in
theorem leaveReady (p : PcbId) : Keeps f (Rocm.leaveReady p : KM Heap PUnit) :=
  bind getG fun _ => ite (bind (outProcQ hp _ p) fun _ => pure _)
    (bind getG fun _ => ite (bind (outProcQ hp _ p) fun _ => pure _) (pure _))

variable (hs : ∀ (k : Kernel Heap) l, f (k.setSemds l) = f k)

include hs

theorem outBlocked (p : PcbId) : Keeps f (Heap.outBlocked p) :=
  bind getG fun _ => ite (pure _) (bind (bind get fun _ => listForEach _ _ _) fun t => by
    cases t with
    | none => exact pure _
    | some t =>
      refine bind (modifyG fun k => hg k _ _) fun _ => bind (outProcQ hp _ _) fun r => ?_
      cases r with
      | none => exact pure _
      | some _ =>
        exact bind get fun _ => ite (bind (semdsM hs _) fun _ => bind (semdsM hs _) fun _ =>
          pure _) (pure _))

theorem leaveSemaphore (p : PcbId)
    (hsb : ∀ k : Kernel Heap, f (k.mapG fun g => { g with sbProcs := g.sbProcs - 1 }) = f k) :
    Keeps f (Rocm.leaveSemaphore p : KM Heap PUnit) :=
  bind getG fun _ => ite (bind (modifyG hsb) fun _ => bind (outBlocked hg hp hs p) fun _ =>
    ite (throw _) (pure _)) (pure _)

end Kill

end Keeps

end Rocm
