import Spmd.Proofs.Typing.Prepared
import Spmd.Proofs.WellTyped.Check

/-!
# Properties of what checks give

A check of a loaded tree goes from its leaves up, so that a property of operands that the step of each form keeps holds of
whatever the check gives (`Check.Steps.check`).
-/

namespace Spmd.Check

open Spmd.Expr

variable {T : Target} {e : Expr}

/-- A property that an operand has together with a type. -/
def Needed (P : Expr → Prop) (e : Expr) : Prop := P e ∧ ∃ t, e.type? = some t

/-- A property of operands that leaves have, and that the step of every other form keeps. -/
structure Steps (T : Target) (P : Expr → Prop) : Prop where
  leaf : ∀ {e}, Checked T e → e.awaitsTarget = false → e.children = [] → check e = pure (some e) → P e
  name : ∀ {f}, Fresh f → P (.function f)
  unary : ∀ {c} node op, Needed P c → Yields T (checkUnary node op c) P
  step : ∀ {c} node s, Needed P c → Yields T (checkStep node s c) P
  binary : ∀ {l r} node op, Needed P l → Needed P r → Yields T (checkBinary node op l r) P
  assign : ∀ {t v} node op, Needed P t → P v → (op ≠ .plain → Needed P v) → Yields T (checkAssign node op t v) P
  select : ∀ {t a b} node, Needed P t → Needed P a → Needed P b → Yields T (checkSelect node t a b) P
  list : ∀ {es} node, (∀ c ∈ es, Needed P c) → Yields T (checkList node es) P
  call : ∀ {c args count} node launch, P c → (∀ a ∈ args, P a) → (∀ n, count = some n → P n) →
    Yields T (checkCall node c args launch count) P
  index : ∀ {b i} node, Needed P b → Needed P i → Yields T (checkIndex node b i) P
  member : ∀ {b} node name arrow, Needed P b → Yields T (checkMember node b name arrow) P
  cast : ∀ {c} node target, target.Legal → P c → Yields T (checkCast node target c) P
  reference : ∀ {c} node, Needed P c → Yields T (checkReference node c) P
  dereference : ∀ {c} node, Needed P c → Yields T (checkDereference node c) P
  addressOf : ∀ {c} node, P c → Yields T (checkAddressOf node c) P
  sizeOf : ∀ {c} node, Needed P c → Yields T (checkSizeOf node c) P
  sizeOfType : ∀ node t, Yields T (checkSizeOfType node t) P
  new : ∀ {allocated count init} node varying, allocated.Legal → allocated.isVoid = false → (∀ n, count = some n → Needed P n) →
    (∀ e, init = some e → P e) → Yields T (checkNew node allocated count init varying) P

theorem Delivered.needed {P : Expr → Prop} {c : Expr} (h : P c ∧ Delivered T .typed c) : Needed P c := ⟨h.1, h.2.2⟩

/-- What checking a loaded tree gives has every property that the steps keep. -/
theorem Steps.check {P : Expr → Prop} (hP : Steps T P) (h : Everywhere (Loaded T) e) : Yields T (Check.check e) P := by
  refine check_keeps prepared_of_loaded h fun {e m} hloaded hm => ?_
  cases hm with
  | unary hc => exact hP.unary _ _ (Delivered.needed hc)
  | step hc => exact hP.step _ _ (Delivered.needed hc)
  | binary hl hr => exact hP.binary _ _ (Delivered.needed hl) (Delivered.needed hr)
  | set ht hv => exact hP.assign _ _ (Delivered.needed ht) hv.1 fun hn => absurd rfl hn
  | update _ ht hv => exact hP.assign _ _ (Delivered.needed ht) hv.1 fun _ => Delivered.needed hv
  | select ht ha hb => exact hP.select _ (Delivered.needed ht) (Delivered.needed ha) (Delivered.needed hb)
  | list hes => exact hP.list _ fun c hc => Delivered.needed (hes c hc)
  | call hc _ hargs hcount => exact hP.call _ _ hc.1 (fun a ha => (hargs a ha).1) fun n hn => (hcount n hn).1
  | index hb hi => exact hP.index _ (Delivered.needed hb) (Delivered.needed hi)
  | member hb => exact hP.member _ _ _ (Delivered.needed hb)
  | cast hc => exact hP.cast _ _ hloaded hc.1
  | reference hc => exact hP.reference _ (Delivered.needed hc)
  | dereference hc => exact hP.dereference _ (Delivered.needed hc)
  | addressOf hc => exact hP.addressOf _ hc.1
  | sizeOf hc => exact hP.sizeOf _ (Delivered.needed hc)
  | new ht hcount hinit =>
    exact hP.new _ _ hloaded ht (fun n hn => Delivered.needed (hcount n hn)) fun i hi => (hinit i hi).1
  | void => exact Yields.reject _ _
  | const =>
    obtain ⟨s, hs, hc⟩ := hloaded
    exact Yields.some (hP.leaf (Checked.leaf ⟨⟨_, hs, trivial⟩, trivial, s, hs, hc⟩ rfl) rfl rfl (by rw [Check.check]))
  | sizeOfType => exact hP.sizeOfType _ _
  | symbol =>
    obtain ⟨hs, hsound⟩ := hloaded
    exact Yields.some (hP.leaf (Checked.leaf ⟨⟨_, hs, hsound.legal⟩, trivial, hs, hsound⟩ rfl) rfl rfl (by rw [Check.check]))
  | function =>
    rw [Check.check]
    exact Gives.bind (Meets.gives (note_meets _)) fun _ _ => Yields.some (hP.name (settle_fresh hloaded))
  | @sync node =>
    have hs : node.type = some .void := hloaded
    exact Yields.some (hP.leaf (Checked.leaf ⟨⟨_, hs, trivial⟩, trivial, trivial⟩ rfl) rfl rfl (by rw [Check.check]))
  | null =>
    obtain ⟨t, ht, -, hlegal⟩ := hloaded
    exact Yields.some (hP.leaf (Checked.leaf ⟨⟨t, ht, hlegal⟩, trivial, trivial⟩ rfl) rfl rfl (by rw [Check.check]))

end Spmd.Check
