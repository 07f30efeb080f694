import Spmd.Proofs.Folded.Redrawn

/-!
# Nodes that stand in for others

`Expr.Resembles` relates what a check gives of a node to what it gives of the folded node: the types are read alike, and where
the first denotes storage, the second denotes the like. This is all that the forms around them look at.
-/

namespace Spmd.Expr

/-! ## Operands with types -/

/-- An operand that waits for nothing but to be converted: names have functions. -/
inductive Determined : Expr → Prop
  | name {f : FunctionName} {t : Ty} (known : Known f) (type_eq : f.node.type = some t) (isFunction : t.isFunction = true) :
      Determined (.function f)
  | list {node : Node} {items : List Expr} {ts : List Ty} (type_eq : node.type = some (.list ts))
      (types : items.map type? = ts.map some) (below : ∀ e ∈ items, Determined e) : Determined (.list node items)
  | closed {e : Expr} {t : Ty} (closed : e.awaitsTarget = false) (type_eq : e.type? = some t) : Determined e

section
variable {e u : Expr} {t t' : Ty}

theorem Determined.name_known {f : FunctionName} (h : (function f).Determined) (ht : f.node.type = some t) :
    Known f ∧ t.isFunction = true := by
  cases h with
  | name known type_eq isFunction =>
    cases Option.some.inj (ht.symm.trans type_eq)
    exact ⟨known, isFunction⟩
  | closed closed => cases closed

theorem Determined.resolved (h : u.Determined) : ∀ f, u = .function f → f.isResolved = true := by
  rintro f rfl
  cases h with
  | name known type_eq =>
    rw [known.type_eq, Option.map_eq_some_iff] at type_eq
    obtain ⟨s, hs, -⟩ := type_eq
    rw [FunctionName.isResolved, hs]
    rfl
  | closed closed => cases closed

/-! ## Storage -/

/-- Where the first expression denotes storage, the second denotes storage with the like address. -/
structure Stored (e u : Expr) : Prop where
  address : ∀ a, e.addressType = .ok (some a) → ∃ b, u.addressType = .ok (some b) ∧ b.outline = a.outline
  referent : e.isReference = true → e.addressType = .ok none → ∃ b, u.addressType = .ok b ∧ ∀ a, b = some a → a.isVarying = false

theorem Stored.refl (e : Expr) : e.Stored e :=
  ⟨fun a ha => ⟨a, ha, rfl⟩, fun _ ha => ⟨none, ha, fun _ hn => by cases hn⟩⟩

theorem Stored.of_outline (h : u.outline = e.outline) : e.Stored u := by
  have hmirrors := addressType_mirrors h
  refine ⟨fun a ha => ?_, fun _ ha => ?_⟩
  · obtain ⟨b, hb, hout⟩ := hmirrors _ ha
    obtain ⟨c, rfl, hc⟩ := Option.map_eq_some_iff.mp hout
    exact ⟨c, hb, hc⟩
  · obtain ⟨b, hb, hout⟩ := hmirrors _ ha
    rw [Option.map_none, Option.map_eq_none_iff] at hout
    subst hout
    exact ⟨none, hb, fun _ hn => by cases hn⟩

theorem denotesStorage_of_address {a : Ty} (ha : e.addressType = .ok (some a)) : e.denotesStorage = true := by
  rw [denotesStorage, hasAddress, ha]
  rfl

theorem Stored.of_value (h : e.denotesStorage = false) : e.Stored u :=
  ⟨fun a ha => (by rw [denotesStorage_of_address ha] at h; cases h), fun hr => (by rw [denotesStorage, hr, Bool.or_true] at h; cases h)⟩

theorem Stored.of_nowhere (ha : e.addressType = .ok none) (hu : u.addressType = .ok none) : e.Stored u :=
  ⟨fun a h => (by rw [ha] at h; cases h), fun _ _ => ⟨none, hu, fun _ hn => by cases hn⟩⟩

section
variable (h : e.Stored u) (ht : e.type? = some t) (hu : u.type? = some t') (hr : t'.isReference = t.isReference)
include h ht hu hr

theorem Stored.storage {v : Bool} (hs : storageVariability e.addressType e.type = .ok (some v)) :
    storageVariability u.addressType u.type = .ok (some v) := by
  have hread : ∀ b : Ty, storageVariability (.ok (some b)) u.type = .ok (some b.isVarying) := fun _ => rfl
  rw [type_ok ht] at hs
  cases ha : e.addressType with
  | error => rw [ha] at hs; cases hs
  | ok a =>
    rw [ha] at hs
    cases a with
    | some a =>
      obtain ⟨b, hb, hout⟩ := h.address a ha
      cases hs
      rw [hb, hread, isVarying_of_outline hout]
    | none =>
      have hs : (Except.ok (if t.isReference then some false else none) : Except Fault (Option Bool)) = .ok (some v) := hs
      have href : t.isReference = true := by
        by_contra hn
        rw [if_neg hn] at hs
        cases hs
      rw [if_pos href] at hs
      cases hs
      obtain ⟨b, hb, hv⟩ := h.referent ((isReference_eq ht).trans href) ha
      rw [hb, type_ok hu]
      cases b with
      | none =>
        show (Except.ok (if t'.isReference then some false else none) : Except Fault (Option Bool)) = _
        rw [if_pos (hr.trans href)]
      | some a => exact congrArg (fun v => Except.ok (some v)) (hv a rfl)

theorem Stored.isStorage (hs : e.isStorage = .ok true) : u.isStorage = .ok true := by
  obtain ⟨v, hv, hsome⟩ := map_eq_ok hs
  obtain ⟨v, rfl⟩ := Option.isSome_iff_exists.mp hsome
  rw [Expr.isStorage, h.storage ht hu hr hv]
  rfl

end

theorem Stored.isAssignable (h : e.Stored u) (ha : e.isAssignable = .ok true) : u.isAssignable = .ok true := by
  obtain ⟨a, ha, hsome⟩ := map_eq_ok ha
  obtain ⟨a, rfl⟩ := Option.isSome_iff_exists.mp hsome
  obtain ⟨b, hb, -⟩ := h.address a ha
  rw [Expr.isAssignable, hb]
  rfl

theorem denotesStorage_of_isStorage (ht : e.type? = some t) (hs : e.isStorage = .ok true) : e.denotesStorage = true := by
  obtain ⟨v, hv, hsome⟩ := map_eq_ok hs
  rw [type_ok ht] at hv
  unfold denotesStorage hasAddress
  cases ha : e.addressType with
  | error => rw [ha] at hv; cases hv
  | ok a =>
    cases a with
    | some a => rfl
    | none =>
      rw [ha] at hv
      have hv : (Except.ok (if t.isReference then some false else none) : Except Fault (Option Bool)) = .ok v := hv
      rw [isReference_eq ht]
      cases hr : t.isReference with
      | true => rfl
      | false =>
        rw [hr] at hv
        cases hv
        cases hsome

theorem storage_of_denotesStorage {b : Bool} (ht : e.type? = some t) (hs : e.denotesStorage = true) (hb : e.isStorage = .ok b) :
    b = true := by
  obtain ⟨v, hv, rfl⟩ := map_eq_ok hb
  rw [type_ok ht] at hv
  unfold denotesStorage hasAddress at hs
  cases ha : e.addressType with
  | error => rw [ha] at hv; cases hv
  | ok a =>
    rw [ha] at hv hs
    cases a with
    | some a => cases hv; rfl
    | none =>
      have hv : (Except.ok (if t.isReference then some false else none) : Except Fault (Option Bool)) = .ok v := hv
      rw [if_pos ((isReference_eq ht).symm.trans hs)] at hv
      cases hv
      rfl

theorem denotesStorage_of_outline (h : u.outline = e.outline) (hs : e.denotesStorage = true) : u.denotesStorage = true := by
  rw [denotesStorage, Bool.or_eq_true] at hs
  rcases hs with hs | hs
  · unfold hasAddress at hs
    cases ha : e.addressType with
    | error => rw [ha] at hs; cases hs
    | ok a =>
      cases a with
      | none => rw [ha] at hs; cases hs
      | some a =>
        obtain ⟨b, hb, hout⟩ := addressType_mirrors h _ ha
        obtain ⟨c, rfl, -⟩ := Option.map_eq_some_iff.mp hout
        exact denotesStorage_of_address hb
  · cases ht : e.type? with
    | none => rw [Expr.isReference, ht] at hs; cases hs
    | some t =>
      obtain ⟨t', ht', hout⟩ := type_of_outline h ht
      rw [denotesStorage, isReference_eq ht', Ty.eq_of_bare Ty.isReference_bare (Ty.bare_of_outline hout), ← isReference_eq ht, hs,
        Bool.or_true]

/-! ## Resemblance -/

/-- A symbol whose value may be put in its place. -/
def isScalarSymbol : Expr → Bool
  | .symbol node _ => node.type.any Ty.isScalar
  | _ => false

theorem not_scalarSymbol (ht : e.type? = some t) (h : t.isScalar = false) : e.isScalarSymbol = false := by
  cases e with
  | symbol node =>
    have ht : node.type = some t := ht
    rw [isScalarSymbol, ht, Option.any_some, h]
  | _ => rfl

/-- Whether a form asks for more than the type of the operand and its storage. -/
def isSpecial (e : Expr) : Bool := e.isNull || e.isZeroConstant || e.isFunctionName

structure Resembles (e u : Expr) : Prop where
  determined : u.Determined
  typed : ∀ t, e.type? = some t → ∃ t', u.type? = some t' ∧ t'.relaxed = t.relaxed ∧
    (e.denotesStorage = true → t'.outline = t.outline)
  kept : e.isSpecial = true → u = e
  stored : e.isScalarSymbol = false → e.Stored u

theorem Resembles.refl (h : e.Determined) : e.Resembles e :=
  ⟨h, fun t ht => ⟨t, ht, rfl, fun _ => rfl⟩, fun _ => rfl, fun _ => .refl e⟩

section
variable (he : e.type? = some t) (hu : u.type? = some t') (hdetermined : u.Determined) (hk : e.isSpecial = false)
include he hu hdetermined hk

theorem Resembles.of_stored (h : t'.outline = t.outline) (hs : e.Stored u) : e.Resembles u := by
  refine ⟨hdetermined, fun x hx => ⟨t', hu, ?_⟩, fun hn => ?_, fun _ => hs⟩
  · obtain rfl : t = x := Option.some.inj (he.symm.trans hx)
    exact ⟨Ty.relaxed_of_outline h, fun _ => h⟩
  · rw [hk] at hn
    cases hn

theorem Resembles.of_value (h : t'.relaxed = t.relaxed) (hs : e.denotesStorage = false) : e.Resembles u := by
  refine ⟨hdetermined, fun x hx => ⟨t', hu, ?_⟩, fun hn => ?_, fun _ => .of_value hs⟩
  · obtain rfl : t = x := Option.some.inj (he.symm.trans hx)
    exact ⟨h, fun hn => by rw [hs] at hn; cases hn⟩
  · rw [hk] at hn
    cases hn

theorem Resembles.of_unplaced (h : t'.relaxed = t.relaxed) (ha : e.addressType = .ok none)
    (hr : t.isReference = true → u.addressType = .ok none) : e.Resembles u := by
  cases href : t.isReference with
  | true => exact Resembles.of_stored he hu hdetermined hk (Ty.outline_of_reference h href) (.of_nowhere ha (hr href))
  | false =>
    refine Resembles.of_value he hu hdetermined hk h ?_
    rw [denotesStorage, hasAddress, ha, isReference_eq he, href]
    rfl

theorem Resembles.of_part (h : t'.asNonConst.outline = t.asNonConst.outline)
    (hexact : e.denotesStorage = true → t'.outline = t.outline ∧ e.Stored u) : e.Resembles u := by
  cases hs : e.denotesStorage with
  | true => exact Resembles.of_stored he hu hdetermined hk (hexact hs).1 (hexact hs).2
  | false =>
    refine Resembles.of_value he hu hdetermined hk (Ty.relaxed_of_shape ?_ h) hs
    rw [denotesStorage, isReference_eq he, Bool.or_eq_false_iff] at hs
    exact hs.2

end

theorem Resembles.of_outline (h : u.outline = e.outline) (he : e.type? = some t) (hk : e.isSpecial = false)
    (hn : e.awaitsTarget = false) : e.Resembles u := by
  obtain ⟨t', hu, hout⟩ := type_of_outline h he
  have hclosed : u.awaitsTarget = false := by
    cases e with
    | function | list => cases hn
    | _ =>
      cases u with
      | function | list => cases h
      | _ => rfl
  exact Resembles.of_stored he hu (.closed hclosed hu) hk hout (.of_outline h)

theorem Resembles.name_kept (h : e.Resembles u) (hn : e.isFunctionName = true) : u = e :=
  h.kept (by rw [isSpecial, hn, Bool.or_true])

theorem Resembles.type (h : e.Resembles u) (ht : e.type? = some t) : ∃ t', u.type? = some t' ∧ t'.relaxed = t.relaxed := by
  obtain ⟨t', hu, hrelaxed, -⟩ := h.typed t ht
  exact ⟨t', hu, hrelaxed⟩

end

end Spmd.Expr
