import Spmd.Proofs.WellTyped.Variability

/-!
# Addresses that differ from lane to lane

The address of storage is scattered when an index, or a pointer that is followed, on the path to it is varying
(`Expr.isScattered`). The type of the address says so, except where an element with a uniform index, or what a reference
refers to, is reached from a scattered base (`Expr.isBlurred`).
-/

namespace Spmd

namespace Expr

/-- Whether an index, or a pointer that is followed, is varying on the path to the storage of an expression. -/
def isScattered : Expr → Bool
  | index _ base position => position.isVarying || (if base.isPointer then base.isVarying else base.isScattered)
  | member _ base _ arrow _ => if arrow then base.isVarying else base.isScattered
  | reference _ e => e.isScattered
  | dereference _ e => if e.isReference then e.isScattered else e.isVarying
  | _ => false

/-- Whether the type of the address forgets that a base on the path is scattered. -/
def isBlurred : Expr → Bool
  | index _ base position => !position.isVarying && !base.isPointer && base.isScattered
  | member _ base _ arrow _ => !arrow && (base.isBlurred || !base.hasAddress && base.isScattered)
  | reference _ e => e.isBlurred
  | dereference _ e => e.isReference && e.isScattered
  | _ => false

variable {T : Target} {e : Expr} {a : Ty}

/-! ## Storage -/

theorem addressOfType_isVarying (t : Ty) (v : Bool) : (addressOfType t v).isVarying = v := by
  cases v <;> rfl

theorem storageVariability_some {c : Expr} {v : Bool}
    (h : storageVariability c.addressType c.type = .ok (some v)) :
    (∃ a, c.addressType = .ok (some a) ∧ c.hasAddress = true ∧ v = a.isVarying) ∨ c.hasAddress = false ∧ v = false := by
  unfold storageVariability at h
  obtain ⟨o, ho, h⟩ := bind_eq_ok h
  unfold hasAddress
  rw [ho]
  cases o with
  | some a => cases h; exact .inl ⟨a, rfl, rfl, rfl⟩
  | none =>
    obtain ⟨t, -, h⟩ := bind_eq_ok h
    split at h <;> cases h
    exact .inr ⟨rfl, rfl⟩

theorem elementAddressType_some {base : Ty} {storage : Except Fault Bool} {position : Except Fault Ty} {u : Ty}
    (hu : position = .ok u) (h : elementAddressType base storage position = .ok (some a)) :
    ∃ element varying, Check.indexed? base.stored = some (element, varying) ∧
      varying = (base.stored.isPointer && base.isVarying) ∧ a = addressOfType element (u.isVarying || varying) := by
  subst hu
  rw [← Ty.isVarying_stored base]
  unfold elementAddressType at h
  split at h
  · rename_i p q o hp
    rw [hp]
    refine ⟨p, q.variability == .varying, rfl, rfl, ?_⟩
    split at h
    · rename_i hq
      cases h
      rw [hq]
      simp
    · rename_i hq
      cases h
      have hv : (q.variability == .varying) = false := by simpa using hq
      rw [hv, Bool.or_false]
  · rename_i element n o hp
    rw [hp]
    refine ⟨element, false, rfl, rfl, ?_⟩
    cases storage with
    | error => cases h
    | ok b => cases b <;> cases h; rw [Bool.or_false]
  · rename_i element n o hp
    rw [hp]
    refine ⟨.scalar element, false, rfl, rfl, ?_⟩
    cases storage with
    | error => cases h
    | ok b => cases b <;> cases h; rw [Bool.or_false]
  · cases h

/-- The address of an element points to the element, and is varying where the value of the expression is. -/
theorem WellTyped.index_address {n : Node} {base position : Expr} (h : Checked T (.index n base position))
    (hw : (index n base position).WellTyped) (ha : (index n base position).addressType = .ok (some a)) :
    ∃ element varying, n.type = some (if varying then element.asVarying else element) ∧
      a = addressOfType element varying := by
  obtain ⟨b, element, varying, hb, hi, hn⟩ := hw
  obtain ⟨u, hp, -⟩ := (h.child (c := position) (by simp [children])).here.typed
  rw [addressType, type_ok hb] at ha
  obtain ⟨element', varying', hi', -, rfl⟩ := elementAddressType_some (type_ok hp) ha
  rw [hi] at hi'
  cases hi'
  rw [isVarying_eq hp] at hn
  exact ⟨element, _, hn, rfl⟩

/-- The address of a member goes by the pointer that is followed, or by the address of its base. -/
theorem memberAddressType_some {node : Node} {base : Expr} {name : String} {arrow : Bool} {x : Access}
    (h : (member node base name arrow (some x)).addressType = .ok (some a)) :
    x.isAddressable = true ∧ ∃ u v, accessedType? x = some u ∧ a = addressOfType u v ∧
      (arrow = true → ∃ t, base.type = .ok t ∧ v = t.stored.isVarying) ∧
        (arrow = false → storageVariability base.addressType base.type = .ok (some v)) := by
  have picked : ∀ {m : Except Fault (Option Bool)} {k : Option Bool → Except Fault (Option Ty)},
      (m >>= k) = .ok (some a) → k none = .ok none → ∃ v, m = .ok (some v) ∧ k (some v) = .ok (some a) := by
    intro m k hm hnone
    obtain ⟨o, ho, hk⟩ := bind_eq_ok hm
    cases o with
    | none => rw [hnone] at hk; cases hk
    | some v => exact ⟨v, ho, hk⟩
  simp only [addressType] at h
  split at h
  · cases h
  · rename_i hx
    rw [Bool.not_eq_true, Bool.not_eq_false'] at hx
    refine ⟨hx, ?_⟩
    cases arrow with
    | true =>
      obtain ⟨v, hm, h⟩ := picked h rfl
      obtain ⟨t, ht, hv⟩ := map_eq_ok hm
      dsimp only at h
      split at h <;> cases h
      rename_i u hu
      exact ⟨u, v, hu, rfl, fun _ => ⟨t, ht, (Option.some.inj hv).symm⟩, fun hf => by cases hf⟩
    | false =>
      obtain ⟨v, hm, h⟩ := picked h rfl
      dsimp only at h
      split at h <;> cases h
      rename_i u hu
      exact ⟨u, v, hu, rfl, fun hf => (by cases hf), fun _ => hm⟩

/-- The type of an address is varying when the address is scattered, unless that is forgotten on the path. -/
theorem Checked.addressType_isVarying (h : Checked T e) (ha : e.addressType = .ok (some a)) :
    a.isVarying = (e.isScattered && !e.isBlurred) := by
  induction e using Expr.induct generalizing a with
  | h e ih =>
  cases e with
  | index n base position =>
    obtain ⟨t, ht, -⟩ := (h.child (c := base) (by simp [children])).here.typed
    obtain ⟨u, hu, -⟩ := (h.child (c := position) (by simp [children])).here.typed
    rw [addressType, type_ok ht] at ha
    obtain ⟨element, varying, -, rfl, rfl⟩ := elementAddressType_some (type_ok hu) ha
    rw [addressOfType_isVarying, isScattered, isBlurred, isPointer, ht, isVarying_eq hu, isVarying_eq ht, Option.any_some]
    cases u.isVarying <;> cases t.stored.isPointer <;> simp
  | member n base name arrow access =>
    obtain ⟨x, -, rfl, -⟩ := h.here.grounded
    obtain ⟨-, u, v, -, rfl, harrow, hdot⟩ := memberAddressType_some ha
    rw [addressOfType_isVarying, isScattered, isBlurred]
    cases arrow with
    | true =>
      obtain ⟨t, ht, rfl⟩ := harrow rfl
      rw [if_pos rfl, isVarying_eq (type?_of_ok ht), Ty.isVarying_stored]
      exact (Bool.and_true _).symm
    | false =>
      rw [if_neg Bool.false_ne_true, Bool.not_false, Bool.true_and]
      rcases storageVariability_some (hdot rfl) with ⟨b, hb, haddress, rfl⟩ | ⟨haddress, rfl⟩
      · rw [ih base (by simp [children]) (h.child (by simp [children])) hb, haddress, Bool.not_true, Bool.false_and,
          Bool.or_false]
      · rw [haddress]
        cases base.isScattered <;> simp
  | reference n c => exact ih c (by simp [children]) (h.child (by simp [children])) ha
  | dereference n c =>
    obtain ⟨t, ht, -⟩ := (h.child (c := c) (by simp [children])).here.typed
    rw [addressType, type_ok ht] at ha
    rw [isScattered, isBlurred, isReference_eq ht, isVarying_eq ht]
    cases t with
    | reference r o =>
      cases ha
      -- the reference may be scattered, but the address of what it refers to is always typed as uniform
      rw [addressOfType_isVarying]
      exact (Bool.and_not_self _).symm
    | pointer p q o =>
      cases ha
      exact (Bool.and_true _).symm
    | _ => cases ha
  | symbol n s =>
    obtain ⟨t, ht, -⟩ := h.typed
    rw [addressType, type_ok ht] at ha
    cases ha
    exact addressOfType_isVarying t false
  | _ => cases ha

/-! ## References to storage -/

theorem pickedType_addressable {x : Access} {t u : Ty} (hx : x.isAddressable = true) (ht : x.pickedType false = some t)
    (hu : accessedType? x = some u) : t = u := by
  cases x with
  | field i aggregate =>
    simp only [Access.pickedType, Option.ite_none_right_eq_some, Option.map_eq_some_iff] at ht
    obtain ⟨-, w, hw, rfl⟩ := ht
    exact Option.some.inj (hw.symm.trans hu)
  | swizzle indices aggregate =>
    simp only [Access.isAddressable, beq_iff_eq] at hx
    cases aggregate with
    | vector s n o =>
      simp only [Access.pickedType, hx, if_true, Bool.false_eq_true, if_false] at ht
      exact Option.some.inj (ht.symm.trans hu)
    | _ => cases ht

theorem memberBase_uniform {arrow varying : Bool} {t aggregate : Ty}
    (h : Check.memberBase arrow t = .ok (aggregate, varying)) (hv : arrow = true → t.isVarying = false) :
    varying = false := by
  unfold Check.memberBase at h
  split at h <;> cases h
  · exact hv rfl
  · rfl

/-- A uniform address of a value points to the type of the expression. -/
theorem addressType_uniform {t : Ty} (h : Checked T e) (hw : e.WellTyped) (ht : e.type? = some t)
    (hr : t.isReference = false) (ha : e.addressType = .ok (some a)) (hu : a.isVarying = false) : a = .pointer t {} := by
  -- only the forms below have addresses at all
  cases e with
  | index n base position =>
    obtain ⟨element, varying, hn, rfl⟩ := WellTyped.index_address h hw ha
    rw [addressOfType_isVarying] at hu
    subst hu
    rw [if_neg Bool.false_ne_true] at hn
    rw [Option.some.inj (ht.symm.trans hn)]
    rfl
  | member n base name arrow access =>
    obtain ⟨b, aggregate, varying, x, hb, hbase, rfl, -, hn⟩ := hw
    obtain ⟨hx, u, v, hpicked, rfl, harrow, -⟩ := memberAddressType_some ha
    rw [addressOfType_isVarying] at hu
    subst hu
    have huniform : varying = false := by
      refine memberBase_uniform hbase fun h => ?_
      obtain ⟨b', hb', hv⟩ := harrow h
      rw [type_ok hb] at hb'
      cases hb'
      exact hv.symm
    subst huniform
    rw [pickedType_addressable hx (hn.symm.trans ht) hpicked]
    rfl
  | reference n c =>
    obtain ⟨b, hb, -, hn, -⟩ := hw
    rw [Option.some.inj (ht.symm.trans hn)] at hr
    cases hr
  | dereference n c =>
    obtain ⟨b, u, hb, hread, hn⟩ := hw
    obtain rfl := Option.some.inj (ht.symm.trans hn)
    rw [addressType, type_ok hb] at ha
    cases b with
    | reference r o => cases ha; cases hread; rfl
    | pointer p q o =>
      cases ha
      cases hread
      have hq : q.variability = .uniform := by
        cases hv : q.variability with
        | uniform => rfl
        | varying => simp [Ty.isVarying, Ty.variability, hv] at hu
      simp [hq]
    | _ => cases ha
  | symbol n s =>
    rw [addressType, type_ok ht] at ha
    cases ha
    rfl
  | _ => cases ha

/-- What the types of addresses say of a node. -/
structure Located (e : Expr) : Prop where
  storage : ∀ a, e.addressType = .ok (some a) → a.isVarying = (e.isScattered && !e.isBlurred)
  taken : ∀ node c, e = .addressOf node c → c.isFunctionName = false → c.isReference = false →
    ∃ a, c.addressType = .ok (some a) ∧ node.type = some a
  bound : ∀ node c, e = .reference node c →
    ∃ a b, Check.addressTypeOf c = .ok (some a) ∧ Check.addressTypeOf e = .ok (some b) ∧ (b = a ↔ a.isVarying = false)

theorem addressTypeOf_value {t : Ty} (ht : e.type? = some t) (hr : t.isReference = false) :
    Check.addressTypeOf e = e.addressType := by
  unfold Check.addressTypeOf
  rw [type_ok ht]
  cases t with
  | reference => cases hr
  | _ => rfl

/-- Taking a reference first gives a uniform address, whatever the address of the storage is. -/
theorem reference_bound {node : Node} {c : Expr} (h : Checked T (.reference node c)) (hw : Everywhere WellTyped (.reference node c)) :
    ∃ a b, Check.addressTypeOf c = .ok (some a) ∧ Check.addressTypeOf (.reference node c) = .ok (some b) ∧
      (b = a ↔ a.isVarying = false) := by
  obtain ⟨t, ht, hr, hn, hstorage⟩ := hw.here
  have hc : Checked T c := h.child (by simp [children])
  have hwc : c.WellTyped := (hw.child (c := c) (by simp [children])).here
  obtain ⟨o, ho⟩ := hc.addressType_ok
  have hb : Check.addressTypeOf (.reference node c) = .ok (some (.pointer t {})) := by
    unfold Check.addressTypeOf
    rw [type_ok (e := .reference node c) hn]
    rfl
  cases o with
  | none =>
    rw [isStorage, ho, type_ok ht] at hstorage
    simp [storageVariability, bind, Except.bind, hr] at hstorage
  | some a =>
    refine ⟨a, _, (addressTypeOf_value ht hr).trans ho, hb, fun h => ?_, fun h => ?_⟩
    · rw [← h]
      rfl
    · exact (addressType_uniform hc hwc ht hr ho h).symm

theorem located (h : Checked T e) (hw : Everywhere WellTyped e) : Everywhere Located e := by
  induction e using Expr.induct with
  | h e ih =>
  refine .node ⟨fun a ha => h.addressType_isVarying ha, ?_, ?_⟩ fun c hc => ih c hc (h.child hc) (hw.child hc)
  · rintro node c rfl hname hr
    obtain ⟨a, ha, hn⟩ := hw.here.2 hname
    obtain ⟨t, ht, -⟩ := (h.child (c := c) (by simp [children])).here.typed
    rw [isReference_eq ht] at hr
    exact ⟨a, (addressTypeOf_value ht hr).symm.trans ha, hn⟩
  · rintro node c rfl
    exact reference_bound h hw

end Expr

open Check Spmd.Expr

/-- In what checking gives, the address of storage is varying exactly when it is scattered and that was not forgotten on the
path to it. The address of a reference to storage is that of the storage when that is uniform, and only then. -/
theorem typecheck_locates {target : Target} {file : String} {json : Option Json} {p : Program} {e t : Expr}
    {s s' : Session} (hp : Program.read target file json = .ok p) (he : e ∈ p.expressions) (hs : s.target = target)
    (ht : (typecheck e).run s = (.ok (some t), s')) : Everywhere Located t :=
  located (typecheck_checked hp he hs ht) (typecheck_wellTyped hp he hs ht)

/-! ## An element of a scattered element -/

/-- `a[v][0]` where `v` is varying. -/
def rowJson : Json :=
  programJson [("a", .object [("array", .object [("array", .string "int32")])]), ("v", .string "varying int32")]
    (.object [("index", .object [("index", .object [("symbol", .string "a")]), ("at", .object [("symbol", .string "v")])]),
      ("at", .object [("const", .string "0"), ("type", .string "int32")])])

def rowArray : Symbol := ⟨"a", .array (.array .int32 none) none, .local, none, none⟩

def rowIndex : Symbol := ⟨"v", .basic .int32 .varying, .local, none, none⟩

/-- `a[v]` and `a[v][0]` with their operators in a state. -/
def rowExpr (row element : Node) : Expr :=
  .index element
    (.index row (.symbol (.typed none rowArray.type) rowArray) (.symbol (.typed none rowIndex.type) rowIndex))
    (.const (.typed none Ty.int32.asConst) ⟨.int32, 8, [.int 0]⟩)

def rowTyped : Expr := rowExpr (.typed none (.array (.basic .int32 .varying) none)) (.typed none (.basic .int32 .varying))

theorem rowProgram_read : Program.read .standard "program" (some rowJson) =
    .ok ⟨{ target := .standard, file := "program", symbols := [rowArray, rowIndex] }, [rowExpr {} {}]⟩ := rfl

theorem rowExpr_checks :
    (typecheck (rowExpr {} {})).run { target := .standard } = (.ok (some rowTyped), { target := .standard }) := rfl

theorem typecheck_locates_row : Everywhere Located rowTyped :=
  typecheck_locates rowProgram_read (List.mem_singleton_self _) rfl rowExpr_checks

/-- The rows that the lanes pick differ, but the address of their first elements is said to be uniform. -/
theorem rowExpr_forgets : ∃ t s', (typecheck (rowExpr {} {})).run { target := .standard } = (.ok (some t), s') ∧
    t.isScattered = true ∧ t.addressType = .ok (some (.pointer (.basic .int32 .varying) {})) ∧
      (Ty.pointer (.basic .int32 .varying) {}).isVarying = false :=
  ⟨_, _, rowExpr_checks, rfl, rfl, rfl⟩

end Spmd
