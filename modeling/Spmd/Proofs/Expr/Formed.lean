import Spmd.Expr.Storage
import Spmd.Proofs.Constant.Sound
import Spmd.Proofs.Expr.Coherent
import Spmd.Proofs.Ty.Legal

/-!
# Formed trees

Every node of a checked tree is formed: it has a legal type, its children have the types its form asks for, and it
keeps what folding relies on. `Operand` describes what a check gives, where a name of functions may still wait for its
function and a list for what it fills.
-/

namespace Spmd

theorem Target.width_pos (T : Target) : 0 < T.width := by
  have hmem := T.width_mem
  simp only [laneWidths, List.mem_cons, List.not_mem_nil, or_false] at hmem
  omega

/-- A symbol whose type can be stated, and whose value can be that of its type, which is `const`. -/
structure Symbol.Sound (width : Nat) (s : Symbol) : Prop where
  stated : s.type.Stated
  value : ∀ c, s.value = some c → ∃ q, s.type = .scalar q ∧ c.Serves width q
  isConst : s.value.isSome = true → s.type.isConst = true

theorem Symbol.Sound.legal {width : Nat} {s : Symbol} (h : s.Sound width) : s.type.Legal := h.stated.legal

namespace Expr

/-! ## Formed nodes -/

/-- What a checked node keeps of its children beside their types. -/
def Grounded (T : Target) : Expr → Prop
  | .unary node _ e => ∃ t u, node.type = some t ∧ e.type? = some u ∧ t.core = u.stored.core
  | .binary node .comma _ r _ => ∃ t u, node.type = some t ∧ r.type? = some u ∧ t.core = u.stored.core
  | .binary node (.logic _) l r _ =>
    ∃ v w, node.type = some (.basic .bool (v.join w)) ∧ l.HasType (.basic .bool v) ∧ r.HasType (.basic .bool w)
  | .select node test _ _ =>
    ∃ t u, node.type = some t ∧ test.type? = some u ∧
      ∀ s, t = .scalar s → u.isVarying = true → s.qualifiers.variability = .varying
  | .list node _ => ∀ e o, node.type ≠ some (.array e none o)
  | .member _ _ _ _ access => ∃ a t, access = some a ∧ accessedType? a = some t ∧ t.Legal
  | .const node c => ∃ s, node.type = some (.scalar s) ∧ c.Suits T.width s
  | .cast node target e _ =>
    node.type = some target ∧ (target.isVoid = true → ∀ u, e.type? = some u → u.isVoid = true) ∧
      ∀ s t, e.type? = some (.scalar s) → target = .scalar t →
        s.qualifiers.variability = .varying → t.qualifiers.variability = .varying
  | .symbol node s => node.type = some s.type ∧ s.Sound T.width
  | .function f => f.isResolved = true
  | _ => True

structure Formed (T : Target) (e : Expr) : Prop where
  typed : ∃ t, e.type? = some t ∧ t.Legal
  coherent : e.Coherent T
  grounded : e.Grounded T

/-- A tree of formed nodes. -/
def Checked (T : Target) (e : Expr) : Prop := Everywhere (Formed T) e

variable {T : Target} {e : Expr}

theorem Checked.typed (h : Checked T e) : ∃ t, e.type? = some t ∧ t.Legal := (Everywhere.here h).typed

theorem Checked.legal {t : Ty} (h : Checked T e) (ht : e.type? = some t) : t.Legal := by
  obtain ⟨u, hu, hl⟩ := h.typed
  rw [ht] at hu
  cases hu
  exact hl

theorem Checked.leaf (h : Formed T e) (hc : e.children = []) : Checked T e := Everywhere.leaf h hc

theorem Checked.one (h : Formed T e) {c : Expr} (hc : e.children = [c]) (hone : Checked T c) : Checked T e :=
  Everywhere.one h hc hone

theorem literal_checked {s : ScalarTy} {v : Constant} (h : v.Suits T.width s) (place : Option Location) :
    Checked T ((⟨(Ty.scalar s).asConst, v⟩ : Literal).expr place) :=
  Checked.leaf ⟨⟨_, rfl, trivial⟩, trivial, s.withConst true, rfl, h.of_alike rfl rfl⟩ rfl

/-- Only lists are measured against what they fill, and no list has the type of an array without a size. -/
theorem HasType.fits_of_checked {t : Ty} (h : e.HasType t) (hc : Checked T e) : e.Fits t := by
  unfold Fits filling
  split
  · rename_i n items el o
    obtain ⟨u, hu, hcore⟩ := hasType_iff.mp h
    cases u with
    | array el' m o' =>
      simp only [Ty.core_array, Ty.array.injEq, and_true] at hcore
      obtain ⟨-, rfl⟩ := hcore
      exact absurd hu (hc.here.grounded el' o')
    | _ => cases hcore
  · exact h

/-! ## Storage -/

theorem storageVariability_ok {address : Except Fault (Option Ty)} {type : Except Fault Ty}
    (ha : ∃ a, address = .ok a) (ht : ∃ t, type = .ok t) : ∃ v, storageVariability address type = .ok v := by
  obtain ⟨a, rfl⟩ := ha
  obtain ⟨t, rfl⟩ := ht
  cases a with
  | none => exact ⟨_, rfl⟩
  | some u => exact ⟨_, rfl⟩

theorem elementAddressType_ok {base : Ty} {isStorage : Except Fault Bool} {position : Except Fault Ty}
    (hs : ∃ s, isStorage = .ok s) (hp : ∃ t, position = .ok t) :
    ∃ a, elementAddressType base isStorage position = .ok a := by
  obtain ⟨s, rfl⟩ := hs
  obtain ⟨t, rfl⟩ := hp
  unfold elementAddressType
  split
  · split
    · exact ⟨_, rfl⟩
    · exact ⟨_, rfl⟩
  · cases s <;> exact ⟨_, rfl⟩
  · cases s <;> exact ⟨_, rfl⟩
  · exact ⟨_, rfl⟩

/-- Whether a checked expression denotes storage, and what address that has, can always be told. -/
theorem Checked.addressType_ok (h : Checked T e) : ∃ a, e.addressType = .ok a := by
  induction e using Expr.induct with
  | h e ih =>
  have typed : ∀ c ∈ e.children, ∃ t, c.type = .ok t := by
    intro c hc
    obtain ⟨t, ht, -⟩ := Checked.typed (h.child hc)
    exact ⟨t, type_ok ht⟩
  have storage : ∀ c ∈ e.children, ∃ v, storageVariability c.addressType c.type = .ok v :=
    fun c hc => storageVariability_ok (ih c hc (h.child hc)) (typed c hc)
  cases e with
  | index n base position =>
    obtain ⟨t, ht⟩ := typed base (by simp [children])
    obtain ⟨v, hv⟩ := storage base (by simp [children])
    rw [ht] at hv
    rw [addressType, ht]
    exact elementAddressType_ok ⟨v.isSome, by rw [hv]; rfl⟩ (typed position (by simp [children]))
  | member n base name arrow access =>
    obtain ⟨a, u, rfl, hu, -⟩ := h.here.grounded
    obtain ⟨t, ht⟩ := typed base (by simp [children])
    obtain ⟨v, hv⟩ := storage base (by simp [children])
    rw [ht] at hv
    simp only [addressType, ht, hu]
    split
    · exact ⟨_, rfl⟩
    · cases arrow with
      | true => exact ⟨_, rfl⟩
      | false =>
        rw [if_neg Bool.false_ne_true, hv]
        cases v <;> exact ⟨_, rfl⟩
  | reference n c => exact ih c (by simp [children]) (h.child (by simp [children]))
  | dereference n c =>
    obtain ⟨t, ht⟩ := typed c (by simp [children])
    rw [addressType, ht]
    cases t <;> exact ⟨_, rfl⟩
  | symbol n s =>
    obtain ⟨t, ht, -⟩ := h.typed
    rw [addressType, type_ok ht]
    exact ⟨_, rfl⟩
  | _ => exact ⟨_, rfl⟩

theorem elementAddressType_legal {base t : Ty} {isStorage : Except Fault Bool} {position : Except Fault Ty}
    (hb : base.Legal) (h : elementAddressType base isStorage position = .ok (some t)) : t.Legal := by
  have hs := hb.stored
  unfold elementAddressType at h
  split at h
  · rename_i hp
    rw [hp] at hs
    split at h
    · cases h; exact hs
    · cases position <;> cases h
      exact hs
  · rename_i hp
    rw [hp] at hs
    cases isStorage with
    | error => cases h
    | ok b => cases b <;> cases position <;> cases h; exact hs.2
  · cases isStorage with
    | error => cases h
    | ok b => cases b <;> cases position <;> cases h; trivial
  · cases h

theorem Checked.addressType_legal (h : Checked T e) {t : Ty} (ha : e.addressType = .ok (some t)) : t.Legal := by
  induction e using Expr.induct with
  | h e ih =>
  cases e with
  | index n base position =>
    obtain ⟨b, hb, hlegal⟩ := (h.child (c := base) (by simp [children])).here.typed
    rw [addressType, type_ok hb] at ha
    exact elementAddressType_legal hlegal ha
  | member n base name arrow access =>
    obtain ⟨a, u, rfl, hu, hlegal⟩ := h.here.grounded
    simp only [addressType, hu] at ha
    split at ha
    · cases ha
    · split at ha
      · cases hb : base.type <;> rw [hb] at ha <;> cases ha
        exact hlegal
      · generalize storageVariability base.addressType base.type = v at ha
        cases v with
        | error => cases ha
        | ok v => cases v <;> cases ha; exact hlegal
  | reference n c => exact ih c (by simp [children]) (h.child (by simp [children])) ha
  | dereference n c =>
    obtain ⟨b, hb, hlegal⟩ := (h.child (c := c) (by simp [children])).here.typed
    rw [addressType, type_ok hb] at ha
    cases b with
    | reference => cases ha; exact hlegal.2
    | pointer => cases ha; exact hlegal
    | _ => cases ha
  | symbol n s =>
    obtain ⟨b, hb, hlegal⟩ := h.typed
    rw [addressType, type_ok hb] at ha
    cases ha
    exact hlegal
  | _ => cases ha

/-! ## Operands -/

/-- A function name that a call or a conversion may have picked a function for. -/
structure Known (f : FunctionName) : Prop where
  choice_cases : f.choice = {} ∨ ∃ s ∈ f.candidates, f.choice = ⟨some s, true⟩ ∧ s.signature?.isSome = true
  type_eq : f.node.type = f.function?.map Symbol.type
  legal : ∀ s ∈ f.candidates, s.type.Legal

/-- A function name that no call or conversion has picked a function for. -/
structure Fresh (f : FunctionName) : Prop extends Known f where
  choice_eq : f.choice = {}

/-- Whether the type that an expression is brought to decides more than a cast around it. -/
def awaitsTarget : Expr → Bool
  | .function _ => true
  | .list .. => true
  | _ => false

/-- What checking an expression gives. -/
inductive Operand (T : Target) : Expr → Prop
  | name {f : FunctionName} (known : Known f) : Operand T (.function f)
  | list {node : Node} {items : List Expr} {ts : List Ty} (type_eq : node.type = some (.list ts))
      (types : items.map type? = ts.map some) (below : ∀ e ∈ items, Operand T e) : Operand T (.list node items)
  | checked {e : Expr} (checked : Checked T e) (closed : e.awaitsTarget = false) : Operand T e

theorem candidates_of_function {f : FunctionName} (h : f.choice = {}) {s : Symbol} (hs : f.function? = some s) :
    f.candidates = [s] := by
  rw [FunctionName.function?, h] at hs
  dsimp only at hs
  split at hs
  · rename_i hc; cases hs; exact hc
  · cases hs

theorem Known.function_mem {f : FunctionName} (h : Known f) {s : Symbol} (hs : f.function? = some s) :
    s ∈ f.candidates := by
  rcases h.choice_cases with hc | ⟨u, hu, hc, -⟩
  · rw [candidates_of_function hc hs]
    exact List.mem_singleton_self s
  · rw [FunctionName.function?, hc] at hs
    cases hs
    exact hu

theorem Known.found {f : FunctionName} (h : Known f) {t : Ty} (ht : f.node.type = some t) :
    ∃ s, f.function? = some s ∧ s.type = t := by
  rwa [h.type_eq, Option.map_eq_some_iff] at ht

theorem Known.isResolved {f : FunctionName} (h : Known f) {t : Ty} (ht : f.node.type = some t) : f.isResolved = true := by
  obtain ⟨s, hs, -⟩ := h.found ht
  rw [FunctionName.isResolved, hs]
  rfl

theorem Known.checked {f : FunctionName} (h : Known f) {t : Ty} (ht : f.node.type = some t) :
    Checked T (.function f) := by
  have hresolved := h.isResolved ht
  obtain ⟨s, hs, rfl⟩ := h.found ht
  have hm : s ∈ f.candidates := h.function_mem hs
  refine Checked.leaf ⟨⟨s.type, ?_, h.legal s hm⟩, trivial, ?_⟩ rfl
  · exact ht
  · exact hresolved

theorem Operand.known {f : FunctionName} (h : Operand T (.function f)) : Known f := by
  cases h with
  | name known => exact known
  | checked _ closed => cases closed

/-- An operand that has a type is a tree of formed nodes. -/
theorem Operand.toChecked (h : Operand T e) {t : Ty} (ht : e.type? = some t) : Checked T e := by
  induction h generalizing t with
  | name known => exact known.checked ht
  | @list node items ts type_eq types below ih =>
    have hitems : ∀ c ∈ items, Checked T c := by
      intro c hc
      have hm : c.type? ∈ ts.map some := types ▸ List.mem_map_of_mem hc
      obtain ⟨u, -, hu⟩ := List.mem_map.mp hm
      exact ih c hc hu.symm
    have hlegal : ∀ u ∈ ts, u.Legal := by
      intro u hu
      have hm : some u ∈ items.map type? := types ▸ List.mem_map_of_mem hu
      obtain ⟨c, hc, hcu⟩ := List.mem_map.mp hm
      exact (hitems c hc).legal hcu
    refine .node ⟨⟨.list ts, type_eq, (Ty.allLegal_iff ts).mpr hlegal⟩, trivial, ?_⟩ hitems
    intro u o hn
    rw [type_eq] at hn
    cases hn
  | checked checked _ => exact checked

theorem Operand.legal (h : Operand T e) {t : Ty} (ht : e.type? = some t) : t.Legal := (h.toChecked ht).legal ht

end Expr

end Spmd
