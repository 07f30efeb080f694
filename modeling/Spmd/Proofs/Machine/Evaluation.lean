import Spmd.Proofs.Expr.Formed
import Spmd.Proofs.Machine.Scalar

/-!
# Evaluation

What a tree of operators on truth values and integers evaluates to in one lane, on the machine. An operand that does
not decide the result is evaluated nevertheless when evaluation is eager, and may then leave the tree without a value.
A value is of the kind of its tree (`Expr.evaluate_fits`).
-/

namespace Spmd

def Ty.kind? : Ty → Option Kind
  | .scalar s => some s.element.kind
  | _ => none

theorem Ty.kind_eq {t u : Ty} (h : t.core = u.core) : t.kind? = u.kind? := by
  cases u with
  | scalar s =>
    obtain ⟨s', rfl, he, -⟩ := scalar_of_core h
    rw [kind?, kind?, ← Element.bare_kind, he, Element.bare_kind]
  | _ =>
    cases t with
    | scalar => cases h
    | _ => rfl

/-- What a constant holds in a lane: a single element is repeated in every lane. -/
def Constant.at? (c : Constant) (i : Nat) : Option Scalar := c.lanes[if c.lanes.length = 1 then 0 else i]?

theorem Constant.at_eq {c : Constant} {i : Nat} {x : Scalar} : c.at? i = some x ↔ c.lane i = .ok x :=
  lane_eq_ok.symm

namespace Expr

def kind? (e : Expr) : Option Kind := e.type?.bind Ty.kind?

/-! ## Operands that decide -/

/-- Whether a left operand decides the result. -/
def decides (op : LogicOp) (a : Bool) : Bool :=
  match op with
  | .and => !a
  | .or => a

def conjoin (eager : Bool) (op : LogicOp) (l r : Option Scalar) : Option Scalar :=
  match l with
  | some (.bool a) =>
    if !eager && decides op a then some (.bool a)
    else
      match r with
      | some (.bool b) => some (.bool (match op with | .and => a && b | .or => a || b))
      | _ => none
  | _ => none

def combine (eager : Bool) (op : BinaryOp) (k : Option Kind) (l r : Option Scalar) : Option Scalar :=
  match op with
  | .arith op => do (← k).arith op (← l) (← r)
  | .compare op => do (← k).compare op (← l) (← r)
  | .logic op => conjoin eager op l r
  | .comma => do let _ ← l; r

def choose (eager : Bool) (test a b : Option Scalar) : Option Scalar :=
  match test with
  | some (.bool t) =>
    if eager && (a.isNone || b.isNone) then none
    else if t then a else b
  | _ => none

/-! ## Trees -/

/-- The value of a tree in lane `i`, where `σ` gives the values of variables. -/
def evaluate (eager : Bool) (σ : Symbol → Nat → Scalar) (i : Nat) : Expr → Option Scalar
  | .const _ c => c.at? i
  | .symbol _ s =>
    match s.value with
    | some c => c.at? i
    | none => some (σ s i)
  | .unary _ op e => do (← e.kind?).unary op (← evaluate eager σ i e)
  | .binary _ op l r _ => combine eager op l.kind? (evaluate eager σ i l) (evaluate eager σ i r)
  | .select _ test a b => choose eager (evaluate eager σ i test) (evaluate eager σ i a) (evaluate eager σ i b)
  | .cast _ target e _ => do (← target.kind?).cast (← evaluate eager σ i e)
  | _ => none

/-- Every variable has a value of its kind in every lane. -/
def Proper (σ : Symbol → Nat → Scalar) : Prop := ∀ s k i, s.type.kind? = some k → (σ s i).Fits k

/-! ## The fragment -/

def isPlain : Expr → Bool
  | .unary .. | .binary .. | .select .. | .const .. | .cast .. | .symbol .. => true
  | _ => false

/-- Constants, symbols and operators of which the value is a truth value or an integer. -/
def Plain (e : Expr) : Prop := e.isPlain = true ∧ ∃ k, e.kind? = some k ∧ k.isFloat = false

/-! ## Kinds of operands -/

section
variable {T : Target} {e : Expr} {t : Ty} {k : Kind}

theorem kind_of_type (h : e.type? = some t) : e.kind? = t.kind? := by
  rw [kind?, h, Option.bind_some]

theorem HasType.kind_eq (h : e.HasType t) : e.kind? = t.kind? := by
  obtain ⟨u, hu, hcore⟩ := hasType_iff.mp h
  rw [kind_of_type hu, Ty.kind_eq hcore]

theorem type_of_kind (h : e.kind? = some k) : ∃ s, e.type? = some (.scalar s) ∧ s.element.kind = k := by
  obtain ⟨t, ht, hk⟩ := Option.bind_eq_some_iff.mp h
  cases t with
  | scalar s => cases hk; exact ⟨s, ht, rfl⟩
  | _ => cases hk

section
variable {node : Node} {l r : Expr} {reported : Bool}

theorem kind_unary {op : ValueOp} (hf : (unary node op e).Formed T) (hk : e.kind? = some k) :
    (unary node op e).kind? = some k := by
  obtain ⟨t, u, ht, hu, hcore⟩ := hf.grounded
  obtain ⟨s, hs, rfl⟩ := type_of_kind hk
  rw [hu] at hs
  cases hs
  rw [kind_of_type (e := unary node op e) ht, Ty.kind_eq hcore]
  rfl

theorem kind_comma (hf : (binary node .comma l r reported).Formed T) (hk : r.kind? = some k) :
    (binary node .comma l r reported).kind? = some k := by
  obtain ⟨t, u, ht, hu, hcore⟩ := hf.grounded
  obtain ⟨s, hs, rfl⟩ := type_of_kind hk
  rw [hu] at hs
  cases hs
  rw [kind_of_type (e := binary node .comma l r reported) ht, Ty.kind_eq hcore]
  rfl

theorem kind_arith {op : ArithOp} (hf : (binary node (.arith op) l r reported).Formed T) {k' : Kind}
    (hl : l.kind? = some k) (hr : r.kind? = some k') :
    k' = k ∧ (binary node (.arith op) l r reported).kind? = some k := by
  obtain ⟨t, a, b, ht, ha, hb, har⟩ := hf.coherent
  obtain ⟨s, hs, rfl⟩ := type_of_kind hl
  obtain ⟨s', hs', rfl⟩ := type_of_kind hr
  rw [ha] at hs
  rw [hb] at hs'
  cases hs
  cases hs'
  obtain ⟨hca, hcb⟩ := (Ty.arithmetic_values rfl rfl).mp har
  have hka := Ty.kind_eq hca
  have hkb := Ty.kind_eq hcb
  rw [kind_of_type (e := binary node (.arith op) l r reported) ht, ← hka]
  rw [← hka] at hkb
  exact ⟨Option.some.inj hkb, rfl⟩

theorem kind_compare {op : CompareOp} (hf : (binary node (.compare op) l r reported).Formed T)
    (hl : l.kind? = some k) :
    r.kind? = some k ∧ (binary node (.compare op) l r reported).kind? = some .bool := by
  obtain ⟨t, ht, hlt, hrt⟩ := hf.coherent
  have hk := hlt.kind_eq
  rw [hl] at hk
  rw [hrt.kind_eq, kind_of_type (e := binary node (.compare op) l r reported) ht]
  cases t with
  | scalar s => exact ⟨hk.symm, rfl⟩
  | _ => cases hk

theorem kind_logic {op : LogicOp} (hf : (binary node (.logic op) l r reported).Formed T) :
    (binary node (.logic op) l r reported).kind? = some .bool := by
  obtain ⟨v, w, ht, -, -⟩ := hf.grounded
  exact kind_of_type (e := binary node (.logic op) l r reported) ht

theorem kind_select {test a b : Expr} (hf : (select node test a b).Formed T) :
    a.kind? = (select node test a b).kind? ∧ b.kind? = (select node test a b).kind? := by
  obtain ⟨t, v, ht, -, ha, hb⟩ := hf.coherent
  rw [kind_of_type (e := select node test a b) ht]
  exact ⟨ha.kind_eq, hb.kind_eq⟩

theorem kind_cast {target : Ty} (hf : (cast node target e reported).Formed T) :
    (cast node target e reported).kind? = target.kind? :=
  kind_of_type (e := cast node target e reported) hf.grounded.1

theorem kind_const {c : Constant} (hf : (const node c).Formed T) :
    (const node c).kind? = some c.kind ∧ c.Sound T.width := by
  obtain ⟨s, ht, hsuits⟩ := hf.grounded
  rw [kind_of_type (e := const node c) ht, hsuits.kind_eq]
  exact ⟨rfl, hsuits.toSound⟩

theorem kind_symbol {s : Symbol} (hf : (symbol node s).Formed T) :
    (symbol node s).kind? = s.type.kind? ∧ ∀ c, s.value = some c → s.type.kind? = some c.kind ∧ c.Sound T.width := by
  obtain ⟨ht, hsound⟩ := hf.grounded
  refine ⟨kind_of_type (e := symbol node s) ht, fun c hc => ?_⟩
  obtain ⟨q, hq, hserves⟩ := hsound.value c hc
  rw [hq, hserves.kind_eq]
  exact ⟨rfl, hserves.toSound⟩

end

/-! ## Values are of their kind -/

theorem at_fits {c : Constant} (hc : c.Sound T.width) {i : Nat} {x : Scalar} (hx : c.at? i = some x) :
    x.Fits c.kind :=
  hc.fits x (List.mem_of_getElem? hx)

theorem conjoin_fits {eager : Bool} {op : LogicOp} {a b : Option Scalar} {v : Scalar}
    (h : conjoin eager op a b = some v) : v.Fits .bool := by
  unfold conjoin at h
  split at h
  · split at h
    · cases h
      rfl
    · split at h
      · cases h
        rfl
      · cases h
  · cases h

theorem combine_fits {eager : Bool} {node : Node} {op : BinaryOp} {l r : Expr} {reported : Bool} {a b : Option Scalar}
    {v : Scalar} {j : Kind} (hf : (binary node op l r reported).Formed T) (hr : r.kind? = some j)
    (hl : ∀ w k, l.kind? = some k → a = some w → w.Fits k) (hb : ∀ w, b = some w → w.Fits j)
    (h : combine eager op l.kind? a b = some v) (hk : (binary node op l r reported).kind? = some k) : v.Fits k := by
  cases op with
  | arith op =>
    simp only [combine, Option.bind_eq_bind, Option.bind_eq_some_iff] at h
    obtain ⟨i, hi, w, hw, x, -, hv⟩ := h
    rw [(kind_arith hf hi hr).2] at hk
    cases hk
    exact Kind.arith_fits (hl w _ hi hw) hv
  | compare op =>
    simp only [combine, Option.bind_eq_bind, Option.bind_eq_some_iff] at h
    obtain ⟨i, hi, w, -, x, -, hv⟩ := h
    rw [(kind_compare hf hi).2] at hk
    cases hk
    exact Kind.compare_fits hv
  | logic op =>
    rw [kind_logic hf] at hk
    cases hk
    exact conjoin_fits h
  | comma =>
    simp only [combine, Option.bind_eq_bind, Option.bind_eq_some_iff] at h
    obtain ⟨w, -, hv⟩ := h
    rw [kind_comma hf hr] at hk
    cases hk
    exact hb v hv

theorem choose_some {eager : Bool} {test a b : Option Scalar} {v : Scalar} (h : choose eager test a b = some v) :
    ∃ t, test = some (.bool t) ∧ (if t then a else b) = some v := by
  unfold choose at h
  split at h
  · rename_i t
    split at h
    · cases h
    · exact ⟨t, rfl, h⟩
  · cases h

theorem evaluate_fits {eager : Bool} {σ : Symbol → Nat → Scalar} {i : Nat} {v : Scalar} (he : Checked T e)
    (hp : Everywhere Plain e) (hσ : Proper σ) (h : evaluate eager σ i e = some v) (hk : e.kind? = some k) :
    v.Fits k := by
  induction e using Expr.induct generalizing v k with
  | h e ih =>
  have hf := he.here
  have child : ∀ c ∈ e.children, ∀ w j, evaluate eager σ i c = some w → c.kind? = some j → w.Fits j :=
    fun c hc w j hw hj => ih c hc (he.child hc) (hp.child hc) hw hj
  -- variables have values of their kinds by assumption, and operators give such values
  cases e with
  | const node c =>
    obtain ⟨hkc, hc⟩ := kind_const hf
    rw [hk] at hkc
    cases hkc
    exact at_fits hc h
  | symbol node s =>
    obtain ⟨hks, hvalue⟩ := kind_symbol hf
    rw [evaluate] at h
    rw [hk] at hks
    split at h
    · rename_i c hc
      obtain ⟨hkc, hsound⟩ := hvalue c hc
      rw [← hks] at hkc
      cases hkc
      exact at_fits hsound h
    · cases h
      exact hσ s k i hks.symm
  | unary node op c =>
    simp only [evaluate, Option.bind_eq_bind, Option.bind_eq_some_iff] at h
    obtain ⟨j, hj, a, ha, hv⟩ := h
    rw [kind_unary hf hj] at hk
    cases hk
    exact Kind.unary_fits (child c (by simp [children]) a _ ha hj) hv
  | binary node op l r reported =>
    obtain ⟨j, hj, -⟩ := (hp.child (c := r) (by simp [children])).here.2
    exact combine_fits hf hj (fun w i hi hw => child l (by simp [children]) w i hw hi)
      (fun w hw => child r (by simp [children]) w j hw hj) h hk
  | select node test a b =>
    obtain ⟨hka, hkb⟩ := kind_select hf
    obtain ⟨t, -, hv⟩ := choose_some h
    cases t with
    | true => exact child a (by simp [children]) v k hv (hka.trans hk)
    | false => exact child b (by simp [children]) v k hv (hkb.trans hk)
  | cast node target c reported =>
    obtain ⟨j, hj, hfloat⟩ := hp.here.2
    simp only [evaluate, Option.bind_eq_bind, Option.bind_eq_some_iff] at h
    obtain ⟨kt, hkt, a, -, hv⟩ := h
    rw [kind_cast hf, hkt] at hk hj
    cases hk
    cases hj
    exact Kind.cast_fits hfloat hv
  | _ => cases h

end

end Expr

end Spmd
