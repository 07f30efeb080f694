import Spmd.Optimization
import Spmd.Proofs.Constant.Folding
import Spmd.Proofs.Expr.Formed
import Spmd.Proofs.Session.Contract

/-!
# Steps of the optimizer

Given optimized operands, each step of the optimizer has a result: the node around its operands, one of the operands, or
a literal. What is in the lanes of the literal is said by a relation between lanes and scalars (`Check.IsLiteral`).
-/

namespace Spmd

theorem Node.renewed_ok {n : Node} {t : Ty} (h : n.type = some t) : n.renewed = .ok (.typed n.place t) :=
  bind_ok (Node.checked_ok h)

/-! ## Constants in checked trees -/

/-- The value of a constant can be that of every type that differs from its own at most in `const`. -/
theorem Constant.Suits.retype {width : Nat} {c : Constant} {s : ScalarTy} {t : Ty} (h : c.Suits width s)
    (ht : t.core = (Ty.scalar s).core) : ∃ q, t = .scalar q ∧ c.Suits width q := by
  obtain ⟨q, rfl, he, hv⟩ := Ty.scalar_of_core ht
  exact ⟨q, rfl, h.of_alike he hv⟩

theorem Expr.Checked.constant {T : Target} {e : Expr} {c : Constant} (h : Checked T e) (hc : e.constant? = some c) :
    ∃ n s, e = .const n c ∧ e.type? = some (.scalar s) ∧ c.Suits T.width s := by
  cases e with
  | const n d =>
    cases hc
    obtain ⟨s, hs, hsuits⟩ := h.here.grounded
    exact ⟨n, s, rfl, hs, hsuits⟩
  | _ => cases hc

theorem Expr.HasType.constant {T : Target} {e : Expr} {c : Constant} {t : Ty} (h : e.HasType t) (he : Checked T e)
    (hc : e.constant? = some c) : ∃ q, t = .scalar q ∧ c.Suits T.width q := by
  obtain ⟨n, s, -, hs, hsuits⟩ := he.constant hc
  exact hsuits.retype (h.core_eq hs).symm

namespace Check

open Spmd.Expr

variable {T U : Target} {node : Node} {t : Ty}

/-- A literal in the place of a node and of the type of that node, with a scalar in each lane that is allowed there. -/
def IsLiteral (T : Target) (node : Node) (R : Nat → Scalar → Prop) (e : Expr) : Prop :=
  ∃ s c, node.type = some (.scalar s) ∧ e = (⟨(Ty.scalar s).asConst, c⟩ : Literal).expr node.place ∧
    c.Suits T.width s ∧ ∀ i < T.width, ∃ x, c.lane i = .ok x ∧ R i x

theorem IsLiteral.isConstant {R : Nat → Scalar → Prop} {e : Expr} (h : IsLiteral T node R e) : e.constant?.isSome = true := by
  obtain ⟨s, c, -, rfl, -⟩ := h
  rfl

/-- What a fold makes of the scalars that a relation allows. -/
def Stored (k : Kind) (R : Nat → Scalar → Prop) (i : Nat) (y : Scalar) : Prop := ∃ x, R i x ∧ y = x.toKind k

theorem folded_ok {s : ScalarTy} {v : Constant} {R : Nat → Scalar → Prop} (hn : node.type = some (.scalar s))
    (hv : v.Lanewise T.width s.element.kind R) (hone : s.qualifiers.variability = .uniform → v.lanes.length = 1) :
    ∃ e, folded node v = .ok e ∧ IsLiteral T node (Stored s.element.kind R) e := by
  obtain ⟨c, hc, hsuits, hlanes⟩ := Literal.make_ok ⟨hv.toSound, hv.kind_eq, hone⟩
  refine ⟨_, (bind_ok (Node.checked_ok hn)).trans (bind_ok hc), s, c, hn, rfl, hsuits, fun i hi => ?_⟩
  obtain ⟨x, hx, hl⟩ := hv.lane_eq i hi
  exact ⟨_, (hlanes i hi).trans hl, x, hx, rfl⟩

theorem reportFold_meets (cause : FoldProblem) (reported : Bool) :
    Meets U (reportFold node cause reported)
      fun _ new => ∀ x ∈ new, x.isError = true ∧ x.category? = some .constant := by
  unfold reportFold
  split
  · exact Meets.pure fun _ hx => by cases hx
  · refine Meets.mono (report_meets _ _) fun _ new hnew x hx => ?_
    rw [hnew, List.mem_singleton] at hx
    subst hx
    exact ⟨rfl, rfl⟩

/-! ## Operators -/

theorem optimizeUnary_folds {op : ValueOp} {e : Expr} (he : Checked T e)
    (hf : (Expr.unary node op e).Formed T) (hn : node.type = some t) :
    Folds U (optimizeUnary node op e) fun r => r = .unary (.typed node.place t) op e ∨
      ∃ c, e.constant? = some c ∧ IsLiteral T node (Stored c.kind fun i x =>
        ∃ a, c.lane i = .ok a ∧ foldUnaryLane (.value op) a = .value x) r := by
  unfold optimizeUnary
  simp only [Node.renewed_ok hn, lift_ok, pure_bind]
  cases hc : e.constant? with
  | none => exact Folds.some (.inl rfl)
  | some c =>
    dsimp only
    split
    · exact Folds.some (.inl rfl)
    · obtain ⟨n, s, rfl, hs, hsuits⟩ := he.constant hc
      obtain ⟨t', u, ht', hu, hcore⟩ := hf.grounded
      rw [hn] at ht'
      rw [hs] at hu
      cases ht'
      cases hu
      obtain ⟨q, rfl, hq⟩ := hsuits.retype hcore
      obtain ⟨f, hfold, hv⟩ := foldUnary_ok hq.toSound (.value op)
      simp only [hfold, lift_ok, pure_bind]
      cases f with
      | value v =>
        obtain ⟨hcount, hlanes⟩ := hv v rfl
        rw [hq.kind_eq] at hlanes
        obtain ⟨r, hr, hlit⟩ := folded_ok hn hlanes fun hu => hcount.trans (hq.single hu)
        simp only [hr, lift_ok, pure_bind]
        exact Folds.some (.inr ⟨c, rfl, hq.kind_eq ▸ hlit⟩)
      | problem => exact Folds.some (.inl rfl)
      | unfoldable => exact Folds.some (.inl rfl)

section
variable {op : BinaryOp} {l r : Expr} {reported : Bool} (hl : Checked T l) (hr : Checked T r)

theorem optimizeComma_folds {u : Ty} (hu : r.type? = some u) (hn : node.type = some t) :
    Folds U (optimizeComma node l r reported) fun e => e = .binary (.typed node.place t) .comma l r reported ∨
      (∃ a, l.constant? = some a) ∧
        (e = r ∧ u.isReference = false ∨ ∃ x o, u = .reference x o ∧ e = .dereference (.typed r.place x) r) := by
  unfold optimizeComma
  cases hc : l.constant? with
  | none =>
    simp only [Node.renewed_ok hn, lift_ok, pure_bind]
    exact Folds.some (.inl rfl)
  | some a =>
    simp only [type_ok hu, lift_ok, pure_bind]
    cases u with
    | reference x o => exact Folds.some (.inr ⟨⟨a, rfl⟩, .inr ⟨x, o, rfl, rfl⟩⟩)
    | _ => exact Folds.some (.inr ⟨⟨a, rfl⟩, .inl ⟨rfl, rfl⟩⟩)

include hl hr

/-- An operator on two constants gives a scalar of the kind of its result, uniform only where both of them are. -/
theorem binary_scalar (hf : (Expr.binary node op l r reported).Formed T) (hop : op ≠ .comma) {a b : Constant}
    (ha : l.constant? = some a) (hb : r.constant? = some b) :
    ∃ s, node.type = some (.scalar s) ∧ s.element.kind = op.resultKind a.kind ∧ a.Sound T.width ∧ b.Sound T.width ∧
      (s.qualifiers.variability = .uniform → a.lanes.length = 1 ∧ b.lanes.length = 1) := by
  -- each form says which of its types the operands have, and constants are scalars of these
  cases op with
  | arith op =>
    obtain ⟨t, x, y, hn, hx, hy, har⟩ := hf.coherent
    obtain ⟨_, sl, -, hsl, hla⟩ := hl.constant ha
    obtain ⟨_, sr, -, hsr, hrb⟩ := hr.constant hb
    rw [hx] at hsl
    rw [hy] at hsr
    cases hsl
    cases hsr
    obtain ⟨hct, hct'⟩ := (Ty.arithmetic_values rfl rfl).mp har
    obtain ⟨q, rfl, hqa⟩ := hla.retype hct.symm
    obtain ⟨q', hq', hqb⟩ := hrb.retype hct'.symm
    cases hq'
    exact ⟨q, hn, hqa.kind_eq.symm, hqa.toSound, hqb.toSound, fun hu => ⟨hqa.single hu, hqb.single hu⟩⟩
  | compare op =>
    obtain ⟨t, hn, hlt, hrt⟩ := hf.coherent
    obtain ⟨q, rfl, hqa⟩ := hlt.constant hl ha
    obtain ⟨q', hq', hqb⟩ := hrt.constant hr hb
    cases hq'
    exact ⟨_, hn, rfl, hqa.toSound, hqb.toSound, fun hu => ⟨hqa.single hu, hqb.single hu⟩⟩
  | logic op =>
    obtain ⟨v, w, hn, hlt, hrt⟩ := hf.grounded
    obtain ⟨q, hq, hqa⟩ := hlt.constant hl ha
    obtain ⟨q', hq', hqb⟩ := hrt.constant hr hb
    cases hq
    cases hq'
    refine ⟨_, hn, hqa.kind_eq.symm, hqa.toSound, hqb.toSound, fun hu => ?_⟩
    cases v with
    | uniform => exact ⟨hqa.single rfl, hqb.single hu⟩
    | varying => cases hu
  | comma => exact absurd rfl hop

theorem optimizeBinary_folds (hf : (Expr.binary node op l r reported).Formed T) (hop : op ≠ .comma)
    (hn : node.type = some t) (pointer : Bool) :
    Folds U (optimizeBinary node op l r reported (.ok pointer)) fun e =>
      (∃ reported, e = .binary (.typed node.place t) op l r reported) ∨
        ∃ a b, l.constant? = some a ∧ r.constant? = some b ∧ b.kind = a.kind ∧
          IsLiteral T node (Stored (op.resultKind a.kind) fun i x =>
            ∃ v w, a.lane i = .ok v ∧ b.lane i = .ok w ∧ foldLane op a.kind v w = .value x) e := by
  unfold optimizeBinary
  rw [if_neg hop]
  cases ha : l.constant? with
  | none =>
    simp only [Node.renewed_ok hn, lift_ok, pure_bind]
    exact Folds.some (.inl ⟨_, rfl⟩)
  | some a =>
    cases hb : r.constant? with
    | none =>
      simp only [Node.renewed_ok hn, lift_ok, pure_bind]
      exact Folds.some (.inl ⟨_, rfl⟩)
    | some b =>
      simp only [Node.renewed_ok hn, lift_ok, pure_bind]
      split
      · exact Folds.some (.inl ⟨_, rfl⟩)
      · unfold foldConstants
        obtain ⟨s, hs, hk, hsa, hsb, hone⟩ := binary_scalar hl hr hf hop ha hb
        obtain ⟨f, hfold, hv⟩ := foldBinary_ok T.width_pos hsa hsb op a.kind
        simp only [Node.renewed_ok hn, hfold, lift_ok, pure_bind]
        cases f with
        | value v =>
          obtain ⟨-, hkind, hcount, hlanes⟩ := hv v rfl
          rw [← hk] at hlanes
          obtain ⟨e, he, hlit⟩ := folded_ok hs hlanes fun hu => by
            rw [hcount, (hone hu).1, (hone hu).2]; rfl
          simp only [he, lift_ok, pure_bind]
          exact Folds.some (.inr ⟨a, b, rfl, rfl, hkind, hk ▸ hlit⟩)
        | problem cause => exact Folds.after (reportFold_meets cause reported) fun _ => Folds.some (.inl ⟨_, rfl⟩)
        | unfoldable => exact Folds.some (.inl ⟨_, rfl⟩)

end

/-! ## Selections -/

theorem verdict_ok {c : Constant} (hc : c.Sound T.width) :
    ∃ v, verdict? c = .ok v ∧ ∀ b, v = some b → ∀ i < T.width, ∃ x, c.lane i = .ok x ∧ x.toBool = b := by
  obtain ⟨tests, htests, hlen, hlanes⟩ := extract_bool_ok hc false
  rw [if_neg Bool.false_ne_true] at hlen
  have hall : ∀ b, tests.all (· == .bool b) = true → ∀ i < T.width, ∃ x, c.lane i = .ok x ∧ x.toBool = b := by
    intro b hb i hi
    obtain ⟨j, hj, hji⟩ : ∃ j < tests.length, c.lane j = c.lane i := by
      rcases hc.count_eq with h1 | h1
      · exact ⟨0, by omega, Constant.lane_of_single h1 0 i⟩
      · exact ⟨i, by omega, rfl⟩
    obtain ⟨x, hx, ht⟩ := hlanes j hj
    have hmem := List.all_eq_true.mp hb _ (List.mem_of_getElem? ht)
    refine ⟨x, hji ▸ hx, ?_⟩
    simpa using hmem
  unfold verdict?
  rw [bind_ok htests]
  split
  · exact ⟨none, rfl, nofun⟩
  · split
    · rename_i hb
      exact ⟨some true, rfl, fun b h => by cases h; exact hall true hb⟩
    · split
      · rename_i hb
        exact ⟨some false, rfl, fun b h => by cases h; exact hall false hb⟩
      · exact ⟨none, rfl, nofun⟩

/-- The truth value that a constant test has in all lanes. -/
def decision (test : Expr) : Option Bool := do
  match verdict? (← test.constant?) with
  | .ok v => v
  | .error _ => none

section
variable {test a b : Expr} (ht : Checked T test) (ha : Checked T a) (hb : Checked T b)
  (hf : (Expr.select node test a b).Formed T) (hn : node.type = some t)
include ht ha hb hf hn

/-- The branches of a selection are of its type, and where its type is uniform its test has one element. -/
theorem select_scalar {c p q : Constant} (hc : test.constant? = some c) (hp : a.constant? = some p)
    (hq : b.constant? = some q) :
    ∃ s, node.type = some (.scalar s) ∧ c.Sound T.width ∧ p.Suits T.width s ∧ q.Suits T.width s ∧
      (s.qualifiers.variability = .uniform → c.lanes.length = 1) := by
  obtain ⟨t', v, hn', -, hat, hbt⟩ := hf.coherent
  obtain ⟨t'', u, hn'', hu, hvarying⟩ := hf.grounded
  rw [hn] at hn' hn''
  cases hn'
  cases hn''
  obtain ⟨s, rfl, hps⟩ := hat.constant ha hp
  obtain ⟨s', hs', hqs⟩ := hbt.constant hb hq
  cases hs'
  obtain ⟨-, w, -, hw, hcw⟩ := ht.constant hc
  rw [hu] at hw
  cases hw
  refine ⟨s, hn, hcw.toSound, hps, hqs, fun hs => ?_⟩
  cases hw : w.qualifiers.variability with
  | uniform => exact hcw.single hw
  | varying =>
    have hsv := hvarying s rfl (by simp [Ty.isVarying, Ty.variability, hw])
    rw [hs] at hsv
    cases hsv

theorem foldLanes_ok {c : Constant} (hc : test.constant? = some c) :
    ∃ o, foldLanes node c a b = .ok o ∧ ∀ e, o = some e → ∃ p q, a.constant? = some p ∧ b.constant? = some q ∧
      IsLiteral T node (Stored p.kind fun i x =>
        ∃ y, c.lane i = .ok y ∧ (if y.toBool then p.lane i else q.lane i) = .ok x) e := by
  unfold foldLanes
  rw [bind_ok (Node.renewed_ok hn)]
  cases hp : a.constant? with
  | none => exact ⟨none, rfl, nofun⟩
  | some p =>
    cases hq : b.constant? with
    | none => exact ⟨none, rfl, nofun⟩
    | some q =>
      dsimp only
      split
      · exact ⟨none, rfl, nofun⟩
      · obtain ⟨s, hs, hcs, hps, hqs, hsingle⟩ := select_scalar ht ha hb hf hn hc hp hq
        obtain ⟨f, hfold, hv⟩ := foldSelect_ok T.width_pos hcs hps.toSound hqs.toSound
        rw [bind_ok hfold]
        cases f with
        | value v =>
          obtain ⟨hcount, hlanes⟩ := hv v rfl
          rw [hps.kind_eq] at hlanes
          have hone : s.qualifiers.variability = .uniform → v.lanes.length = 1 := fun hu =>
            hcount (hsingle hu) (hps.single hu) (hqs.single hu)
          obtain ⟨e, he, hlit⟩ := folded_ok hs hlanes hone
          refine ⟨some e, bind_ok he, fun e' h => ?_⟩
          cases h
          exact ⟨p, q, rfl, rfl, hps.kind_eq ▸ hlit⟩
        | problem => exact ⟨none, rfl, nofun⟩
        | unfoldable => exact ⟨none, rfl, nofun⟩

theorem optimizeSelect_ok :
    ∃ e, optimizeSelect node test a b = .ok (some e) ∧
      ((decision test = none ∧ e = .select (.typed node.place t) test a b) ∨
      (∃ c v, test.constant? = some c ∧ decision test = some v ∧ e = (if v then a else b) ∧
        ∀ i < T.width, ∃ x, c.lane i = .ok x ∧ x.toBool = v) ∨
      ∃ c p q, test.constant? = some c ∧ decision test = none ∧ a.constant? = some p ∧ b.constant? = some q ∧
        IsLiteral T node (Stored p.kind fun i x =>
          ∃ y, c.lane i = .ok y ∧ (if y.toBool then p.lane i else q.lane i) = .ok x) e) := by
  unfold optimizeSelect
  cases hc : test.constant? with
  | none => exact ⟨_, bind_ok (Node.renewed_ok hn), .inl ⟨by simp [decision, hc], rfl⟩⟩
  | some c =>
    obtain ⟨-, s, -, hs, hsuits⟩ := ht.constant hc
    obtain ⟨v, hv, hlanes⟩ := verdict_ok hsuits.toSound
    have hdecision : decision test = v := by simp [decision, hc, hv]
    dsimp only
    rw [bind_ok hv]
    cases v with
    | some v =>
      refine ⟨if v then a else b, by cases v <;> rfl, .inr (.inl ⟨c, v, rfl, hdecision, rfl, hlanes v rfl⟩)⟩
    | none =>
      obtain ⟨o, ho, hlit⟩ := foldLanes_ok ht ha hb hf hn hc
      dsimp only
      rw [bind_ok ho]
      cases o with
      | none => exact ⟨_, bind_ok (Node.renewed_ok hn), .inl ⟨hdecision, rfl⟩⟩
      | some e =>
        obtain ⟨p, q, hp, hq, hlit⟩ := hlit e rfl
        exact ⟨e, rfl, .inr (.inr ⟨c, p, q, rfl, hdecision, hp, hq, hlit⟩)⟩

end

/-! ## Casts and symbols -/

theorem casted_ok {s q : ScalarTy} {c v : Constant} (hn : node.type = some (.scalar q)) (hc : c.Suits T.width s)
    (hvarying : s.qualifiers.variability = .varying → q.qualifiers.variability = .varying)
    (hfold : foldCast c q.element.kind (Ty.scalar q).isVarying = .value v) :
    ∃ r, folded node v = .ok r ∧ IsLiteral T node (Stored q.element.kind fun i x => c.lane i = .ok x) r := by
  obtain ⟨hcount, hlanes⟩ := foldCast_value hc.toSound hfold
  refine folded_ok hn hlanes fun hq => ?_
  rw [hcount (by simp [Ty.isVarying, Ty.variability, hq])]
  cases hv : s.qualifiers.variability with
  | uniform => exact hc.single hv
  | varying =>
    have hqv := hvarying hv
    rw [hq] at hqv
    cases hqv

theorem foldCasted_folds {s q : ScalarTy} {e : Expr} {c : Constant} {reported : Bool} (hn : node.type = some (.scalar q))
    (hc : c.Suits T.width s) (hvarying : s.qualifiers.variability = .varying → q.qualifiers.variability = .varying) :
    Folds U (foldCasted node (.scalar q) (.scalar q) e c reported) fun r =>
      (∃ reported, r = .cast (.typed node.place (.scalar q)) (.scalar q) e reported) ∨
        IsLiteral T node (Stored q.element.kind fun i x => c.lane i = .ok x) r := by
  unfold foldCasted
  simp only [Node.renewed_ok hn, Ty.constantKind, lift_ok, pure_bind]
  cases hfold : foldCast c q.element.kind (Ty.scalar q).isVarying with
  | value v =>
    obtain ⟨r, hr, hlit⟩ := casted_ok hn hc hvarying hfold
    simp only [hr, lift_ok, pure_bind]
    exact Folds.some (.inr hlit)
  | problem cause => exact Folds.after (reportFold_meets cause reported) fun _ => Folds.some (.inl ⟨_, rfl⟩)
  | unfoldable => exact Folds.some (.inl ⟨_, rfl⟩)

theorem optimizeCast_folds {target : Ty} {e : Expr} {reported : Bool} {u : Ty} (he : Checked T e)
    (hf : (Expr.cast node target e reported).Formed T) (hu : e.type? = some u) :
    Folds U (optimizeCast node target e reported) fun r =>
      (∃ reported, r = .cast (.typed node.place target) target e reported) ∨ (r = e ∧ u.same target = true) ∨
        ∃ c, e.constant? = some c ∧ ∃ s, target = .scalar s ∧
          IsLiteral T node (Stored s.element.kind fun i x => c.lane i = .ok x) r := by
  obtain ⟨hn, hvoid, hvarying⟩ := hf.grounded
  unfold optimizeCast
  simp only [Node.renewed_ok hn, Node.checked_ok hn, type_ok hu, lift_ok, pure_bind]
  split
  · rename_i hsame
    exact Folds.some (.inr (.inl ⟨rfl, hsame⟩))
  · cases hc : e.constant? with
    | none => exact Folds.some (.inl ⟨_, rfl⟩)
    | some c =>
      dsimp only
      split
      · rename_i hfoldable
        obtain ⟨-, s, -, hs, hsuits⟩ := he.constant hc
        rw [hu] at hs
        cases hs
        cases target with
        | scalar q =>
          refine Folds.mono (foldCasted_folds hn hsuits fun hv => hvarying s q hu rfl hv) fun r hr => ?_
          rcases hr with hr | hlit
          · exact .inl hr
          · exact .inr (.inr ⟨c, rfl, q, rfl, hlit⟩)
        | void =>
          -- No constant has the type `void`, and nothing else is cast to it.
          have hv := hvoid rfl _ hu
          cases hv
        | _ => cases hfoldable
      · exact Folds.some (.inl ⟨_, rfl⟩)

theorem optimizeSymbol_ok {s : Symbol} (hf : (Expr.symbol node s).Formed T) :
    ∃ e, optimizeSymbol node s = .ok (some e) ∧ (e = .symbol node s ∨
      ∃ v, s.value = some v ∧ IsLiteral T node (fun i x => v.lane i = .ok x) e) := by
  obtain ⟨hn, hsound⟩ := hf.grounded
  unfold optimizeSymbol
  rw [bind_ok (Node.checked_ok hn)]
  cases hv : s.value with
  | none => exact ⟨_, rfl, .inl rfl⟩
  | some v =>
    obtain ⟨q, hq, hserves⟩ := hsound.value v hv
    rw [hq] at hn ⊢
    obtain ⟨c, hc, hsuits, hlanes⟩ := Literal.make_ok hserves
    refine ⟨_, (if_pos rfl).trans (bind_ok hc), .inr ⟨v, rfl, q, c, hn, rfl, hsuits, fun i hi => ?_⟩⟩
    obtain ⟨x, hx, -⟩ := hserves.toSound.lane hi
    exact ⟨x, (hlanes i hi).trans hx, hx⟩

end Check

end Spmd
