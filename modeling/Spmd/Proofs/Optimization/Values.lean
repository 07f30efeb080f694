import Spmd.Proofs.Machine.Evaluation
import Spmd.Proofs.Optimization.Program

/-!
# The optimizer keeps values

Wherever a tree of operators on truth values and integers has a value, whatever the values of its variables are, what
the optimizer makes of it has the same value (`optimize_preserves`).
-/

namespace Spmd

namespace Expr

/-! ## Operands with the same values -/

section
variable {eager : Bool} {l l' r r' : Option Scalar} {v : Scalar} (hl : ∀ v, l = some v → l' = some v)
  (hr : ∀ v, r = some v → r' = some v)
include hl hr

theorem conjoin_mono {op : LogicOp} (h : conjoin eager op l r = some v) : conjoin eager op l' r' = some v := by
  cases l with
  | none => cases h
  | some a =>
    rw [hl a rfl]
    cases a with
    | bool a =>
      cases r with
      | none =>
        simp only [conjoin] at h ⊢
        split at h
        · rename_i hd
          rw [if_pos hd]
          exact h
        · cases h
      | some b =>
        rw [hr b rfl]
        exact h
    | _ => cases h

theorem combine_mono {op : BinaryOp} {k : Option Kind} (h : combine eager op k l r = some v) :
    combine eager op k l' r' = some v := by
  cases op with
  | logic op => exact conjoin_mono hl hr h
  | arith op =>
    simp only [combine, Option.bind_eq_bind, Option.bind_eq_some_iff] at h ⊢
    obtain ⟨k, hk, a, ha, b, hb, hv⟩ := h
    exact ⟨k, hk, a, hl a ha, b, hr b hb, hv⟩
  | compare op =>
    simp only [combine, Option.bind_eq_bind, Option.bind_eq_some_iff] at h ⊢
    obtain ⟨k, hk, a, ha, b, hb, hv⟩ := h
    exact ⟨k, hk, a, hl a ha, b, hr b hb, hv⟩
  | comma =>
    simp only [combine, Option.bind_eq_bind, Option.bind_eq_some_iff] at h ⊢
    obtain ⟨a, ha, hv⟩ := h
    exact ⟨a, hl a ha, hr v hv⟩

theorem choose_mono {test test' : Option Scalar} (ht : ∀ v, test = some v → test' = some v)
    (h : choose eager test l r = some v) : choose eager test' l' r' = some v := by
  obtain ⟨t, rfl, hv⟩ := choose_some h
  rw [ht _ rfl]
  simp only [choose] at h ⊢
  cases eager with
  | false =>
    cases t with
    | true => exact hl v hv
    | false => exact hr v hv
  | true =>
    cases l with
    | none => cases h
    | some a =>
      cases r with
      | none => cases h
      | some b =>
        rw [hl a rfl, hr b rfl]
        exact h

end

theorem combine_of_fold {eager : Bool} {op : BinaryOp} {k : Kind} {a b v x : Scalar} (ha : a.Fits k) (hb : b.Fits k)
    (hx : foldLane op k a b = .value x) (h : combine eager op (some k) (some a) (some b) = some v) :
    v = x.toKind (op.resultKind k) := by
  cases op with
  | arith op => exact Kind.arith_of_fold ha hb hx h
  | compare op => exact Kind.compare_of_fold ha hb hx h
  | logic op =>
    cases a with
    | bool a =>
      cases b with
      | bool b =>
        have hk : k = .bool := ha
        subst hk
        cases hx
        cases eager <;> cases op <;> cases a <;> cases b <;> cases h <;> rfl
      | _ => cases hx
    | _ => cases h
  | comma =>
    simp only [foldLane] at hx
    cases hx

/-! ## Trees with the same values -/

variable {T : Target} {e e' : Expr}

/-- A checked tree that can stand for another: in every lane where that has a value it has the same value. -/
structure Kept (T : Target) (e e' : Expr) : Prop extends Refined T e e' where
  keeps : ∀ eager σ i v, Proper σ → i < T.width → evaluate eager σ i e = some v → evaluate eager σ i e' = some v

theorem Kept.refl (h : Checked T e) : Kept T e e := ⟨Refined.refl h, fun _ _ _ _ _ _ h => h⟩

theorem Refined.kind_eq (h : Refined T e e') : e'.kind? = e.kind? := by
  obtain ⟨t, ht⟩ := h.typed
  rw [(h.alike t ht).kind_eq, kind_of_type ht]

theorem Checked.constant_value (h : Checked T e) {c : Constant} (hc : e.constant? = some c) :
    e.kind? = some c.kind ∧ ∀ eager σ i x, c.lane i = .ok x → evaluate eager σ i e = some x ∧ x.Fits c.kind := by
  obtain ⟨n, s, rfl, hs, hsuits⟩ := h.constant hc
  refine ⟨?_, fun eager σ i x hx => ?_⟩
  · rw [kind_of_type hs, hsuits.kind_eq]
    rfl
  · have hat := Constant.at_eq.mpr hx
    exact ⟨hat, at_fits hsuits.toSound hat⟩

end Expr

namespace Check

open Spmd.Expr

variable {T U : Target} {node : Node} {e : Expr}

theorem IsLiteral.value {R : Nat → Scalar → Prop} (h : IsLiteral T node R e) (eager : Bool)
    (σ : Symbol → Nat → Scalar) {i : Nat} (hi : i < T.width) : ∃ x, evaluate eager σ i e = some x ∧ R i x := by
  obtain ⟨s, c, -, rfl, -, hlanes⟩ := h
  obtain ⟨x, hx, hR⟩ := hlanes i hi
  exact ⟨x, Constant.at_eq.mpr hx, hR⟩

/-! ## Nodes -/

theorem unary_keeps {op : ValueOp} {c c' o : Expr} {d : Constant} (hc : Kept T c c') (hd : c'.constant? = some d)
    (hlit : IsLiteral T node (Stored d.kind fun i x => ∃ a, d.lane i = .ok a ∧ foldUnaryLane (.value op) a = .value x) o)
    {eager : Bool} {σ : Symbol → Nat → Scalar} (hσ : Proper σ) {i : Nat} (hi : i < T.width) {v : Scalar}
    (h : evaluate eager σ i (.unary node op c) = some v) : evaluate eager σ i o = some v := by
  simp only [evaluate, Option.bind_eq_bind, Option.bind_eq_some_iff] at h
  obtain ⟨k, hk, a, ha, hv⟩ := h
  have ha' := hc.keeps eager σ i a hσ hi ha
  obtain ⟨y, hy, x, ⟨w, hw, hx⟩, rfl⟩ := hlit.value eager σ hi
  obtain ⟨hkd, hlane⟩ := hc.checked.constant_value hd
  obtain ⟨hw', hfits⟩ := hlane eager σ i w hw
  rw [hc.kind_eq.trans hk] at hkd
  rw [ha'] at hw'
  cases hkd
  cases hw'
  rw [hy, Kind.unary_of_fold hfits hx hv]

theorem binary_keeps {op : BinaryOp} {l l' r r' o : Expr} {reported : Bool} {p q : Constant} (hl : Kept T l l')
    (hr : Kept T r r') (hp : l'.constant? = some p) (hq : r'.constant? = some q) (hkind : q.kind = p.kind)
    (hlit : IsLiteral T node (Stored (op.resultKind p.kind) fun i x =>
      ∃ v w, p.lane i = .ok v ∧ q.lane i = .ok w ∧ foldLane op p.kind v w = .value x) o)
    {eager : Bool} {σ : Symbol → Nat → Scalar} (hσ : Proper σ) {i : Nat} (hi : i < T.width) {v : Scalar}
    (h : evaluate eager σ i (.binary node op l r reported) = some v) : evaluate eager σ i o = some v := by
  rw [evaluate, ← hl.kind_eq] at h
  have h' := combine_mono (fun a => hl.keeps eager σ i a hσ hi) (fun b => hr.keeps eager σ i b hσ hi) h
  obtain ⟨y, hy, x, ⟨a, b, ha, hb, hx⟩, rfl⟩ := hlit.value eager σ hi
  obtain ⟨hkp, hlane⟩ := hl.checked.constant_value hp
  obtain ⟨-, hlane'⟩ := hr.checked.constant_value hq
  obtain ⟨ha', hfa⟩ := hlane eager σ i a ha
  obtain ⟨hb', hfb⟩ := hlane' eager σ i b hb
  rw [hkp, ha', hb'] at h'
  rw [hkind] at hfb
  rw [hy, combine_of_fold hfa hfb hx h']

/-- What choosing between two constants gives in a lane is the value of the branch that was chosen. -/
theorem chosen_value {a b : Expr} (ha : Checked T a) (hb : Checked T b) {k : Kind} (hka : a.kind? = some k)
    (hkb : b.kind? = some k) {p q : Constant} (hp : a.constant? = some p) (hq : b.constant? = some q) {i : Nat}
    {y : Bool} {x : Scalar} (hx : (if y then p.lane i else q.lane i) = .ok x) (eager : Bool)
    (σ : Symbol → Nat → Scalar) :
    p.kind = k ∧ x.Fits k ∧ (if y then evaluate eager σ i a else evaluate eager σ i b) = some x := by
  obtain ⟨hkp, hlane⟩ := ha.constant_value hp
  obtain ⟨hkq, hlane'⟩ := hb.constant_value hq
  have hpk : p.kind = k := Option.some.inj (hkp.symm.trans hka)
  have hqk : q.kind = k := Option.some.inj (hkq.symm.trans hkb)
  refine ⟨hpk, ?_⟩
  cases y with
  | true =>
    obtain ⟨hx', hfits⟩ := hlane eager σ i x hx
    exact ⟨hpk ▸ hfits, hx'⟩
  | false =>
    obtain ⟨hx', hfits⟩ := hlane' eager σ i x hx
    exact ⟨hqk ▸ hfits, hx'⟩

section
variable {test test' a a' b b' : Expr} (ht : Kept T test test') (ha : Kept T a a') (hb : Kept T b b') {eager : Bool}
  {σ : Symbol → Nat → Scalar} (hσ : Proper σ) {i : Nat} (hi : i < T.width) {v : Scalar}
  (h : evaluate eager σ i (.select node test a b) = some v)
include ht ha hb hσ hi h

theorem select_keeps {n : Node} : evaluate eager σ i (.select n test' a' b') = some v :=
  choose_mono (fun x => ha.keeps eager σ i x hσ hi) (fun x => hb.keeps eager σ i x hσ hi)
    (fun x => ht.keeps eager σ i x hσ hi) h

theorem tested_value {c : Constant} (hc : test'.constant? = some c) {x : Scalar} (hx : c.lane i = .ok x) :
    (if x.toBool then evaluate eager σ i a' else evaluate eager σ i b') = some v := by
  obtain ⟨y, hy, hv⟩ := choose_some (select_keeps ht ha hb hσ hi h (n := node))
  rw [((ht.checked.constant_value hc).2 eager σ i x hx).1] at hy
  cases hy
  exact hv

end

theorem cast_value {target : Ty} {c c' : Expr} {reported : Bool} (hf : (Expr.cast node target c reported).Formed T)
    (hp : Plain (.cast node target c reported)) (hc : Kept T c c') {eager : Bool} {σ : Symbol → Nat → Scalar} (hσ : Proper σ)
    {i : Nat} (hi : i < T.width) {v : Scalar} (h : evaluate eager σ i (.cast node target c reported) = some v) :
    ∃ k a, target.kind? = some k ∧ k.isFloat = false ∧ evaluate eager σ i c = some a ∧ evaluate eager σ i c' = some a ∧
      k.cast a = some v := by
  simp only [evaluate, Option.bind_eq_bind, Option.bind_eq_some_iff] at h
  obtain ⟨k, hk, a, ha, hv⟩ := h
  obtain ⟨-, j, hj, hfloat⟩ := hp
  rw [kind_cast hf, hk] at hj
  cases hj
  exact ⟨k, a, hk, hfloat, ha, hc.keeps eager σ i a hσ hi ha, hv⟩

/-! ## Trees -/

/-- Whatever becomes of a node, it has the values of the node. -/
theorem Rewritten.kept {o : Expr} (he : Checked T e) (hp : Everywhere Plain e) (ho : Rewritten T (Kept T) e o) : Kept T e o := by
  have hf := he.here
  refine ⟨ho.refined he fun _ _ => Kept.toRefined, fun eager σ i v hσ hi h => ?_⟩
  cases ho with
  | leaf => exact h
  | value hv hlit =>
    obtain ⟨x, hx, hlane⟩ := hlit.value eager σ hi
    simp only [evaluate, hv] at h
    rw [Constant.at_eq.mpr hlane] at h
    rw [hx, h]
  | unary _ hc =>
    simp only [evaluate, Option.bind_eq_bind, Option.bind_eq_some_iff] at h ⊢
    obtain ⟨k, hk, a, ha, hv⟩ := h
    exact ⟨k, hc.kind_eq.trans hk, a, hc.keeps eager σ i a hσ hi ha, hv⟩
  | foldedUnary hc hd hlit => exact unary_keeps hc hd hlit hσ hi h
  | binary _ hl hr =>
    rw [evaluate, ← hl.kind_eq] at h
    exact combine_mono (fun a => hl.keeps eager σ i a hσ hi) (fun b => hr.keeps eager σ i b hσ hi) h
  | foldedBinary _ hl hr ha hb hk hlit => exact binary_keeps hl hr ha hb hk hlit hσ hi h
  | comma _ _ hr =>
    simp only [evaluate, combine, Option.bind_eq_bind, Option.bind_eq_some_iff] at h
    obtain ⟨-, -, hv⟩ := h
    exact hr.keeps eager σ i v hσ hi hv
  | @readComma _ _ _ _ r _ r' _ _ _ _ hr _ hu =>
    -- A plain operand is no reference.
    obtain ⟨-, k, hk, -⟩ := (hp.child (c := r) (by simp [children])).here
    rw [← hr.kind_eq, kind_of_type hu] at hk
    cases hk
  | select _ ht _ ha hb => exact select_keeps ht ha hb hσ hi h
  | @branch _ _ _ _ _ _ _ _ decided ht _ ha hb hc _ hall =>
    obtain ⟨x, hx, rfl⟩ := hall i hi
    rw [apply_ite (evaluate eager σ i)]
    exact tested_value ht ha hb hσ hi h hc hx
  | foldedSelect ht _ ha hb hc _ hp' hq' hlit =>
    obtain ⟨z, hz, x, ⟨w, hw, hx⟩, rfl⟩ := hlit.value eager σ hi
    have hv := tested_value ht ha hb hσ hi h hc hw
    obtain ⟨-, k, hk, hfloat⟩ := hp.here
    obtain ⟨hka, hkb⟩ := kind_select hf
    obtain ⟨hpk, hfits, hbranch⟩ := chosen_value ha.checked hb.checked (ha.kind_eq.trans (hka.trans hk))
      (hb.kind_eq.trans (hkb.trans hk)) hp' hq' hx eager σ
    rw [hv] at hbranch
    cases hbranch
    rw [hz, hpk, Scalar.toKind_of_fits hfloat hfits]
  | cast _ hc =>
    obtain ⟨k, a, hk, -, -, ha', hv⟩ := cast_value hf hp.here hc hσ hi h
    simp only [evaluate, Option.bind_eq_bind, Option.bind_eq_some_iff]
    exact ⟨k, hk, a, ha', hv⟩
  | @droppedCast _ _ _ c _ _ hc hu hsame =>
    obtain ⟨k, a, hk, hfloat, ha, ha', hv⟩ := cast_value hf hp.here hc hσ hi h
    -- The value is of the kind that it would have been brought to.
    have hkc : c.kind? = some k := by
      rw [← hc.kind_eq, kind_of_type hu, Ty.kind_eq (Ty.core_eq_of_same hsame), hk]
    rw [Kind.cast_of_fits (evaluate_fits (he.child (by simp [children])) (hp.child (by simp [children])) hσ ha hkc) hfloat hv]
    exact ha'
  | foldedCast hc hd hlit =>
    obtain ⟨k, a, hk, hfloat, -, ha', hv⟩ := cast_value hf hp.here hc hσ hi h
    obtain ⟨y, hy, x, hx, rfl⟩ := hlit.value eager σ hi
    rw [((hc.checked.constant_value hd).2 eager σ i x hx).1] at ha'
    cases ha'
    cases hk
    rw [hy, Kind.cast_eq hfloat hv]
  | _ => cases hp.here.1

/-- What the optimizer makes of a tree keeps the values of the tree. -/
theorem optimize_keeps (he : Checked T e) (hp : Everywhere Plain e) : Folds U (optimize e) (Kept T e) := by
  induction e using Expr.induct with
  | h e ih =>
  have child : ∀ c ∈ e.children, Folds U (optimize c) (Kept T c) := fun c hc => ih c hc (he.child hc) (hp.child hc)
  exact Folds.mono (optimize_rewrites he (fun _ _ => Kept.toRefined) child) fun o ho => ho.kept he hp

end Check

section
open Check Spmd.Expr

variable {target : Target} {file : String} {json : Option Json} {p : Program} {e t : Expr} {s s' : Session}

/-- Whether operands that do not decide a result are evaluated or not: in every lane where what checking gave has a
value, the optimized tree has the same value. -/
theorem optimize_preserves (hp : Program.read target file json = .ok p) (he : e ∈ p.expressions)
    (hs : s.target = target) (ht : (typecheck e).run s = (.ok (some t), s')) (hplain : Everywhere Plain t)
    (r : Session) :
    ∃ o r', (optimize t).run r = (.ok (some o), r') ∧
      ∀ (eager : Bool) (σ : Symbol → Nat → Scalar), Proper σ → ∀ i < target.width, ∀ v,
        evaluate eager σ i t = some v → evaluate eager σ i o = some v := by
  have hc := typecheck_checked hp he hs ht
  obtain ⟨result, new, found, hrun, ⟨o, rfl, hkept⟩, -⟩ := optimize_keeps (U := r.target) hc hplain r rfl
  exact ⟨o, _, hrun, fun eager σ hσ i hi v h => hkept.keeps eager σ i v hσ hi h⟩

/-- Seven in the form that the kind of a variable keeps. -/
def sevens (s : Symbol) (_ : Nat) : Scalar :=
  match s.type.kind? with
  | some .bool => .bool true
  | some .float | some .double => .real (Binary.ofInt 7)
  | _ => .int 7

theorem sevens_proper : Proper sevens := by
  intro s k i h
  unfold sevens
  rw [h]
  cases k with
  | bool => rfl
  | float => rfl
  | double => rfl
  | _ => exact ⟨rfl, rfl⟩

theorem sumExpr_plain : Everywhere Plain (sumExpr (.typed none .int32)) := by
  have leaf : ∀ {e : Expr}, Plain e → e.children = [] → Everywhere Plain e := fun hp hc =>
    .node hp fun c h => by rw [hc] at h; cases h
  refine .node ⟨rfl, .int32, rfl, rfl⟩ fun c hc => ?_
  rcases List.mem_pair.mp hc with rfl | rfl
  · exact leaf ⟨rfl, .int32, rfl, rfl⟩ rfl
  · refine .node ⟨rfl, .int32, rfl, rfl⟩ fun d hd => ?_
    rcases List.mem_pair.mp hd with rfl | rfl
    · exact leaf ⟨rfl, .int32, rfl, rfl⟩ rfl
    · exact leaf ⟨rfl, .int32, rfl, rfl⟩ rfl

theorem optimize_preserves_sum : ∃ o r',
    (optimize (sumExpr (.typed none .int32))).run { target := .standard } = (.ok (some o), r') ∧
      evaluate true sevens 0 o = some (.int 13) := by
  obtain ⟨o, r', hrun, hkeeps⟩ := optimize_preserves sumProgram_read
    (List.mem_singleton_self _) rfl sumExpr_checks sumExpr_plain { target := .standard }
  exact ⟨o, r', hrun, hkeeps true sevens sevens_proper 0 (by decide) (.int 13) rfl⟩

end

end Spmd
