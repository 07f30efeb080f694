import Spmd.Proofs.Constant.Casting
import Spmd.Proofs.Optimization.Steady
import Spmd.Proofs.Optimization.Values
import Spmd.Proofs.Typing.Applicable

/-!
# Trees without variables

A checked tree of operators on constants folds to a constant, unless folding stops at one of its nodes: at an integer division
by zero, at a number that becomes no integer of a kind, or at a shift by no number of bits of a kind (`closed_tree_folds`). Each
of the first two is reported, once.
-/

namespace Spmd

namespace Expr

/-! ## Closed trees -/

/-- Operators, casts, selections, constants, and symbols that stand for a constant. -/
def isClosed : Expr → Bool
  | .unary .. | .binary .. | .select .. | .const .. | .cast .. => true
  | .symbol _ s => s.value.isSome
  | _ => false

/-- A node of which the type is a truth type, a type of numbers or an enumeration. -/
def Closed (e : Expr) : Prop := e.isClosed = true ∧ ∃ k, e.kind? = some k

/-- The subtrees of a tree, those below a node in their order before that of the node itself. -/
def subtrees (e : Expr) : List Expr := (e.children.attach.flatMap fun c => subtrees c.1) ++ [e]
termination_by SizeOf.sizeOf e
decreasing_by exact sizeOf_child c.2

theorem subtrees_eq (e : Expr) : e.subtrees = e.children.flatMap subtrees ++ [e] := by
  rw [subtrees]
  simp

end Expr

namespace Check

open Spmd.Expr

/-! ## Where folding stops -/

/-- In every session optimizing gives the constant. -/
def FoldsTo (e : Expr) (c : Constant) : Prop :=
  ∃ n, ∀ s : Session, ((optimize e).run s).1 = .ok (some (.const n c))

/-- Constant operands that do not fold, with the problem to report if there is one. -/
inductive Stops : Expr → Option FoldProblem → Prop
  | division {node op l r reported a b p} (hl : FoldsTo l a) (hr : FoldsTo r b) (hop : op.zeroProblem? = some p)
    (hzero : .int 0 ∈ b.lanes) : Stops (.binary node op l r reported) (some p)
  | shift {node op l r reported a b} {n : Int} (hl : FoldsTo l a) (hr : FoldsTo r b) (hop : op.shifts = true)
    (hn : .int n ∈ b.lanes) (hout : ¬(0 ≤ n ∧ n < b.kind.bits)) : Stops (.binary node op l r reported) none
  | narrowing {node target e reported c k x p} (he : FoldsTo e c) (hc : c.kind.isFloat = true) (hk : target.kind? = some k)
    (hi : k.isInteger = true) (hx : .real x ∈ c.lanes) (hp : x.Escapes k p) : Stops (.cast node target e reported) (some p)

/-- What is reported about a node: its problem if it has one, and nothing else. -/
def Reports (e : Expr) (messages : Log) : Prop :=
  (∃ p, Stops e (some p) ∧ messages = [⟨.error (.folding p), e.place⟩]) ∨ (∀ p, ¬Stops e (some p)) ∧ messages = []

/-! ## One node -/

/-- What the optimizer makes of a node with the optimized children. -/
structure Settles (e : Expr) (children : List Expr) (e' : Expr) (new : Log) : Prop where
  folds : (∀ c ∈ children, c.constant?.isSome = true) → e'.constant?.isSome = true ∨ ∃ p, Stops e p
  stops : ∀ p, Stops e p → e'.constant? = none
  reports : Reports e new

theorem Settles.smooth {e e' : Expr} {children : List Expr} (hs : ∀ p, ¬Stops e p)
    (h : (∀ c ∈ children, c.constant?.isSome = true) → e'.constant?.isSome = true) : Settles e children e' [] :=
  ⟨fun hc => .inl (h hc), fun p hp => absurd hp (hs p), .inr ⟨fun p => hs (some p), rfl⟩⟩

/-- An expression that optimizing gives in every session, of the same type up to `const`. -/
structure Optimized (T : Target) (e e' : Expr) : Prop where
  refined : Refined T e e'
  folds : ∀ c, FoldsTo e c ↔ e'.constant? = some c

variable {T U : Target} {e e' : Expr}

theorem Optimized.constant (h : Optimized T e e') {c : Constant} (hc : e'.constant? = some c) :
    e.kind? = some c.kind ∧ c.Sound T.width := by
  obtain ⟨n, s, rfl, hs, hsuits⟩ := h.refined.checked.constant hc
  refine ⟨?_, hsuits.toSound⟩
  rw [← h.refined.kind_eq, kind_of_type hs, hsuits.kind_eq]
  rfl

theorem foldable_scalar (s : ScalarTy) : (!(some (Ty.scalar s)).any isFoldable) = false := rfl

section
variable {node : Node} {k : Kind}

theorem unary_scalar {op : ValueOp} {c : Constant} (he : Checked T e) (hf : (Expr.unary node op e).Formed T)
    (hc : e.constant? = some c) : ∃ s, node.type = some (.scalar s) ∧ c.Suits T.width s := by
  obtain ⟨n, s, rfl, hs, hsuits⟩ := he.constant hc
  obtain ⟨t, u, hn, hu, hcore⟩ := hf.grounded
  cases hu.symm.trans hs
  obtain ⟨q, rfl, hq⟩ := hsuits.retype hcore
  exact ⟨q, hn, hq⟩

theorem unary_settles {op : ValueOp} {c c' : Expr} (hf : (Expr.unary node op c).Formed T) (hc : Optimized T c c')
    (hs : (Expr.unary node op c).Suited) :
    Meets U (optimizeUnary node op c') fun o new => ∃ e', o = some e' ∧ Settles (.unary node op c) [c'] e' new := by
  have smooth : ∀ p, ¬Stops (.unary node op c) p := nofun
  obtain ⟨t, ht, -⟩ := hf.typed
  unfold optimizeUnary
  cases hd : c'.constant? with
  | none =>
    simp only [Node.renewed_ok (n := node) ht, lift_ok, pure_bind]
    exact Meets.pure ⟨_, rfl, .smooth smooth fun hall => by simp [hd] at hall⟩
  | some d =>
    obtain ⟨s, hn, hsuits⟩ := unary_scalar hc.refined.checked (hf.unary rfl hc.refined) hd
    obtain ⟨f, hfold, hv⟩ := foldUnary_ok hsuits.toSound (.value op)
    obtain ⟨hp, hu⟩ := foldUnary_outcome T.width_pos hsuits.toSound hfold
    simp only [Node.renewed_ok hn, Node.typed, foldable_scalar, Bool.false_eq_true, if_false, hfold, lift_ok, pure_bind]
    cases f with
    | value v =>
      obtain ⟨hcount, hlanes⟩ := hv v rfl
      rw [hsuits.kind_eq] at hlanes
      obtain ⟨e, he, hlit⟩ := folded_ok hn hlanes fun hu => hcount.trans (hsuits.single hu)
      simp only [he, lift_ok, pure_bind]
      exact Meets.pure ⟨e, rfl, .smooth smooth fun _ => hlit.isConstant⟩
    | problem p => exact absurd rfl (hp p)
    | unfoldable =>
      have happlies := hs d.kind (hc.constant hd).1
      rw [hu.mp rfl] at happlies
      cases happlies

section
variable {op : BinaryOp} {l l' r r' : Expr}

theorem comma_settles (hr : Optimized T r r') (hf : (Expr.binary node .comma l r false).Formed T) (hk : ∃ k, r.kind? = some k) :
    Meets U (optimizeComma node l' r' false) fun o new =>
      ∃ e', o = some e' ∧ Settles (.binary node .comma l r false) [l', r'] e' new := by
  have smooth : ∀ p, ¬Stops (.binary node .comma l r false) p := by
    rintro p (⟨-, -, hop, -⟩ | ⟨-, -, hop, -, -⟩)
    · cases hop
    · cases hop
  obtain ⟨t, ht, -⟩ := hf.typed
  obtain ⟨k, hk⟩ := hk
  rw [← hr.refined.kind_eq] at hk
  obtain ⟨s, hs, -⟩ := type_of_kind hk
  unfold optimizeComma
  cases hd : l'.constant? with
  | none =>
    simp only [Node.renewed_ok (n := node) ht, lift_ok, pure_bind]
    exact Meets.pure ⟨_, rfl, .smooth smooth fun hall => by simp [hd] at hall⟩
  | some d =>
    simp only [type_ok hs, lift_ok, pure_bind]
    exact Meets.pure ⟨_, rfl, .smooth smooth fun hall => hall r' (by simp)⟩

theorem operands_alike (hf : (Expr.binary node op l r false).Formed T) (hop : op ≠ .comma) {j : Kind} (hl : l.kind? = some k)
    (hr : r.kind? = some j) : j = k := by
  cases op with
  | arith op => exact (kind_arith hf hl hr).1
  | compare op => exact Option.some.inj (hr.symm.trans (kind_compare hf hl).1)
  | logic op =>
    obtain ⟨v, w, -, hlt, hrt⟩ := hf.grounded
    cases hl.symm.trans hlt.kind_eq
    cases hr.symm.trans hrt.kind_eq
    rfl
  | comma => exact absurd rfl hop

variable (hl : Optimized T l l') (hr : Optimized T r r')
include hl hr

theorem binary_open (hn : l'.constant? = none ∨ r'.constant? = none) (p : Option FoldProblem) :
    ¬Stops (.binary node op l r false) p := by
  have operands : ∀ {a b}, FoldsTo l a → FoldsTo r b → False := by
    intro a b ha hb
    rw [hl.folds] at ha
    rw [hr.folds] at hb
    simp [ha, hb] at hn
  rintro (⟨ha, hb, -, -⟩ | ⟨ha, hb, -, -, -⟩)
  · exact operands ha hb
  · exact operands ha hb

/-- What folding two constants comes to tells where it stops. -/
theorem binary_stops {n : Node} {a b : Constant} (ha : l'.constant? = some a) (hb : r'.constant? = some b) {f : Folded Constant}
    (hf : op.Outcome a.kind (fun s => ∃ i < T.width, b.lane i = .ok s) f) (hs : op.appliesTo a.kind = true)
    (hk : b.kind = a.kind) (hsound : b.Sound T.width) :
    (∀ p, Stops (.binary n op l r false) (some p) ↔ f = .problem p) ∧
      (Stops (.binary n op l r false) none ↔ f = .unfoldable) := by
  have hla := (hl.folds a).mpr ha
  have hrb := (hr.folds b).mpr hb
  have hmem : ∀ s, s ∈ b.lanes ↔ ∃ i < T.width, b.lane i = .ok s := fun s => hsound.mem_lanes T.width_pos
  constructor
  · intro p
    rw [hf.problem p, ← hmem]
    constructor
    · rintro (⟨-, hb', hop, hzero⟩)
      cases hb.symm.trans ((hr.folds _).mp hb')
      exact ⟨hop, hzero⟩
    · exact fun ⟨hop, hzero⟩ => .division hla hrb hop hzero
  · rw [hf.unfoldable, hs]
    constructor
    · rintro (_ | ⟨-, hb', hop, hn, hout⟩)
      cases hb.symm.trans ((hr.folds _).mp hb')
      exact .inr ⟨hop, _, (hmem _).mp hn, hk ▸ hout⟩
    · rintro (happlies | ⟨hop, m, hm, hout⟩)
      · cases happlies
      · exact .shift hla hrb hop ((hmem _).mpr hm) (hk ▸ hout)

theorem binary_settles (hf : (Expr.binary node op l r false).Formed T) (hop : op ≠ .comma)
    (hs : (Expr.binary node op l r false).Suited) :
    Meets U (optimizeBinary node op l' r' false (.ok false)) fun o new =>
      ∃ e', o = some e' ∧ Settles (.binary node op l r false) [l', r'] e' new := by
  obtain ⟨t, ht, -⟩ := hf.typed
  unfold optimizeBinary
  rw [if_neg hop]
  have rebuilt : (l'.constant? = none ∨ r'.constant? = none) → ∀ e, Settles (.binary node op l r false) [l', r'] e [] :=
    fun hnone e => .smooth (binary_open hl hr hnone) fun hall => by
      rw [List.forall_mem_cons, List.forall_mem_singleton] at hall
      rcases hnone with h | h <;> simp [h] at hall
  -- folding is tried for two constants only
  cases ha : l'.constant? with
  | none =>
    simp only [Node.renewed_ok (n := node) ht, lift_ok, pure_bind]
    exact Meets.pure ⟨_, rfl, rebuilt (.inl ha) _⟩
  | some a =>
  cases hb : r'.constant? with
  | none =>
    simp only [Node.renewed_ok (n := node) ht, lift_ok, pure_bind]
    exact Meets.pure ⟨_, rfl, rebuilt (.inr hb) _⟩
  | some b =>
  have hf' : (Expr.binary node op l' r' false).Formed T := hf.binary rfl hl.refined hr.refined
  obtain ⟨s, hn, hk, hsa, hsb, hone⟩ := binary_scalar hl.refined.checked hr.refined.checked hf' hop ha hb
  have hla := (hl.constant ha).1
  have hrb := (hr.constant hb).1
  have halike := operands_alike hf hop hla hrb
  obtain ⟨f, hfold, hv⟩ := foldBinary_ok T.width_pos hsa hsb op a.kind
  obtain ⟨hproblem, hshift⟩ := binary_stops (n := node) hl hr ha hb
    (foldBinary_outcome T.width_pos hsa hsb rfl halike hfold) (hs.2 hop a.kind hla (halike ▸ hrb)) halike hsb
  unfold foldConstants
  simp only [Node.renewed_ok hn, Node.typed, foldable_scalar, Bool.or_self, Bool.false_eq_true, if_false, hfold, lift_ok, pure_bind]
  cases f with
  | value v =>
    have smooth : ∀ p, ¬Stops (.binary node op l r false) p := by
      rintro (_ | p) hp
      · cases hshift.mp hp
      · cases (hproblem p).mp hp
    obtain ⟨-, -, hcount, hlanes⟩ := hv v rfl
    rw [← hk] at hlanes
    obtain ⟨e, he, hlit⟩ := folded_ok hn hlanes fun hu => by rw [hcount, (hone hu).1, (hone hu).2]; rfl
    simp only [he, lift_ok, pure_bind]
    exact Meets.pure ⟨e, rfl, .smooth smooth fun _ => hlit.isConstant⟩
  | problem p =>
    have hp := (hproblem p).mpr rfl
    refine Meets.bind (report_meets node.place (.folding p)) fun _ new hnew => Meets.pure ⟨_, rfl, ?_⟩
    exact ⟨fun _ => .inr ⟨some p, hp⟩, fun _ _ => rfl, .inl ⟨p, hp, by rw [List.append_nil, hnew]; rfl⟩⟩
  | unfoldable =>
    refine Meets.pure ⟨_, rfl, fun _ => .inr ⟨none, hshift.mpr rfl⟩, fun _ _ => rfl, .inr ⟨fun p hp => ?_, rfl⟩⟩
    cases (hproblem p).mp hp

end

theorem cast_stops {n : Node} {q : ScalarTy} {c c' : Expr} (hc : Optimized T c c') {p : Option FoldProblem}
    (hp : Stops (.cast n (.scalar q) c false) p) : ∃ d x r, p = some r ∧ c'.constant? = some d ∧
      d.kind.isFloat = true ∧ q.element.kind.isInteger = true ∧ .real x ∈ d.lanes ∧ x.Escapes q.element.kind r := by
  cases hp with
  | narrowing he hfloat hk hint hx hescapes =>
    cases hk
    exact ⟨_, _, _, rfl, (hc.folds _).mp he, hfloat, hint, hx, hescapes⟩

theorem cast_settles {q : ScalarTy} {c c' : Expr} (hf : (Expr.cast node (.scalar q) c false).Formed T) (hc : Optimized T c c') :
    Meets U (optimizeCast node (.scalar q) c' false) fun o new =>
      ∃ e', o = some e' ∧ Settles (.cast node (.scalar q) c false) [c'] e' new := by
  have hf' : (Expr.cast node (.scalar q) c' false).Formed T := hf.cast rfl hc.refined
  obtain ⟨hn, -, hvarying⟩ := hf'.grounded
  obtain ⟨u, hu, -⟩ := hc.refined.checked.typed
  unfold optimizeCast
  simp only [Node.renewed_ok hn, Node.checked_ok hn, type_ok hu, lift_ok, pure_bind]
  split
  · rename_i hsame
    refine Meets.pure ⟨c', rfl, .smooth (fun p hp => ?_) fun hall => hall c' List.mem_cons_self⟩
    obtain ⟨d, x, r, -, hd, hfloat, hint, -⟩ := cast_stops hc hp
    have hkind := (hc.constant hd).1
    rw [← hc.refined.kind_eq, kind_of_type hu, Ty.kind_eq (Ty.core_eq_of_same hsame)] at hkind
    rw [← Option.some.inj hkind, (Kind.isInteger_spec hint).2] at hfloat
    cases hfloat
  · cases hd : c'.constant? with
    | none =>
      refine Meets.pure ⟨_, rfl, .smooth (fun p hp => ?_) fun hall => by simp [hd] at hall⟩
      obtain ⟨d, x, r, -, hd', -⟩ := cast_stops hc hp
      cases hd.symm.trans hd'
    | some d =>
      obtain ⟨-, s, -, hs, hsuits⟩ := hc.refined.checked.constant hd
      cases hu.symm.trans hs
      dsimp only
      rw [if_pos (show isFoldable (.scalar q) = true from rfl)]
      unfold foldCasted
      simp only [Node.renewed_ok hn, Ty.constantKind, lift_ok, pure_bind]
      obtain ⟨⟨v, hv⟩, hnone⟩ | ⟨p, hp, hfloat, hint, x, hx, hescapes⟩ :=
        foldCast_outcome hsuits.toSound q.element.kind (Ty.scalar q).isVarying
      · obtain ⟨r, hr, hlit⟩ := casted_ok hn hsuits (fun h => hvarying s q hu rfl h) hv
        simp only [hv, hr, lift_ok, pure_bind]
        refine Meets.pure ⟨r, rfl, .smooth (fun p hp => ?_) fun _ => hlit.isConstant⟩
        obtain ⟨d', x, r, -, hd', hfloat, hint, hx, hescapes⟩ := cast_stops hc hp
        cases hd.symm.trans hd'
        exact hnone hfloat hint x r hx hescapes
      · have hstops : Stops (.cast node (.scalar q) c false) (some p) :=
          .narrowing ((hc.folds d).mpr hd) hfloat rfl hint hx hescapes
        simp only [hp]
        refine Meets.bind (report_meets node.place (.folding p)) fun _ new hnew => Meets.pure ⟨_, rfl, ?_⟩
        exact ⟨fun _ => .inr ⟨some p, hstops⟩, fun _ _ => rfl, .inl ⟨p, hstops, by rw [List.append_nil, hnew]; rfl⟩⟩

theorem foldLanes_folds {test a b : Expr} (hf : (Expr.select node test a b).Formed T) (ht : Checked T test) (ha : Checked T a)
    (hb : Checked T b) {c p q : Constant} (hc : test.constant? = some c) (hp : a.constant? = some p) (hq : b.constant? = some q) :
    ∃ e, foldLanes node c a b = .ok (some e) ∧ e.constant?.isSome = true := by
  obtain ⟨t, hn, -⟩ := hf.typed
  obtain ⟨s, hs, hsound, hps, hqs, -⟩ := select_scalar ht ha hb hf hn hc hp hq
  obtain ⟨o, ho, hlit⟩ := foldLanes_ok ht ha hb hf hn hc
  cases o with
  | some e =>
    obtain ⟨_, _, -, -, hliteral⟩ := hlit e rfl
    exact ⟨e, ho, hliteral.isConstant⟩
  | none =>
    unfold foldLanes at ho
    rw [bind_ok (Node.renewed_ok hs), hp, hq] at ho
    simp only [Node.typed, foldable_scalar, Bool.false_eq_true, if_false] at ho
    obtain ⟨f, hfold, ho⟩ := bind_eq_ok ho
    obtain ⟨v, rfl⟩ := foldSelect_outcome T.width_pos hsound (hps.kind_eq.trans hqs.kind_eq.symm) hfold
    obtain ⟨e, -, ho⟩ := bind_eq_ok ho
    cases ho

theorem select_settles {test a b test' a' b' : Expr} (hf : (Expr.select node test a b).Formed T)
    (ht : Optimized T test test') (hopt : optimized? test = some test') (ha : Optimized T a a') (hb : Optimized T b b') :
    ∃ e', optimizeSelect node test' a' b' = .ok (some e') ∧ Rewritten T (Refined T) (.select node test a b) e' ∧
      Settles (.select node test a b) [test', a', b'] e' [] := by
  have smooth : ∀ p, ¬Stops (.select node test a b) p := nofun
  have hf' : (Expr.select node test' a' b').Formed T := hf.select rfl ht.refined ha.refined hb.refined
  obtain ⟨e, he, hrewritten⟩ := select_rewrites (fun _ _ => id) hf ht.refined hopt ha.refined hb.refined
  refine ⟨e, he, hrewritten, .smooth smooth fun hall => ?_⟩
  simp only [List.forall_mem_cons, List.not_mem_nil, false_imp_iff, implies_true, and_true] at hall
  simp only [Option.isSome_iff_exists] at hall
  obtain ⟨⟨c, hc⟩, ⟨p, hp⟩, ⟨q, hq⟩⟩ := hall
  obtain ⟨v, hv, -⟩ := verdict_ok (ht.constant hc).2
  rw [optimizeSelect, hc] at he
  dsimp only at he
  rw [bind_ok hv] at he
  rcases v with _ | _ | _
  · obtain ⟨l, hl, hconstant⟩ := foldLanes_folds hf' ht.refined.checked ha.refined.checked hb.refined.checked hc hp hq
    dsimp only at he
    rw [bind_ok hl] at he
    cases he
    exact hconstant
  · cases he
    rw [hq]
    rfl
  · cases he
    rw [hp]
    rfl

theorem symbol_settles {s : Symbol} (hf : (Expr.symbol node s).Formed T) (hvalue : s.value.isSome = true)
    (hk : (Expr.symbol node s).kind? = some k) :
    ∃ e', optimizeSymbol node s = .ok (some e') ∧ Refined T (.symbol node s) e' ∧ Settles (.symbol node s) [] e' [] := by
  obtain ⟨e, he, rfl | ⟨v, -, hlit⟩⟩ := optimizeSymbol_ok hf
  · obtain ⟨v, hv⟩ := Option.isSome_iff_exists.mp hvalue
    obtain ⟨q, hq, -⟩ := type_of_kind hk
    unfold optimizeSymbol at he
    rw [bind_ok (Node.checked_ok (n := node) hq), hv] at he
    obtain ⟨l, -, he⟩ := bind_eq_ok ((if_pos rfl).symm.trans he)
    cases he
  · exact ⟨e, he, hlit.refined rfl rfl, .smooth nofun fun _ => hlit.isConstant⟩

end

/-! ## Trees -/

/-- What the optimizer makes of trees: constants unless folding stops in them, with the reports of each subtree. -/
structure Settled (es es' : List Expr) (new : Log) : Prop where
  folds : (∀ e ∈ es', e.constant?.isSome = true) ∨ ∃ u ∈ es.flatMap subtrees, ∃ p, Stops u p
  unfolded : ∀ u ∈ es.flatMap subtrees, ∀ p, Stops u p → ∀ c, ¬FoldsTo u c
  reports : ∃ parts, List.Forall₂ Reports (es.flatMap subtrees) parts ∧ new = parts.flatten

theorem Settled.nil : Settled [] [] [] := ⟨.inl nofun, nofun, [], .nil, rfl⟩

section
variable {es es' fs fs' children : List Expr} {new more : Log}

theorem Settled.append (h : Settled es es' new) (h' : Settled fs fs' more) :
    Settled (es ++ fs) (es' ++ fs') (new ++ more) := by
  obtain ⟨parts, hparts, rfl⟩ := h.reports
  obtain ⟨parts', hparts', rfl⟩ := h'.reports
  refine ⟨?_, ?_, parts ++ parts', ?_, by simp⟩
  · rw [List.flatMap_append]
    rcases h.folds with hes | ⟨u, hu, hp⟩
    · rcases h'.folds with hfs | ⟨u, hu, hp⟩
      · exact .inl (List.forall_mem_append.mpr ⟨hes, hfs⟩)
      · exact .inr ⟨u, List.mem_append_right _ hu, hp⟩
    · exact .inr ⟨u, List.mem_append_left _ hu, hp⟩
  · rw [List.flatMap_append]
    exact List.forall_mem_append.mpr ⟨h.unfolded, h'.unfolded⟩
  · rw [List.flatMap_append]
    exact List.rel_append hparts hparts'

theorem Settled.node (hs : Settled e.children children new) (h : Settles e children e' more)
    (hfolds : ∀ c, FoldsTo e c ↔ e'.constant? = some c) : Settled [e] [e'] (new ++ more) := by
  obtain ⟨parts, hparts, rfl⟩ := hs.reports
  have hsubtrees : [e].flatMap subtrees = e.children.flatMap subtrees ++ [e] := by
    rw [List.flatMap_singleton, subtrees_eq]
  refine ⟨?_, ?_, parts ++ [more], ?_, by simp⟩
  · rw [hsubtrees, List.forall_mem_singleton]
    rcases hs.folds with hchildren | ⟨u, hu, hp⟩
    · exact (h.folds hchildren).imp_right fun hp => ⟨e, by simp, hp⟩
    · exact .inr ⟨u, List.mem_append_left _ hu, hp⟩
  · rw [hsubtrees, List.forall_mem_append, List.forall_mem_singleton]
    refine ⟨hs.unfolded, fun p hp c hc => ?_⟩
    cases (h.stops p hp).symm.trans ((hfolds c).mp hc)
  · rw [hsubtrees]
    exact List.rel_append hparts (.cons h.reports .nil)

theorem Settled.quiet (h : Settled es es' new) (hs : ∀ u ∈ es.flatMap subtrees, ∀ p, ¬Stops u p) :
    (∀ e ∈ es', e.constant?.isSome = true) ∧ new = [] := by
  obtain ⟨parts, hparts, rfl⟩ := h.reports
  refine ⟨h.folds.resolve_right fun ⟨u, hu, p, hp⟩ => hs u hu p hp, List.flatten_eq_nil_iff.mpr fun ms hms => ?_⟩
  obtain ⟨u, hu, ⟨p, hp, -⟩ | ⟨-, hnil⟩⟩ := Forall₂.exists_of_mem hparts hms
  · exact absurd hp (hs u hu _)
  · exact hnil

end

/-- What became of the children of a node, and then of the node. -/
def Concluded (T : Target) (e : Expr) (o : Option Expr) (new : Log) : Prop :=
  ∃ e' children below here, o = some e' ∧ new = below ++ here ∧ Refined T e e' ∧ Settled e.children children below ∧
    Settles e children e' here

theorem concluded {m : Check (Option Expr)} {children : List Expr} {below : Log} (hs : Settled e.children children below)
    (hr : Folds U m (Refined T e)) (hm : Meets U m fun o new => ∃ e', o = some e' ∧ Settles e children e' new) :
    Meets U m fun o new => Concluded T e o (below ++ new) := by
  refine Meets.mono (Meets.and hr hm) ?_
  rintro o here ⟨⟨⟨e', ho, href⟩, -⟩, e'', ho', hsettles⟩
  cases ho.symm.trans ho'
  exact ⟨e', children, below, here, ho, rfl, href, hs, hsettles⟩

theorem concluded_leaf (hn : e.children = []) (hr : Refined T e e') (h : Settles e [] e' []) :
    Meets U (pure (some e')) (Concluded T e) :=
  Meets.pure ⟨e', [], [], [], rfl, rfl, hr, hn ▸ .nil, h⟩

theorem Meets.of_steady {α : Type} {m : Check α} {Q : α → Log → Prop} (hm : Steady m) (h : Meets U m Q) :
    Meets U m fun a new => Q a new ∧ ∀ s : Session, (m.run s).1 = .ok a := by
  intro s hs
  obtain ⟨a, new, found, hrun, hq⟩ := h s hs
  obtain ⟨x, hx⟩ := hm.result
  refine ⟨a, new, found, hrun, hq, fun s' => ?_⟩
  rw [hx s', ← hx s, hrun]

theorem foldsTo_iff (h : ∀ s : Session, ((optimize e).run s).1 = .ok (some e')) (c : Constant) :
    FoldsTo e c ↔ e'.constant? = some c := by
  constructor
  · rintro ⟨n, hn⟩
    cases (h default).symm.trans (hn default)
    rfl
  · intro hc
    cases e' with
    | const n d =>
      cases hc
      exact ⟨n, h⟩
    | _ => cases hc

theorem hasPointer_scalar {l r : Expr} {j k : Kind} (hl : l.kind? = some j) (hr : r.kind? = some k) :
    hasPointer l r = .ok false := by
  obtain ⟨s, hs, -⟩ := type_of_kind hl
  obtain ⟨u, hu, -⟩ := type_of_kind hr
  unfold hasPointer
  rw [bind_ok (type_ok hs), bind_ok (type_ok hu)]
  rfl

theorem optimize_closed (hc : Checked T e) (hs : Everywhere Suited e) (hclosed : Everywhere Closed e) :
    Meets U (optimize e) fun o new => ∃ e', o = some e' ∧ Optimized T e e' ∧ Settled [e] [e'] new := by
  induction e using Expr.induct with
  | h e ih =>
  have hf := hc.here
  have child : ∀ c ∈ e.children, Meets U (optimize c) fun o new =>
      ∃ c', o = some c' ∧ Optimized T c c' ∧ Settled [c] [c'] new :=
    fun c hm => ih c hm (hc.child hm) (hs.child hm) (hclosed.child hm)
  have kind : ∀ c ∈ e.children, ∃ k, c.kind? = some k := fun c hm => (hclosed.child hm).here.2
  -- the result of one run is that of all runs, so that it is enough to look at one
  suffices hm : Meets U (optimize e) (Concluded T e) by
    refine Meets.mono (Meets.of_steady (optimize_steady e) hm) ?_
    rintro o new ⟨⟨e', children, below, here, rfl, rfl, href, hchildren, hsettles⟩, halways⟩
    exact ⟨e', rfl, ⟨href, foldsTo_iff halways⟩, hchildren.node hsettles (foldsTo_iff halways)⟩
  have refines : ∀ {m : Check (Option Expr)}, Folds U m (Rewritten T (Refined T) e) → Folds U m (Refined T e) :=
    fun hm => Folds.mono hm fun _ ho => ho.refined hc fun _ _ => id
  obtain ⟨hform, k, hk⟩ := hclosed.here
  cases e with
  | unary node op c =>
    rw [optimize]
    refine Meets.bind (child c (by simp [children])) fun o new hc' => ?_
    obtain ⟨c', rfl, hopt, hset⟩ := hc'
    exact concluded hset (refines (unary_rewrites (fun _ _ => id) hf hopt.refined)) (unary_settles hf hopt hs.here)
  | binary node op l r reported =>
    obtain ⟨i, hi⟩ := kind l (by simp [children])
    obtain ⟨j, hj⟩ := kind r (by simp [children])
    obtain rfl : reported = false := hs.here.1
    rw [optimize, hasPointer_scalar hi hj]
    refine Meets.bind (Meets.optimized (child l (by simp [children]))) fun o new hl' => ?_
    obtain ⟨⟨l', rfl, hl, hsl⟩, hopt⟩ := hl'
    refine Meets.bind (child r (by simp [children])) fun o' new' hr' => ?_
    obtain ⟨r', rfl, hr, hsr⟩ := hr'
    simp only [← List.append_assoc]
    refine concluded (hsl.append hsr) (refines (binary_rewrites (fun _ _ => id) hf hl.refined (hopt l' rfl) hr.refined false)) ?_
    by_cases hop : op = .comma
    · subst hop
      exact comma_settles hr hf ⟨j, hj⟩
    · exact binary_settles hl hr hf hop hs.here
  | select node test a b =>
    rw [optimize]
    refine Meets.bind (Meets.optimized (child test (by simp [children]))) fun o new ht' => ?_
    obtain ⟨⟨test', rfl, ht, hst⟩, hopt⟩ := ht'
    refine Meets.bind (child a (by simp [children])) fun o' new' ha' => ?_
    obtain ⟨a', rfl, ha, hsa⟩ := ha'
    refine Meets.bind (child b (by simp [children])) fun o'' new'' hb' => ?_
    obtain ⟨b', rfl, hb, hsb⟩ := hb'
    simp only [← List.append_assoc]
    obtain ⟨e', he, hrewritten, hsettles⟩ := select_settles hf ht (hopt test' rfl) ha hb
    rw [he]
    exact concluded ((hst.append hsa).append hsb) (refines (Folds.some hrewritten)) (Meets.pure ⟨e', rfl, hsettles⟩)
  | cast node target c reported =>
    obtain rfl : reported = false := hs.here
    obtain ⟨q, rfl⟩ : ∃ q, target = .scalar q := by
      rw [kind_cast hf] at hk
      cases target with
      | scalar q => exact ⟨q, rfl⟩
      | _ => cases hk
    rw [optimize]
    refine Meets.bind (child c (by simp [children])) fun o new hc' => ?_
    obtain ⟨c', rfl, hopt, hset⟩ := hc'
    exact concluded hset (refines (cast_rewrites (fun _ _ => id) hf hopt.refined)) (cast_settles hf hopt)
  | const node c =>
    rw [optimize]
    exact concluded_leaf rfl (Refined.refl hc) (.smooth (fun p hp => by cases hp) fun _ => rfl)
  | symbol node s =>
    obtain ⟨e', he, href, hsettles⟩ := symbol_settles hf hform hk
    rw [optimize, he]
    exact concluded_leaf rfl href hsettles
  | _ => cases hform

end Check

/-! ## Programs -/

section
open Check Spmd.Expr

variable {target : Target} {file : String} {json : Option Json} {p : Program} {e t : Expr} {s s' : Session}

theorem typecheck_suited (hp : Program.read target file json = .ok p) (he : e ∈ p.expressions)
    (hs : s.target = target) (ht : (typecheck e).run s = (.ok (some t), s')) : Everywhere Suited t := by
  have hsuited := check_suited (Program.loaded hp he)
  exact ((needed_yields (check_delivers (Program.prepared hp he)) hsuited s hs _ _ ht).1 t rfl).1

/-- A checked tree without variables folds to a constant, unless folding stops at a subtree, which is then left unfolded. Each
subtree at which folding stops with a problem is reported by an error of its own, and nothing else is reported. -/
theorem closed_tree_folds (hp : Program.read target file json = .ok p) (he : e ∈ p.expressions) (hs : s.target = target)
    (ht : (typecheck e).run s = (.ok (some t), s')) (hclosed : Everywhere Closed t) (r : Session) :
    ∃ o r', (optimize t).run r = (.ok (some o), r') ∧
      (o.constant?.isSome = true ∨ ∃ u ∈ t.subtrees, (∀ c, ¬FoldsTo u c) ∧ ∃ reason, Stops u reason) ∧
      (∃ parts, List.Forall₂ Reports t.subtrees parts ∧ r'.log = r.log ++ parts.flatten) ∧
      ((∀ u ∈ t.subtrees, ∀ reason, ¬Stops u reason) → o.constant?.isSome = true ∧ r'.log = r.log) := by
  have hc := typecheck_checked hp he hs ht
  have hsuited := typecheck_suited hp he hs ht
  obtain ⟨result, new, found, hrun, o, rfl, -, hsettled⟩ := optimize_closed (U := r.target) hc hsuited hclosed r rfl
  have hone : [t].flatMap subtrees = t.subtrees := List.flatMap_singleton ..
  refine ⟨o, _, hrun, ?_, ?_, fun hnone => ?_⟩
  · rcases hsettled.folds with hconstant | ⟨u, hu, reason, hstops⟩
    · exact .inl (hconstant o List.mem_cons_self)
    · exact .inr ⟨u, hone ▸ hu, hsettled.unfolded u hu reason hstops, reason, hstops⟩
  · obtain ⟨parts, hparts, hnew⟩ := hsettled.reports
    exact ⟨parts, hone ▸ hparts, congrArg (r.log ++ ·) hnew⟩
  · obtain ⟨hconstant, hnew⟩ := hsettled.quiet (hone.symm ▸ hnone)
    refine ⟨hconstant o List.mem_cons_self, ?_⟩
    show r.log ++ new = r.log
    rw [hnew, List.append_nil]

/-- `6 * 7`. -/
def productJson : Json :=
  let literal (text : String) : Json := .object [("const", .string text), ("type", .string "int32")]
  .object [("expressions", .array [.object [("binary", .string "*"), ("left", literal "6"), ("right", literal "7")]])]

/-- `6 * 7` with the operator in a state. -/
def productExpr (operator : Node) : Expr :=
  let literal (n : Int) : Expr := .const (.typed none Ty.int32.asConst) ⟨.int32, 8, [.int n]⟩
  .binary operator (.arith .mul) (literal 6) (literal 7) false

theorem productExpr_closed : Everywhere Closed (productExpr (.typed none .int32)) :=
  .two ⟨rfl, .int32, rfl⟩ rfl (.leaf ⟨rfl, .int32, rfl⟩ rfl) (.leaf ⟨rfl, .int32, rfl⟩ rfl)

theorem productExpr_smooth {u : Expr} (hu : u ∈ (productExpr (.typed none .int32)).subtrees) (reason : Option FoldProblem) :
    ¬Stops u reason := by
  simp only [productExpr, subtrees_eq, children, List.flatMap_cons, List.flatMap_nil, List.nil_append, List.append_nil,
    List.cons_append, List.mem_cons, List.not_mem_nil, or_false] at hu
  intro hstops
  rcases hu with rfl | rfl | rfl
  · cases hstops
  · cases hstops
  · rcases hstops with ⟨-, -, hop, -⟩ | ⟨-, -, hop, -, -⟩
    · cases hop
    · cases hop

theorem closed_tree_folds_product : ∃ o r', (optimize (productExpr (.typed none .int32))).run { target := .standard } =
    (.ok (some o), r') ∧ o.constant?.isSome = true ∧ r'.log = [] := by
  have hread : Program.read .standard "program" (some productJson) =
    .ok ⟨{ target := .standard, file := "program" }, [productExpr {}]⟩ := rfl
  have hchecks : (typecheck (productExpr {})).run { target := .standard } =
    (.ok (some (productExpr (.typed none .int32))), { target := .standard }) := rfl
  obtain ⟨o, r', hrun, -, -, hsmooth⟩ := closed_tree_folds hread (List.mem_singleton_self _) rfl hchecks productExpr_closed
    { target := .standard }
  exact ⟨o, r', hrun, hsmooth fun u hu => productExpr_smooth hu⟩

end

end Spmd
