import Spmd.Expr.Cost
import Spmd.Proofs.Optimization.Refined
import Spmd.Proofs.Optimization.Steady
import Spmd.Proofs.Optimization.Step

/-!
# What the optimizer makes of a node

`Check.Rewritten` relates a node to what the optimizer makes of it: the node around its optimized children, one of these, or a
literal. Only here the passes of the optimizer over a checked tree are followed (`Check.optimize_rewrites`). What is said of
optimized trees elsewhere is shown by the cases of the relation.
-/

namespace Spmd

namespace Check

open Spmd.Expr

/-! ## Rewriting -/

/-- Expressions that the optimizer does not enter. -/
def isLeaf : Expr → Bool
  | .const .. | .symbol .. | .sizeOf .. | .sizeOfType .. | .function .. | .sync .. | .null .. => true
  | _ => false

/-- An operand of which the storage counts: a symbol stays, also if it has a value. -/
inductive Held (R : Expr → Expr → Prop) : Expr → Expr → Prop
  | symbol {c : Expr} (hs : isSymbol c = true) : Held R c c
  | other {c c' : Expr} (hs : isSymbol c = false) (hname : c.isFunctionName = true → c'.isFunctionName = true) (hc : R c c') :
      Held R c c'

/-- What the optimizer makes of a node, if what it makes of the children is what `R` relates to them. -/
inductive Rewritten (T : Target) (R : Expr → Expr → Prop) : Expr → Expr → Prop
  | leaf {e : Expr} (he : isLeaf e = true) : Rewritten T R e e
  | value {node : Node} {s : Symbol} {v : Constant} {o : Expr} (hv : s.value = some v)
      (hlit : IsLiteral T node (fun i x => v.lane i = .ok x) o) : Rewritten T R (.symbol node s) o
  | unary {node node' : Node} {op : ValueOp} {c c' : Expr} (hn : node'.type = node.type) (hc : R c c') :
      Rewritten T R (.unary node op c) (.unary node' op c')
  | foldedUnary {node : Node} {op : ValueOp} {c c' o : Expr} {d : Constant} (hc : R c c') (hd : c'.constant? = some d)
      (hlit : IsLiteral T node (Stored d.kind fun i x =>
        ∃ a, d.lane i = .ok a ∧ foldUnaryLane (.value op) a = .value x) o) : Rewritten T R (.unary node op c) o
  | step {node node' : Node} {s : Step} {c c' : Expr} {amount : Option Literal} (hn : node'.type = node.type)
      (hc : Held R c c') : Rewritten T R (.step node s c amount) (.step node' s c' amount)
  | binary {node node' : Node} {op : BinaryOp} {l r l' r' : Expr} {reported reported' : Bool} (hn : node'.type = node.type)
      (hl : R l l') (hr : R r r') :
      Rewritten T R (.binary node op l r reported) (.binary node' op l' r' reported')
  | foldedBinary {node : Node} {op : BinaryOp} {l r l' r' o : Expr} {reported : Bool} {a b : Constant} (hop : op ≠ .comma)
      (hl : R l l') (hr : R r r') (ha : l'.constant? = some a) (hb : r'.constant? = some b) (hk : b.kind = a.kind)
      (hlit : IsLiteral T node (Stored (op.resultKind a.kind) fun i x =>
        ∃ v w, a.lane i = .ok v ∧ b.lane i = .ok w ∧ foldLane op a.kind v w = .value x) o) :
      Rewritten T R (.binary node op l r reported) o
  | comma {node : Node} {u : Ty} {l r l' r' : Expr} {reported : Bool} {a : Constant} (hl : R l l')
      (hopt : optimized? l = some l') (hr : R r r') (ha : l'.constant? = some a) (hu : r'.type? = some u)
      (href : u.isReference = false) : Rewritten T R (.binary node .comma l r reported) r'
  | readComma {node : Node} {x : Ty} {i : Origin} {l r l' r' : Expr} {reported : Bool} {a : Constant} (hl : R l l')
      (hopt : optimized? l = some l') (hr : R r r') (ha : l'.constant? = some a) (hu : r'.type? = some (.reference x i)) :
      Rewritten T R (.binary node .comma l r reported) (.dereference (.typed r'.place x) r')
  | assign {node node' : Node} {op : AssignOp} {target value target' value' : Expr} {operandType : Option Ty}
      (hn : node'.type = node.type) (ht : Held R target target') (hv : R value value') :
      Rewritten T R (.assign node op target value operandType) (.assign node' op target' value' operandType)
  | select {node node' : Node} {test a b test' a' b' : Expr} (hn : node'.type = node.type) (ht : R test test')
      (hopt : optimized? test = some test') (ha : R a a') (hb : R b b') (hv : decision test' = none) :
      Rewritten T R (.select node test a b) (.select node' test' a' b')
  | branch {node : Node} {test a b test' a' b' : Expr} {c : Constant} {v : Bool} (ht : R test test')
      (hopt : optimized? test = some test') (ha : R a a') (hb : R b b') (hc : test'.constant? = some c)
      (hv : decision test' = some v) (hall : ∀ i < T.width, ∃ x, c.lane i = .ok x ∧ x.toBool = v) :
      Rewritten T R (.select node test a b) (if v then a' else b')
  | foldedSelect {node : Node} {test a b test' a' b' o : Expr} {c p q : Constant} (ht : R test test')
      (hopt : optimized? test = some test') (ha : R a a') (hb : R b b') (hc : test'.constant? = some c)
      (hv : decision test' = none) (hp : a'.constant? = some p) (hq : b'.constant? = some q)
      (hlit : IsLiteral T node (Stored p.kind fun i x =>
        ∃ y, c.lane i = .ok y ∧ (if y.toBool then p.lane i else q.lane i) = .ok x) o) :
      Rewritten T R (.select node test a b) o
  | list {node node' : Node} {es es' : List Expr} (hn : node'.type = node.type) (hes : List.Forall₂ R es es') :
      Rewritten T R (.list node es) (.list node' es')
  | call {node node' : Node} {callee callee' : Expr} {args args' : List Expr} {launch : Bool} {count count' : Option Expr}
      {signature : Option Signature} (hn : node'.type = node.type) (hc : R callee callee') (has : List.Forall₂ R args args')
      (hcount : Option.Rel R count count') : Rewritten T R (.call node callee args launch count signature)
        (.call node' callee' args' launch count' signature)
  | index {node node' : Node} {base position base' position' : Expr} (hn : node'.type = node.type) (hb : R base base')
      (hp : R position position') :
      Rewritten T R (.index node base position) (.index node' base' position')
  | member {node node' : Node} {base base' : Expr} {name : String} {arrow : Bool} {access : Option Access}
      (hn : node'.type = node.type) (hb : R base base') :
      Rewritten T R (.member node base name arrow access) (.member node' base' name arrow access)
  | cast {node node' : Node} {target : Ty} {c c' : Expr} {reported reported' : Bool} (hn : node'.type = node.type) (hc : R c c') :
      Rewritten T R (.cast node target c reported) (.cast node' target c' reported')
  | droppedCast {node : Node} {target u : Ty} {c c' : Expr} {reported : Bool} (hc : R c c') (hu : c'.type? = some u)
      (hsame : u.same target = true) : Rewritten T R (.cast node target c reported) c'
  | foldedCast {node : Node} {s : ScalarTy} {c c' o : Expr} {reported : Bool} {d : Constant} (hc : R c c')
      (hd : c'.constant? = some d) (hlit : IsLiteral T node (Stored s.element.kind fun i x => d.lane i = .ok x) o) :
      Rewritten T R (.cast node (.scalar s) c reported) o
  | reference {node node' : Node} {c c' : Expr} (hn : node'.type = node.type) (hc : Held R c c') :
      Rewritten T R (.reference node c) (.reference node' c')
  | dereference {node node' : Node} {c c' : Expr} (hn : node'.type = node.type) (hc : R c c') :
      Rewritten T R (.dereference node c) (.dereference node' c')
  | addressOf {node node' : Node} {c c' : Expr} (hn : node'.type = node.type) (hc : Held R c c') :
      Rewritten T R (.addressOf node c) (.addressOf node' c')
  | new {node node' : Node} {allocated : Ty} {count init count' init' : Option Expr} {varying : Bool} (hn : node'.type = node.type)
      (hcount : Option.Rel R count count') (hinit : Option.Rel R init init') :
      Rewritten T R (.new node allocated count init varying) (.new node' allocated count' init' varying)

variable {T U : Target} {R : Expr → Expr → Prop} {node : Node} {t : Ty} {e : Expr} {P : Expr → Prop}

/-! ## Operands -/

theorem rebuild_folds {make : Node → Expr → Expr} {c : Expr} {Q : Expr → Prop} (hn : node.type = some t)
    (h : ∀ node', node'.type = node.type → Q (make node' c)) : Folds U (rebuild node make (some c)) Q := by
  simp only [rebuild, Node.renewed_ok hn, lift_ok, pure_bind]
  exact Folds.some (h _ hn.symm)

theorem rebuildBoth_folds {make : Node → Expr → Expr → Expr} {c d : Expr} {Q : Expr → Prop} (hn : node.type = some t)
    (h : ∀ node', node'.type = node.type → Q (make node' c d)) :
    Folds U (rebuildBoth node make (some c) (some d)) Q := by
  simp only [rebuildBoth, Node.renewed_ok hn, lift_ok, pure_bind]
  exact Folds.some (h _ hn.symm)

theorem name_folds (h : Folds U (optimize e) P) :
    Folds U (optimize e) fun o => P o ∧ (e.isFunctionName = true → o.isFunctionName = true) := by
  cases e with
  | function => exact Folds.and h (Folds.some id)
  | _ => exact Folds.mono h fun o ho => ⟨ho, nofun⟩

theorem held_folds {k : Option Expr → Check (Option Expr)} {Q : Expr → Prop} (h : Folds U (optimize e) (R e))
    (hk : ∀ e', Held R e e' → Folds U (k (some e')) Q) :
    Folds U (if isSymbol e = true then pure (some e) >>= k else optimize e >>= k) Q := by
  split
  · rename_i he
    rw [pure_bind]
    exact hk e (.symbol he)
  · rename_i he
    exact Folds.bind (name_folds h) fun e' hr => hk e' (.other (Bool.eq_false_iff.mpr he) hr.2 hr.1)

theorem optimizeAll_folds {es : List Expr} (h : ∀ e ∈ es, Folds U (optimize e) (R e)) :
    Folds U (optimizeAll es) fun es' => List.Forall₂ R es es' := by
  induction es with
  | nil => exact Folds.some .nil
  | cons e es ih =>
    rw [optimizeAll]
    refine Folds.bind (h e List.mem_cons_self) fun e' he' => ?_
    exact Folds.bind (ih fun c hc => h c (List.mem_cons_of_mem _ hc)) fun es' hes' => Folds.some (.cons he' hes')

theorem optimizeGiven_folds {o : Option Expr} (h : ∀ e, o = some e → Folds U (optimize e) (R e)) :
    Folds U (optimizeGiven o) fun o' => Option.Rel R o o' := by
  cases o with
  | none => exact Folds.some .none
  | some e => exact Folds.bind (h e rfl) fun e' he' => Folds.some (.some he')

theorem hasPointer_ok {l r : Expr} (hl : Checked T l) (hr : Checked T r) : ∃ b, hasPointer l r = .ok b := by
  obtain ⟨a, ha, -⟩ := hl.typed
  obtain ⟨b, hb, -⟩ := hr.typed
  refine ⟨a.isPointer || b.isPointer, ?_⟩
  unfold hasPointer
  rw [bind_ok (type_ok ha)]
  cases a.isPointer with
  | true => rfl
  | false => rw [if_neg Bool.false_ne_true, bind_ok (type_ok hb), Bool.false_or]

/-! ## Nodes -/

section
variable (hR : ∀ c c', R c c' → Refined T c c')
include hR

theorem unary_rewrites {op : ValueOp} {c c' : Expr} (hf : (Expr.unary node op c).Formed T) (hc : R c c') :
    Folds U (optimizeUnary node op c') (Rewritten T R (.unary node op c)) := by
  obtain ⟨t, hn, -⟩ := hf.typed
  have href := hR c c' hc
  refine Folds.mono (optimizeUnary_folds href.checked (hf.unary rfl href) hn) fun o ho => ?_
  rcases ho with rfl | ⟨d, hd, hlit⟩
  · exact .unary hn.symm hc
  · exact .foldedUnary hc hd hlit

theorem binary_rewrites {op : BinaryOp} {l r l' r' : Expr} {reported : Bool}
    (hf : (Expr.binary node op l r reported).Formed T) (hl : R l l') (hopt : optimized? l = some l') (hr : R r r')
    (pointer : Bool) :
    Folds U (optimizeBinary node op l' r' reported (.ok pointer)) (Rewritten T R (.binary node op l r reported)) := by
  obtain ⟨t, hn, -⟩ := hf.typed
  have hl' := hR l l' hl
  have hr' := hR r r' hr
  by_cases hop : op = .comma
  · subst hop
    obtain ⟨u, hu, -⟩ := hr'.checked.typed
    unfold optimizeBinary
    rw [if_pos rfl]
    refine Folds.mono (optimizeComma_folds hu hn) fun o ho => ?_
    rcases ho with rfl | ⟨⟨a, ha⟩, ⟨rfl, href⟩ | ⟨x, i, rfl, rfl⟩⟩
    · exact .binary hn.symm hl hr
    · exact .comma hl hopt hr ha hu href
    · exact .readComma hl hopt hr ha hu
  · refine Folds.mono (optimizeBinary_folds hl'.checked hr'.checked (hf.binary rfl hl' hr') hop hn pointer) fun o ho => ?_
    rcases ho with ⟨_, rfl⟩ | ⟨a, b, ha, hb, hk, hlit⟩
    · exact .binary hn.symm hl hr
    · exact .foldedBinary hop hl hr ha hb hk hlit

theorem select_rewrites {test a b test' a' b' : Expr} (hf : (Expr.select node test a b).Formed T) (ht : R test test')
    (hopt : optimized? test = some test') (ha : R a a') (hb : R b b') :
    ∃ o, optimizeSelect node test' a' b' = .ok (some o) ∧ Rewritten T R (.select node test a b) o := by
  obtain ⟨t, hn, -⟩ := hf.typed
  have ht' := hR test test' ht
  have ha' := hR a a' ha
  have hb' := hR b b' hb
  obtain ⟨o, ho, hcases⟩ := optimizeSelect_ok ht'.checked ha'.checked hb'.checked (hf.select rfl ht' ha' hb') hn
  refine ⟨o, ho, ?_⟩
  rcases hcases with ⟨hv, rfl⟩ | ⟨c, v, hc, hv, rfl, hall⟩ | ⟨c, p, q, hc, hv, hp, hq, hlit⟩
  · exact .select hn.symm ht hopt ha hb hv
  · exact .branch ht hopt ha hb hc hv hall
  · exact .foldedSelect ht hopt ha hb hc hv hp hq hlit

theorem cast_rewrites {target : Ty} {c c' : Expr} {reported : Bool} (hf : (Expr.cast node target c reported).Formed T)
    (hc : R c c') : Folds U (optimizeCast node target c' reported) (Rewritten T R (.cast node target c reported)) := by
  obtain ⟨hn, -, -⟩ := hf.grounded
  have href := hR c c' hc
  obtain ⟨u, hu, -⟩ := href.checked.typed
  refine Folds.mono (optimizeCast_folds href.checked (hf.cast rfl href) hu) fun o ho => ?_
  rcases ho with ⟨_, rfl⟩ | ⟨rfl, hsame⟩ | ⟨d, hd, s, rfl, hlit⟩
  · exact .cast hn.symm hc
  · exact .droppedCast hc hu hsame
  · exact .foldedCast hc hd hlit

end

theorem symbol_rewrites {s : Symbol} (hf : (Expr.symbol node s).Formed T) :
    ∃ o, optimizeSymbol node s = .ok (some o) ∧ Rewritten T R (.symbol node s) o := by
  obtain ⟨o, ho, rfl | ⟨v, hv, hlit⟩⟩ := optimizeSymbol_ok hf
  · exact ⟨_, ho, .leaf rfl⟩
  · exact ⟨o, ho, .value hv hlit⟩

/-! ## Expressions -/

/-- The optimizer makes something of every checked node, if it makes of the children what can stand for them. -/
theorem optimize_rewrites (h : Checked T e) (hR : ∀ c c', R c c' → Refined T c c')
    (child : ∀ c ∈ e.children, Folds U (optimize c) (R c)) : Folds U (optimize e) (Rewritten T R e) := by
  have hf := h.here
  obtain ⟨t, hn, -⟩ := h.typed
  -- each way in which a form can end is a constructor of `Rewritten`
  cases e with
  | unary node op c =>
    rw [optimize]
    exact Folds.bind (child c (by simp [children])) fun c' hc => unary_rewrites hR hf hc
  | step node s c amount =>
    rw [optimize]
    exact held_folds (child c (by simp [children])) fun c' hc => rebuild_folds hn fun _ hn' => .step hn' hc
  | binary node op l r reported =>
    obtain ⟨p, hp⟩ := hasPointer_ok (h.child (c := l) (by simp [children])) (h.child (c := r) (by simp [children]))
    rw [optimize, hp]
    refine Folds.bind (Folds.optimized (child l (by simp [children]))) fun l' hl => ?_
    exact Folds.bind (child r (by simp [children])) fun r' hr => binary_rewrites hR hf hl.1 hl.2 hr p
  | assign node op target value operandType =>
    rw [optimize]
    refine held_folds (child target (by simp [children])) fun t' ht => ?_
    exact Folds.bind (child value (by simp [children])) fun v' hv => rebuildBoth_folds hn fun _ hn' => .assign hn' ht hv
  | select node test a b =>
    rw [optimize]
    refine Folds.bind (Folds.optimized (child test (by simp [children]))) fun test' ht => ?_
    refine Folds.bind (child a (by simp [children])) fun a' ha => ?_
    refine Folds.bind (child b (by simp [children])) fun b' hb => ?_
    obtain ⟨o, ho, hrewritten⟩ := select_rewrites hR hf ht.1 ht.2 ha hb
    dsimp only
    rw [ho, lift_ok]
    exact Folds.some hrewritten
  | list node es =>
    have hn : node.type = some t := hn
    rw [optimize]
    refine Folds.bind (optimizeAll_folds child) fun es' hes => ?_
    simp only [Node.renewed_ok hn, lift_ok, pure_bind]
    exact Folds.some (.list hn.symm hes)
  | call node callee args launch count signature =>
    have hn : node.type = some t := hn
    rw [optimize_call]
    refine Folds.bind (child callee (by simp [children])) fun callee' hc => ?_
    refine Folds.bind (optimizeAll_folds fun a ha => child a (by simp [children, ha])) fun args' has => ?_
    refine Folds.bind (optimizeGiven_folds fun n h => child n (by simp [children, h])) fun count' hcount => ?_
    simp only [Node.renewed_ok hn, lift_ok, pure_bind]
    exact Folds.some (.call hn.symm hc has hcount)
  | index node base position =>
    rw [optimize]
    refine Folds.bind (child base (by simp [children])) fun b' hb => ?_
    exact Folds.bind (child position (by simp [children])) fun p' hp => rebuildBoth_folds hn fun _ hn' => .index hn' hb hp
  | member node base name arrow access =>
    rw [optimize]
    exact Folds.bind (child base (by simp [children])) fun b' hb => rebuild_folds hn fun _ hn' => .member hn' hb
  | cast node target c reported =>
    rw [optimize]
    exact Folds.bind (child c (by simp [children])) fun c' hc => cast_rewrites hR hf hc
  | reference node c =>
    rw [optimize]
    exact held_folds (child c (by simp [children])) fun c' hc => rebuild_folds hn fun _ hn' => .reference hn' hc
  | dereference node c =>
    rw [optimize]
    exact Folds.bind (child c (by simp [children])) fun c' hc => rebuild_folds hn fun _ hn' => .dereference hn' hc
  | addressOf node c =>
    rw [optimize]
    exact held_folds (child c (by simp [children])) fun c' hc => rebuild_folds hn fun _ hn' => .addressOf hn' hc
  | symbol node s =>
    obtain ⟨o, ho, hrewritten⟩ := symbol_rewrites (R := R) hf
    rw [optimize, ho, lift_ok]
    exact Folds.some hrewritten
  | new node allocated count init varying =>
    have hn : node.type = some t := hn
    rw [optimize_new]
    refine Folds.bind (optimizeGiven_folds fun n h => child n (by simp [children, h])) fun count' hcount => ?_
    refine Folds.bind (optimizeGiven_folds fun i h => child i (by simp [children, h])) fun init' hinit => ?_
    simp only [Node.renewed_ok hn, lift_ok, pure_bind]
    exact Folds.some (.new hn.symm hcount hinit)
  | const | sizeOf | sizeOfType | function | sync | null => exact Folds.some (.leaf rfl)

end Check

end Spmd
