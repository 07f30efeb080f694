import Spmd.Proofs.Code.Generation
import Spmd.Proofs.Code.Tally

/-!
# What optimizing costs

No step of the optimizer makes a node dearer than it was, but one: a comma whose left operand became a constant is replaced by its
right operand, and where that is a reference it is read. The comma itself does not read it. So what the optimizer makes of an
expression costs at most what the expression costs and what reading these references costs (`optimize_surcharge`).
-/

namespace Spmd

theorem Ty.isFloat_asNonConst (t : Ty) : t.asNonConst.isFloat = t.isFloat := by cases t <;> rfl

theorem Ty.isFloat_eq {a b : Ty} (h : a.core = b.core) : a.isFloat = b.isFloat := by
  rw [← isFloat_asNonConst a, ← isFloat_bare, ← core, h, core, isFloat_bare, isFloat_asNonConst]

namespace Expr

open Check

variable {T U : Target} {e o c d : Expr} {es os : List Expr} {node node' : Node} {k n : Nat}

/-! ## Surcharges -/

/-- Whether the optimizer makes a constant of an expression. -/
def foldsAway (e : Expr) : Bool := (optimized? e).any fun o => o.constant?.isSome

/-- What reading the right operand of a comma costs, if it is a reference that is left alone once the left one is a constant. -/
def unreadCost : Expr → Nat
  | binary _ .comma l r _ => if l.foldsAway && r.isReference then Cost.read r.isVarying else 0
  | _ => 0

def unreadCosts : List Expr → Nat
  | [] => 0
  | e :: es => e.unreadCost + unreadCosts es

theorem unreadCosts_append (es es' : List Expr) : unreadCosts (es ++ es') = unreadCosts es + unreadCosts es' := by
  induction es with
  | nil => rw [List.nil_append, unreadCosts, Nat.zero_add]
  | cons e es ih => rw [List.cons_append, unreadCosts, unreadCosts, ih, Nat.add_assoc]

/-- What reading all the references costs that are left alone among the evaluated nodes of a tree. -/
def surcharge (e : Expr) : Nat := unreadCosts e.evaluated

def isSizeOf : Expr → Bool
  | sizeOf .. => true
  | _ => false

theorem evaluatedEach_eq (es : List Expr) : evaluatedEach es = es.flatMap evaluated := by
  induction es with
  | nil => rfl
  | cons e es ih => rw [evaluatedEach, ih, List.flatMap_cons]

theorem evaluated_eq (h : e.isSizeOf = false) : e.evaluated = e :: e.children.flatMap evaluated := by
  cases e with
  | sizeOf => cases h
  | list node es => rw [evaluated, evaluatedEach_eq, children]
  | call node c args launch count signature =>
    rw [evaluated, evaluatedEach_eq]
    cases count <;> simp [children, evaluatedOf]
  | new node t count init varying =>
    rw [evaluated]
    cases count <;> cases init <;> simp [children, evaluatedOf]
  | _ => simp [evaluated, children]

theorem surcharge_eq (h : e.isSizeOf = false) : e.surcharge = e.unreadCost + unreadCosts (e.children.flatMap evaluated) := by
  rw [surcharge, evaluated_eq h, unreadCosts]

theorem surcharge_child (h : e.isSizeOf = false) (hc : c ∈ e.children) : c.surcharge ≤ e.surcharge := by
  obtain ⟨before, after, hsplit⟩ := List.append_of_mem hc
  rw [surcharge_eq h, hsplit, List.flatMap_append, List.flatMap_cons, unreadCosts_append, unreadCosts_append, surcharge]
  omega

theorem cost_child (h : e.cost = .ok k) (hc : c ∈ e.children) : ∃ n ≤ k, c.cost = .ok n := by
  rw [cost_eq, sumCosts_cons] at h
  obtain ⟨own, rest, -, hrest, rfl⟩ := h
  obtain ⟨before, after, hsplit⟩ := List.append_of_mem hc
  rw [hsplit, List.map_append, sumCosts_append, List.map_cons] at hrest
  obtain ⟨a, b, -, hb, rfl⟩ := hrest
  obtain ⟨n, m, hn, -, rfl⟩ := sumCosts_cons.mp hb
  exact ⟨n, by omega, hn⟩

/-! ## Trees that are no dearer -/

/-- A checked tree that can stand for another one and costs at most what that costs, with its surcharge. It is a name of
functions where the other one is. -/
structure Cheaper (T : Target) (e o : Expr) : Prop extends Refined T e o where
  cost : ∀ k, e.cost = .ok k → ∃ n ≤ k + e.surcharge, o.cost = .ok n
  name : e.isFunctionName = true → o.isFunctionName = true

theorem Cheaper.refl (h : Checked T e) : Cheaper T e e :=
  ⟨Refined.refl h, fun k hk => ⟨k, Nat.le_add_right _ _, hk⟩, id⟩

theorem cost_of_constant (h : e.constant?.isSome = true) : e.cost = .ok 0 := by
  cases e with
  | const => rfl
  | _ => cases h

theorem sumCosts_cheaper (h : List.Forall₂ (Cheaper T) es os) (hk : sumCosts (es.map Expr.cost) = .ok k) :
    ∃ n ≤ k + unreadCosts (es.flatMap evaluated), sumCosts (os.map Expr.cost) = .ok n := by
  induction h generalizing k with
  | nil => exact ⟨k, Nat.le_add_right _ _, hk⟩
  | cons hc _ ih =>
    rw [List.map_cons, sumCosts_cons] at hk
    obtain ⟨a, b, ha, hb, rfl⟩ := hk
    obtain ⟨a', hle, ha'⟩ := hc.cost a ha
    obtain ⟨b', hle', hb'⟩ := ih hb
    refine ⟨a' + b', ?_, sumCosts_cons.mpr ⟨a', b', ha', hb', rfl⟩⟩
    rw [List.flatMap_cons, unreadCosts_append]
    rw [surcharge] at hle
    omega

section
variable (href : Refined T e o) (hname : e.isFunctionName = false) (hsize : e.isSizeOf = false)
include href hname

theorem Cheaper.of_constant (ho : o.constant?.isSome = true) : Cheaper T e o :=
  ⟨href, fun _ _ => ⟨0, Nat.zero_le _, cost_of_constant ho⟩, fun h => by rw [hname] at h; cases h⟩

include hsize

theorem Cheaper.of_child (hc : c ∈ e.children) (h : Cheaper T c o) : Cheaper T e o := by
  refine ⟨href, fun k hk => ?_, fun h => by rw [hname] at h; cases h⟩
  obtain ⟨n, hn, hcost⟩ := cost_child hk hc
  obtain ⟨m, hm, ho⟩ := h.cost n hcost
  have hs := surcharge_child hsize hc
  exact ⟨m, by omega, ho⟩

theorem Cheaper.of_children (hown : ∀ k, e.ownCost = .ok k → ∃ n ≤ k, o.ownCost = .ok n)
    (h : List.Forall₂ (Cheaper T) e.children o.children) : Cheaper T e o := by
  refine ⟨href, fun k hk => ?_, fun h => by rw [hname] at h; cases h⟩
  rw [cost_eq, sumCosts_cons] at hk
  obtain ⟨a, b, ha, hb, rfl⟩ := hk
  obtain ⟨a', hle, ha'⟩ := hown a ha
  obtain ⟨b', hle', hb'⟩ := sumCosts_cheaper h hb
  refine ⟨a' + b', ?_, by rw [cost_eq, sumCosts_cons]; exact ⟨a', b', ha', hb', rfl⟩⟩
  rw [surcharge_eq hsize]
  omega

end

/-! ## The cost of a node itself -/

theorem Refined.types (h : Refined T e o) : ∃ t u, e.type = .ok t ∧ o.type = .ok u ∧ u.core = t.core := by
  obtain ⟨t, ht⟩ := h.typed
  obtain ⟨u, hu, hcore⟩ := h.type ht
  exact ⟨t, u, type_ok ht, type_ok hu, hcore⟩

theorem own_same (h : o.ownCost = e.ownCost) : ∀ k, e.ownCost = .ok k → ∃ n ≤ k, o.ownCost = .ok n :=
  fun k hk => ⟨k, Nat.le_refl k, h.trans hk⟩

section
variable {b b' i i' : Expr} (hb : Refined T b b')
include hb

theorem ownCost_index (hi : Refined T i i') : (index node' b' i').ownCost = (index node b i).ownCost := by
  obtain ⟨t, u, ht, hu, hcore⟩ := hb.types
  obtain ⟨v, w, hv, hw, hcore'⟩ := hi.types
  have hstored := Ty.stored_core_eq hcore
  rw [ownCost, ownCost, bind_ok ht, bind_ok hu, bind_ok hv, bind_ok hw, Ty.isVarying_eq hcore', Ty.isPointer_eq hstored,
    Ty.isVarying_eq hstored]

theorem ownCost_member (name : String) (arrow : Bool) (access : Option Access) :
    (member node' b' name arrow access).ownCost = (member node b name arrow access).ownCost := by
  obtain ⟨t, u, ht, hu, hcore⟩ := hb.types
  rw [ownCost, ownCost, bind_ok ht, bind_ok hu, Ty.isVarying_eq (Ty.stored_core_eq hcore)]

theorem ownCost_dereference : (dereference node' b').ownCost = (dereference node b).ownCost := by
  obtain ⟨t, u, ht, hu, hcore⟩ := hb.types
  rw [ownCost, ownCost, bind_ok ht, bind_ok hu, Ty.isVarying_eq hcore]

theorem ownCost_cast (target : Ty) (reported reported' : Bool) (hn : node'.type = node.type) :
    (cast node' target b' reported').ownCost = (cast node target b reported).ownCost := by
  obtain ⟨t, u, ht, hu, hcore⟩ := hb.types
  have htype : (cast node' target b' reported').type = (cast node target b reported).type := by
    change node'.checked = node.checked
    rw [Node.checked, Node.checked, hn]
  rw [ownCost, ownCost, bind_ok ht, bind_ok hu, Ty.isFloat_eq hcore, htype]

/-- A call through a pointer costs less once the pointer turns out to be the name of a function. -/
theorem ownCost_call (hname : b.isFunctionName = true → b'.isFunctionName = true) (args args' : List Expr) (launch : Bool)
    (count count' : Option Expr) (signature : Option Signature) (k : Nat)
    (hk : (call node b args launch count signature).ownCost = .ok k) :
    ∃ n ≤ k, (call node' b' args' launch count' signature).ownCost = .ok n := by
  obtain ⟨t, u, ht, hu, hcore⟩ := hb.types
  have hvarying := Ty.isVarying_eq (Ty.stored_core_eq hcore)
  simp only [ownCost, isVaryingCallee, ht, hu] at hk ⊢
  cases launch with
  | true => exact ⟨k, Nat.le_refl k, hk⟩
  | false =>
    cases hf : b.isFunctionName with
    | true =>
      rw [hf] at hk
      rw [hname hf]
      exact ⟨k, Nat.le_refl k, hk⟩
    | false =>
      rw [hf] at hk
      obtain rfl := Except.ok.inj hk
      cases b'.isFunctionName with
      | true => exact ⟨_, by split <;> decide, rfl⟩
      | false => exact ⟨_, by simp only [hvarying, Nat.le_refl], rfl⟩

end

end Expr

namespace Check

open Spmd.Expr

variable {T U : Target} {node : Node} {e : Expr} {k : Nat}

/-! ## Expressions -/

theorem toList_cheaper {a a' : Option Expr} (h : Option.Rel (Cheaper T) a a') : List.Forall₂ (Cheaper T) a.toList a'.toList := by
  cases h with
  | some h => exact .cons h .nil
  | none => exact .nil

theorem Held.cheaper {o : Expr} (h : Checked T e) (ho : Held (Cheaper T) e o) : Cheaper T e o := by
  cases ho with
  | symbol => exact .refl h
  | other _ _ ho => exact ho

/-- Reading the reference that is left of a comma is what the comma costs more. -/
theorem readComma_cheaper {l l' r r' : Expr} {reported : Bool} {a : Constant} {x : Ty} {i : Origin}
    (hfolded : optimized? l = some l') (hr : Cheaper T r r') (ha : l'.constant? = some a)
    (hu : r'.type? = some (.reference x i))
    (href : Refined T (.binary node .comma l r reported) (.dereference (.typed r'.place x) r')) :
    Cheaper T (.binary node .comma l r reported) (.dereference (.typed r'.place x) r') := by
  refine ⟨href, fun k hk => ?_, nofun⟩
  obtain ⟨n, hn, hcost⟩ := cost_child (c := r) hk (by simp [children])
  obtain ⟨m, hm, hcost'⟩ := hr.cost n hcost
  have hread : (Expr.dereference (.typed r'.place x) r').ownCost = .ok (Cost.read r.isVarying) := by
    rw [ownCost, bind_ok (type_ok hu), ← hr.isVarying_eq, isVarying_eq hu]
  have hunread : (Expr.binary node .comma l r reported).unreadCost = Cost.read r.isVarying := by
    have hreference : r.isReference = true := by
      rw [← hr.isReference_eq, isReference_eq hu]
      rfl
    rw [unreadCost, foldsAway, hfolded, Option.any_some, ha, hreference]
    rfl
  refine ⟨Cost.read r.isVarying + m, ?_, ?_⟩
  · have hsum : (Expr.binary node .comma l r reported).surcharge =
        Cost.read r.isVarying + (l.surcharge + r.surcharge) := by
      rw [surcharge, evaluated, unreadCosts, hunread, unreadCosts_append]
      rfl
    omega
  · rw [cost_eq, sumCosts_cons]
    exact ⟨_, m, hread, (sumCosts_singleton _).trans hcost', rfl⟩

/-- Only a comma becomes dearer: any other node costs what it did, or gives way to one of its children or to a constant. -/
theorem Rewritten.cheaper {o : Expr} (h : Checked T e) (ho : Rewritten T (Cheaper T) e o) : Cheaper T e o := by
  have href : Refined T e o := ho.refined h fun _ _ => Cheaper.toRefined
  have held : ∀ {c c'}, c ∈ e.children → Held (Cheaper T) c c' → Cheaper T c c' := fun hm hc => hc.cheaper (h.child hm)
  cases ho with
  | leaf => exact .refl h
  | value _ hlit => exact .of_constant href rfl hlit.isConstant
  | unary _ hc => exact .of_children href rfl rfl (own_same rfl) (.cons hc .nil)
  | foldedUnary _ _ hlit => exact .of_constant href rfl hlit.isConstant
  | step _ hc => exact .of_children href rfl rfl (own_same rfl) (.cons (held (by simp [children]) hc) .nil)
  | binary _ hl hr => exact .of_children href rfl rfl (own_same rfl) (.cons hl (.cons hr .nil))
  | foldedBinary _ _ _ _ _ _ hlit => exact .of_constant href rfl hlit.isConstant
  | comma _ _ hr => exact .of_child href rfl rfl (by simp [children]) hr
  | readComma _ hopt hr ha hu => exact readComma_cheaper hopt hr ha hu href
  | assign _ ht hv => exact .of_children href rfl rfl (own_same rfl) (.cons (held (by simp [children]) ht) (.cons hv .nil))
  | select _ ht _ ha hb => exact .of_children href rfl rfl (own_same rfl) (.cons ht (.cons ha (.cons hb .nil)))
  | @branch _ _ _ _ _ _ _ _ v _ _ ha hb =>
    cases v with
    | true => exact .of_child href rfl rfl (by simp [children]) ha
    | false => exact .of_child href rfl rfl (by simp [children]) hb
  | foldedSelect _ _ _ _ _ _ _ _ hlit => exact .of_constant href rfl hlit.isConstant
  | list _ hes => exact .of_children href rfl rfl (own_same rfl) hes
  | call _ hc has hcount =>
    refine .of_children href rfl rfl (ownCost_call hc.toRefined hc.name _ _ _ _ _ _) ?_
    exact .cons hc (List.rel_append has (toList_cheaper hcount))
  | index _ hb hp => exact .of_children href rfl rfl (own_same (ownCost_index hb.toRefined hp.toRefined)) (.cons hb (.cons hp .nil))
  | member _ hb => exact .of_children href rfl rfl (own_same (ownCost_member hb.toRefined _ _ _)) (.cons hb .nil)
  | cast hn hc => exact .of_children href rfl rfl (own_same (ownCost_cast hc.toRefined _ _ _ hn)) (.cons hc .nil)
  | droppedCast hc => exact .of_child href rfl rfl (by simp [children]) hc
  | foldedCast _ _ hlit => exact .of_constant href rfl hlit.isConstant
  | reference _ hc => exact .of_children href rfl rfl (own_same rfl) (.cons (held (by simp [children]) hc) .nil)
  | dereference _ hc => exact .of_children href rfl rfl (own_same (ownCost_dereference hc.toRefined)) (.cons hc .nil)
  | addressOf _ hc => exact .of_children href rfl rfl (own_same rfl) (.cons (held (by simp [children]) hc) .nil)
  | new _ hcount hinit =>
    exact .of_children href rfl rfl (own_same rfl) (List.rel_append (toList_cheaper hcount) (toList_cheaper hinit))

/-- What the optimizer makes of a checked tree costs no more than the tree and its surcharge. -/
theorem optimize_cheaper {e : Expr} (h : Checked T e) : Folds U (optimize e) (Cheaper T e) := by
  induction e using Expr.induct with
  | h e ih =>
  have child : ∀ c ∈ e.children, Folds U (optimize c) (Cheaper T c) := fun c hc => ih c hc (h.child hc)
  exact Folds.mono (optimize_rewrites h (fun _ _ => Cheaper.toRefined) child) fun o ho => ho.cheaper h

end Check

open Check Spmd.Expr

/-- What the optimizer makes of an expression that was accepted costs at most what the expression costs, and what reading the
references costs that commas leave alone. -/
theorem optimize_surcharge {target : Target} {file : String} {json : Option Json} {p : Program} {e t : Expr} {s s' : Session}
    (hp : Program.read target file json = .ok p) (he : e ∈ p.expressions) (hs : s.target = target)
    (ht : (typecheck e).run s = (.ok (some t), s')) (r : Session) :
    ∃ o r' k n, (optimize t).run r = (.ok (some o), r') ∧ t.cost = .ok k ∧ o.cost = .ok n ∧ n ≤ k + t.surcharge := by
  have hc := typecheck_checked hp he hs ht
  obtain ⟨k, hk⟩ := hc.cost_ok
  obtain ⟨_, new, found, hrun, ⟨o, rfl, ho⟩, -⟩ := optimize_cheaper (U := r.target) hc r rfl
  obtain ⟨n, hn, hcost⟩ := ho.cost k hk
  exact ⟨o, _, k, n, hrun, hk, hcost, hn⟩

/-! ## A reference that is read late -/

/-- `1, r` for a reference `r`. -/
def lateJson : Json :=
  programJson [("r", .object [("reference", .string "int32")])] (.object [("binary", .string ","),
    ("left", .object [("const", .string "1"), ("type", .string "int32")]), ("right", .object [("symbol", .string "r")])])

def lateReference : Expr := localNamed "r" (.reference .int32)

/-- `1, r` with the comma in a state. -/
def lateExpr (comma : Node) : Expr :=
  .binary comma .comma (.const (.typed none Ty.int32.asConst) ⟨.int32, 8, [.int 1]⟩) lateReference false

theorem lateProgram_read : ∃ scope, Program.read .standard "program" (some lateJson) = .ok ⟨scope, [lateExpr {}]⟩ := ⟨_, rfl⟩

theorem lateExpr_checks : (typecheck (lateExpr {})).run { target := .standard } =
    (.ok (some (lateExpr (.typed none .int32))), { target := .standard }) := rfl

theorem optimize_surcharge_late : ∃ o r' k n, (optimize (lateExpr (.typed none .int32))).run { target := .standard } =
    (.ok (some o), r') ∧ (lateExpr (.typed none .int32)).cost = .ok k ∧ o.cost = .ok n ∧
      n ≤ k + (lateExpr (.typed none .int32)).surcharge := by
  obtain ⟨scope, hread⟩ := lateProgram_read
  exact optimize_surcharge hread (List.mem_singleton_self _) rfl lateExpr_checks { target := .standard }

/-- The comma costs nothing, and what is left of it reads the reference. -/
theorem lateExpr_dearer : ∃ o r', (typecheck (lateExpr {})).run { target := .standard } =
      (.ok (some (lateExpr (.typed none .int32))), { target := .standard }) ∧
    (optimize (lateExpr (.typed none .int32))).run { target := .standard } = (.ok (some o), r') ∧
      (lateExpr (.typed none .int32)).cost = .ok 0 ∧ o.cost = .ok 2 ∧ (lateExpr (.typed none .int32)).surcharge = 2 :=
  ⟨_, _, lateExpr_checks, rfl, rfl, rfl, rfl⟩

end Spmd
