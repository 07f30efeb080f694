import Spmd.Proofs.Code.Wired
import Spmd.Proofs.Optimization.Effects

/-!
# Everything is evaluated once

The code for an expression stores, calls, launches, synchronizes and allocates as often as the evaluated nodes of the
expression ask for, and every operand in it is the result of an earlier instruction (`typecheck_evaluates_once`).
-/

namespace Spmd

/-! ## Acts -/

/-- What an effect is, apart from its types. -/
inductive Act where
  | store | call | launch | sync | allocate
  deriving DecidableEq

def Effect.act : Effect → Act
  | store _ => .store
  | call .. => .call
  | launch .. => .launch
  | sync => .sync
  | allocate .. => .allocate

/-- What an instruction does beside computing a value. -/
def Instruction.act? : Instruction → Option Act
  | store .. => some .store
  | call .. => some .call
  | launch .. => some .launch
  | sync => some .sync
  | allocate .. => some .allocate
  | _ => none

theorem Instruction.act?_eq (told : Bool) (i : Instruction) : i.act? = (i.effect? told).map Effect.act := by
  cases i <;> rfl

theorem Code.acts_eq (told : Bool) (c : Code) : c.filterMap Instruction.act? = (c.effects told).map Effect.act := by
  rw [Code.effects, List.map_filterMap]
  exact List.filterMap_congr fun i _ => i.act?_eq told

namespace Expr

/-- What evaluating a node does itself, beside evaluating its children. -/
def acts : Expr → List Act
  | step .. | assign .. => [.store]
  | call _ _ _ launch _ _ => [if launch then .launch else .call]
  | sync _ => [.sync]
  | new _ _ _ init _ => .allocate :: if init.isSome then [.store] else []
  | _ => []

mutual
/-- The nodes of a tree that are evaluated: all but those below a `sizeof`. -/
def evaluated : Expr → List Expr
  | e@(.unary _ _ a) => e :: a.evaluated
  | e@(.step _ _ a _) => e :: a.evaluated
  | e@(.binary _ _ l r _) => e :: (l.evaluated ++ r.evaluated)
  | e@(.assign _ _ t v _) => e :: (t.evaluated ++ v.evaluated)
  | e@(.select _ t a b) => e :: (t.evaluated ++ (a.evaluated ++ b.evaluated))
  | e@(.list _ es) => e :: evaluatedEach es
  | e@(.call _ c args _ count _) => e :: (c.evaluated ++ (evaluatedEach args ++ evaluatedOf count))
  | e@(.index _ b i) => e :: (b.evaluated ++ i.evaluated)
  | e@(.member _ b _ _ _) => e :: b.evaluated
  | e@(.cast _ _ a _) => e :: a.evaluated
  | e@(.reference _ a) => e :: a.evaluated
  | e@(.dereference _ a) => e :: a.evaluated
  | e@(.addressOf _ a) => e :: a.evaluated
  | e@(.new _ _ count init _) => e :: (evaluatedOf count ++ evaluatedOf init)
  | e@(.sizeOf ..) => [e]
  | e@(.const ..) => [e]
  | e@(.sizeOfType ..) => [e]
  | e@(.symbol ..) => [e]
  | e@(.function _) => [e]
  | e@(.sync _) => [e]
  | e@(.null _) => [e]
def evaluatedEach : List Expr → List Expr
  | [] => []
  | e :: es => e.evaluated ++ evaluatedEach es
def evaluatedOf : Option Expr → List Expr
  | none => []
  | some e => e.evaluated
end

/-- Effects that are the acts of nodes, in any order. -/
def Tallies (fs : List Effect) (es : List Expr) : Prop := (fs.map Effect.act).Perm (es.flatMap acts)

variable {T : Target} {told : Bool} {e : Expr} {es ds : List Expr} {fs gs own : List Effect}

theorem Tallies.nil : Tallies [] [] := List.Perm.nil

theorem Tallies.append (h : Tallies fs es) (h' : Tallies gs ds) : Tallies (fs ++ gs) (es ++ ds) := by
  unfold Tallies
  rw [List.map_append, List.flatMap_append]
  exact List.Perm.append h h'

/-- A node acts after its children. -/
theorem Tallies.node (h : Tallies fs es) (hown : own.map Effect.act = e.acts) : Tallies (fs ++ own) (e :: es) := by
  unfold Tallies
  rw [List.map_append, List.flatMap_cons, hown]
  exact List.perm_append_comm.trans (List.Perm.append_left _ h)

theorem Tallies.still (h : Tallies fs es) (hacts : e.acts = []) : Tallies fs (e :: es) := by
  unfold Tallies
  rw [List.flatMap_cons, hacts, List.nil_append]
  exact h

theorem Tallies.perm (h : Tallies fs es) (hp : gs.Perm fs) : Tallies gs es := (hp.map Effect.act).trans h

/-- The effects that are read off a tree are the acts of its evaluated nodes, in another order. -/
theorem effects_tally (h : Checked T e) (hr : Everywhere (Ready told) e) :
    Tallies (e.effects told fun _ => none) e.evaluated := by
  induction e using Expr.induct with
  | h e ih =>
  have child : ∀ c ∈ e.children, Tallies (c.effects told fun _ => none) c.evaluated := fun c hc =>
    ih c hc (h.child hc) (hr.child hc)
  have each : ∀ {es : List Expr}, (∀ c ∈ es, c ∈ e.children) → Tallies (effectsEach told (fun _ => none) es) (evaluatedEach es) := by
    intro es hes
    induction es with
    | nil => exact .nil
    | cons c cs ihs =>
      rw [effectsEach, evaluatedEach]
      exact (child c (hes c List.mem_cons_self)).append (ihs fun d hd => hes d (List.mem_cons_of_mem _ hd))
  have part : ∀ {o : Option Expr}, (∀ c ∈ o.toList, c ∈ e.children) →
      Tallies (effectsOf told (fun _ => none) o) (evaluatedOf o) := by
    intro o ho
    cases o with
    | none => exact .nil
    | some c => exact child c (ho c (by simp))
  obtain ⟨t, hn, -⟩ := h.typed
  -- most nodes only evaluate their children, and the others act last, but for an allocation
  cases e with
  | step node s a amount =>
    rw [effects, evaluated, show node.type = some t from hn]
    exact (child a (by simp [children])).node rfl
  | assign node op target v operandType =>
    rw [effects, evaluated, show node.type = some t from hn, ← List.append_assoc]
    exact ((child target (by simp [children])).append (child v (by simp [children]))).node rfl
  | call node callee args launch count signature =>
    obtain ⟨s, -, rfl, -⟩ := h.here.coherent
    have hlaunch : count.isSome = launch := hr.here
    have hcallee := child callee (by simp [children])
    have hargs := @each args fun c hc => by simp [children, hc]
    rw [effects, evaluated]
    cases launch with
    | true =>
      have hcount := part (o := count) fun c hc => by simp only [children, List.mem_append, hc, or_true]
      rw [if_pos rfl, ← List.append_assoc (effectsEach ..), ← List.append_assoc]
      exact (hcallee.append (hargs.append hcount)).node rfl
    | false =>
      rw [Option.isSome_eq_false_iff, Option.isNone_iff_eq_none] at hlaunch
      subst hlaunch
      rw [evaluatedOf, List.append_nil, if_neg Bool.false_ne_true, ← List.append_assoc]
      exact (hcallee.append hargs).node rfl
  | new node allocated count init varying =>
    have hcount := part (o := count) fun c hc => by simp only [children, List.mem_append, hc, true_or]
    have hinit := part (o := init) fun c hc => by simp only [children, List.mem_append, hc, or_true]
    rw [effects, evaluated, show node.type = some t from hn, Option.toList_some, List.map_singleton, List.singleton_append]
    have hacts : (Effect.allocate allocated count.isSome t :: if init.isSome then [.store allocated] else []).map Effect.act =
        acts (.new node allocated count init varying) := by cases init <;> rfl
    refine ((hcount.append hinit).node hacts).perm ?_
    rw [List.append_assoc]
    exact List.Perm.append_left _ List.perm_middle.symm
  | sync node => exact Tallies.nil.node rfl
  | select node test a b =>
    have hbranches := (child a (by simp [children])).append (child b (by simp [children]))
    rw [effects, evaluated]
    exact ((child test (by simp [children])).append hbranches).still rfl
  | binary node op l r reported =>
    rw [effects, evaluated]
    exact ((child l (by simp [children])).append (child r (by simp [children]))).still rfl
  | index node b i =>
    rw [effects, evaluated]
    exact ((child b (by simp [children])).append (child i (by simp [children]))).still rfl
  | list node items => exact (each fun c hc => hc).still rfl
  | unary node op a => exact (child a (by simp [children])).still rfl
  | member node a name arrow access => exact (child a (by simp [children])).still rfl
  | cast node target a reported => exact (child a (by simp [children])).still rfl
  | reference node a => exact (child a (by simp [children])).still rfl
  | dereference node a => exact (child a (by simp [children])).still rfl
  | addressOf node a => exact (child a (by simp [children])).still rfl
  | const | sizeOf | sizeOfType | symbol | function | null => exact Tallies.nil.still rfl

end Expr

/-! ## Code -/

/-- The code evaluates an expression once: its operands are results of earlier instructions, and it does what the evaluated
nodes ask for, neither more nor less often. -/
structure Code.Evaluates (c : Code) (e : Expr) : Prop where
  wired : c.Wired
  once : ∀ act : Act, (c.filterMap Instruction.act?).count act = (e.evaluated.flatMap Expr.acts).count act

namespace Expr

variable {T : Target} {e : Expr}

/-- The code that is emitted for the value of an expression, and for its address if it has one, evaluates it once. -/
structure EvaluatesOnce (e : Expr) : Prop where
  value : ∃ v c, e.value.run [] = (.ok v, c) ∧ c.Evaluates e ∧ c.Defines v
  address : ∃ a c, e.address.run [] = (.ok a, c) ∧ (a = none → c.filterMap Instruction.act? = []) ∧
    ∀ v, a = some v → c.Evaluates e ∧ c.Defines v

theorem Checked.evaluates_once (h : Checked T e) (hr : Everywhere (Ready false) e) : e.EvaluatesOnce := by
  obtain ⟨hvalue, haddress⟩ := performs h hr
  have evaluates : ∀ c : Code, c.Wired → c.effects false = e.effects false (fun _ => none) → c.Evaluates e := fun c hc he =>
    ⟨hc, fun act => by rw [Code.acts_eq false, he]; exact (effects_tally h hr).count_eq act⟩
  refine ⟨?_, ?_⟩
  · obtain ⟨v, c, hrun, -, heffects⟩ := hvalue []
    rw [List.nil_append] at hrun
    obtain ⟨-, hwired, hdefined⟩ := (emits_wired e).1 [] Code.Wired.nil v c hrun
    exact ⟨v, c, hrun, evaluates c hwired heffects, hdefined⟩
  · obtain ⟨a, c, hrun, hfound, heffects⟩ := haddress []
    rw [List.nil_append] at hrun
    obtain ⟨-, hwired, hdefined⟩ := (emits_wired e).2 [] Code.Wired.nil a c hrun
    refine ⟨a, c, hrun, fun ha => ?_, fun v hv => ?_⟩
    · rw [Code.acts_eq false, heffects, ← hfound, ha]
      rfl
    · rw [← hfound, hv] at heffects
      exact ⟨evaluates c hwired heffects, hdefined v hv⟩

end Expr

open Check Spmd.Expr

/-- Every subexpression of a checked expression is evaluated once, and every subexpression of what the optimizer makes of
it. -/
theorem typecheck_evaluates_once {target : Target} {file : String} {json : Option Json} {p : Program} {e t : Expr}
    {s s' : Session} (hp : Program.read target file json = .ok p) (he : e ∈ p.expressions) (hs : s.target = target)
    (ht : (typecheck e).run s = (.ok (some t), s')) :
    t.EvaluatesOnce ∧ ∀ r : Session, ∃ o r', (optimize t).run r = (.ok (some o), r') ∧ o.EvaluatesOnce := by
  have hc := typecheck_checked hp he hs ht
  have hready : Everywhere (Ready false) t := ready_everywhere hc (typecheck_wellTyped hp he hs ht) nofun
  refine ⟨hc.evaluates_once hready, fun r => ?_⟩
  obtain ⟨result, new, found, hrun, ⟨o, rfl, ho⟩, -⟩ :=
    optimize_faithful (U := r.target) hc (typecheck_wellTyped hp he hs ht) hready r rfl
  exact ⟨o, _, hrun, ho.checked.evaluates_once ho.ready⟩

/-! ## An element and its position -/

/-- `p[n++] += n`, where the element is read and written but its position only stepped once. -/
def bumpJson : Json :=
  let symbol (name : String) : Json := .object [("symbol", .string name)]
  programJson [("n", .string "int32"), ("p", .object [("pointer", .string "int32")])] (.object [("assign", .string "+="),
    ("target", .object [("index", symbol "p"), ("at", .object [("unary", .string "post++"), ("operand", symbol "n")])]),
    ("value", symbol "n")])

def bumpSymbols : List Symbol :=
  [⟨"n", .int32, .local, none, none⟩, ⟨"p", .pointer .int32 {} none, .local, none, none⟩]

/-- `p[n++] += n` with the operators in a state, the amount of the step and the type that is added in. -/
def bumpExpr (operator : Node) (amount : Option Literal) (operandType : Option Ty) : Expr :=
  let symbol (i : Nat) : Expr := .symbol (.typed none bumpSymbols[i]!.type) bumpSymbols[i]!
  .assign operator (.compound .add) (.index operator (symbol 1) (.step operator ⟨true, false⟩ (symbol 0) amount)) (symbol 0)
    operandType

theorem bumpProgram_read : Program.read .standard "program" (some bumpJson) =
    .ok ⟨{ target := .standard, file := "program", symbols := bumpSymbols }, [bumpExpr {} none none]⟩ := rfl

def bumpChecked : Expr := bumpExpr (.typed none .int32) (some ⟨Ty.int32.asConst, ⟨.int32, 8, [.int 1]⟩⟩) (some .int32)

theorem bumpExpr_checks : (typecheck (bumpExpr {} none none)).run { target := .standard } =
    (.ok (some bumpChecked), { target := .standard }) := rfl

theorem typecheck_evaluates_once_bump : bumpChecked.EvaluatesOnce ∧
    ∀ r : Session, ∃ o r', (optimize bumpChecked).run r = (.ok (some o), r') ∧ o.EvaluatesOnce :=
  typecheck_evaluates_once bumpProgram_read (List.mem_singleton_self _) rfl bumpExpr_checks

end Spmd
