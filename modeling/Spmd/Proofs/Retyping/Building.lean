import Spmd.Proofs.Retyping.Check

/-!
# Nodes that checks build

The step of a form brings operands to types, and builds one node around them. So a property of nodes that conversions keep
holds at every node of what a check gives, if it holds of the operations on values when their operands were accepted
(`Check.Conserved.steps`).
-/

namespace Spmd

/-- Whether a node is an operator or a cast. -/
def Expr.isOperation : Expr → Bool
  | .unary .. | .binary .. | .cast .. => true
  | _ => false

namespace Check

open Spmd.Expr

variable {T : Target} {Q : Expr → Prop}

/-- A durable operand whose nodes all have a property. -/
def Grown (T : Target) (Q : Expr → Prop) (e : Expr) : Prop := Durable T e ∧ Everywhere Q e

/-- A property of nodes that conversions keep and that accepted operations have. -/
structure Conserved (T : Target) (Q : Expr → Prop) : Prop where
  convert : ∀ {e}, Grown T Q e → ∀ target context, Yields T (Check.convert e target context) (Everywhere Q)
  name : ∀ {f}, Known f → Q (.function f)
  plain : ∀ {e}, Durable T e → e.isOperation = false → Q e
  unary : ∀ {c} node op, Needed (Grown T Q) c → Yields T (checkUnary node op c) Q
  binary : ∀ {l r} node op, Needed (Grown T Q) l → Needed (Grown T Q) r → Yields T (checkBinary node op l r) Q
  cast : ∀ {c} node target, target.Legal → Grown T Q c → Yields T (checkCast node target c) Q

/-! ## Conversions -/

theorem convertItems_each {P : Expr → Prop} {context : String} {items : List Expr}
    (h : ∀ e ∈ items, ∀ t : Ty, Yields T (convert e t context) P) :
    ∀ {ts : List (Option Ty)}, Yields T (convertItems items ts context) fun es => ∀ c ∈ es, P c := by
  induction items with
  | nil =>
    intro ts
    rw [convertItems]
    exact Yields.some (List.forall_mem_nil _)
  | cons e es ih =>
    intro ts
    cases ts with
    | nil => exact Yields.none
    | cons t ts =>
      cases t with
      | none => exact Yields.none
      | some t =>
        rw [convertItems]
        refine Yields.bind (h e List.mem_cons_self t) (fun e' he' => ?_) Yields.none
        refine Yields.bind (ih fun c hc => h c (List.mem_cons_of_mem _ hc)) (fun es' hes' => Yields.some ?_) Yields.none
        exact List.forall_mem_cons.mpr ⟨he', hes'⟩

/-- A property of nodes is kept by conversions if it is kept by those of values and of names, and lists have it. -/
theorem convert_grows {context : String}
    (value : ∀ {e t}, Durable T e → e.type? = some t → e.isFunctionName = false → Everywhere Q e → ∀ target,
      Yields T (convertValue e target context) (Everywhere Q))
    (name : ∀ {f}, Fresh f → ∀ target, Yields T (convertFunction f target context) (Everywhere Q))
    (list : ∀ node items, Q (.list node items)) {e : Expr} (hd : Durable T e) (h : Everywhere Q e) (target : Ty) :
    Yields T (convert e target context) (Everywhere Q) := by
  induction hd generalizing target with
  | name fresh =>
    rw [convert]
    exact name fresh target
  | @closed e checked closed lasts =>
    obtain ⟨source, hs, -⟩ := checked.typed
    have hn : e.isFunctionName = false := by
      cases e with
      | function => cases closed
      | _ => rfl
    rw [convert_closed closed]
    exact value (.closed checked closed lasts) hs hn h target
  | @list node items ts type_eq types below ih =>
    have hvalue : Yields T (convertValue (.list node items) target context) (Everywhere Q) :=
      value (t := .list ts) (.list type_eq types below) type_eq rfl h target
    rw [convert]
    refine Gives.lift fun source _ => ?_
    split
    · exact hvalue
    · split
      · exact hvalue
      · refine ifConverts_yields fun _ => ?_
        refine Yields.bind (convertItems_each fun c hc t => ih c hc (h.child hc) t) (fun es hes => ?_) Yields.none
        exact Gives.lift fun _ _ => Yields.some (.node (list _ es) hes)

/-! ## Below a node -/

def Below (Q : Expr → Prop) (e : Expr) : Prop := ∀ c ∈ e.children, Everywhere Q c

theorem below_one {e c : Expr} (hc : e.children = [c]) (h : Everywhere Q c) : Below Q e := by
  intro d hd
  rw [hc, List.mem_singleton] at hd
  exact hd ▸ h

theorem below_two {e c d : Expr} (hc : e.children = [c, d]) (h : Everywhere Q c) (h' : Everywhere Q d) : Below Q e := by
  intro x hx
  rw [hc, List.mem_cons, List.mem_singleton] at hx
  rcases hx with rfl | rfl
  · exact h
  · exact h'

/-- A node that is no operation, with what is below it. -/
structure Built (Q : Expr → Prop) (e : Expr) : Prop where
  plain : e.isOperation = false
  below : Below Q e

theorem built_one {e c : Expr} (hp : e.isOperation = false) (hc : e.children = [c]) (h : Everywhere Q c) : Built Q e :=
  ⟨hp, below_one hc h⟩

theorem built_two {e c d : Expr} (hp : e.isOperation = false) (hc : e.children = [c, d]) (h : Everywhere Q c)
    (h' : Everywhere Q d) : Built Q e :=
  ⟨hp, below_two hc h h'⟩

/-! ## Steps that convert nothing -/

section
variable {c : Expr} (node : Node) (h : Grown T Q c)
include h

theorem checkStep_built (s : Step) : Yields T (checkStep node s c) (Built Q) := by
  unfold checkStep
  refine Gives.lift fun t _ => Gives.lift fun b _ => ?_
  split
  · exact Yields.reject _ _
  · refine Gives.lift fun _ _ => ?_
    dsimp only
    split
    · exact Yields.reject _ _
    · exact Yields.bind (stepAmount_steps _ _ _) (fun _ _ => Yields.some (built_one rfl rfl h.2)) Yields.none

theorem checkMember_built (name : String) (arrow : Bool) : Yields T (checkMember node c name arrow) (Built Q) := by
  have member : ∀ access t, Built Q (memberOf node c name arrow access t) := fun _ _ => built_one rfl rfl h.2
  unfold checkMember
  refine Gives.lift fun t _ => ?_
  split
  · exact Yields.reject _ _
  · split
    · unfold checkField
      dsimp only
      split
      · exact Yields.reject _ _
      · exact Yields.some (member _ _)
    · unfold checkSwizzle
      split
      · exact Yields.reject _ _
      · exact Yields.some (member _ _)
    · exact Yields.reject _ _

theorem checkDereference_built : Yields T (checkDereference node c) (Built Q) := by
  unfold checkDereference
  refine Gives.lift fun t _ => ?_
  split
  · exact Yields.some (built_one rfl rfl h.2)
  · split
    · exact Yields.reject _ _
    · exact Yields.some (built_one rfl rfl h.2)
  · exact Yields.reject _ _

theorem checkAddressOf_built : Yields T (checkAddressOf node c) (Built Q) := by
  unfold checkAddressOf
  split
  · split
    · exact Yields.reject _ _
    · exact Gives.lift fun _ _ => Yields.some (built_one rfl rfl h.2)
  · refine Gives.lift fun a _ => ?_
    split
    · exact Yields.some (built_one rfl rfl h.2)
    · exact Yields.reject _ _

theorem checkSizeOf_built : Yields T (checkSizeOf node c) (Built Q) := by
  unfold checkSizeOf
  refine Gives.lift fun t _ => ?_
  split
  · exact Yields.reject _ _
  · exact Yields.target (Yields.some (built_one rfl rfl h.2))

theorem checkReference_built : Yields T (checkReference node c) fun r => r = c ∨ Built Q r := by
  unfold checkReference
  refine Gives.lift fun t _ => ?_
  split
  · exact Yields.some (.inl rfl)
  · refine Gives.lift fun b _ => ?_
    split
    · exact Gives.lift fun _ _ => Yields.some (.inr (built_one rfl rfl h.2))
    · exact Yields.reject _ _

end

theorem checkSizeOfType_built (node : Node) (t : Ty) : Yields T (checkSizeOfType node t) (Built Q) := by
  unfold checkSizeOfType
  split
  · exact Yields.reject _ _
  · exact Yields.target (Yields.some ⟨rfl, List.forall_mem_nil _⟩)

theorem checkList_built (node : Node) {items : List Expr} (h : ∀ e ∈ items, Grown T Q e) :
    Yields T (checkList node items) (Built Q) :=
  Gives.lift fun _ _ => Yields.some ⟨rfl, fun e he => (h e he).2⟩

/-! ## Steps that convert their operands -/

section
variable (hQ : Conserved T Q) {c l r : Expr} (node : Node)
include hQ

theorem checkUnary_below (op : ValueOp) (h : Grown T Q c) : Yields T (checkUnary node op c) (Below Q) := by
  unfold checkUnary
  refine Gives.lift fun t _ => ?_
  cases op with
  | neg =>
    dsimp only
    split
    · exact Yields.some (below_one rfl h.2)
    · exact Yields.reject _ _
  | complement =>
    dsimp only
    split
    · exact Yields.some (below_one rfl h.2)
    · exact Yields.reject _ _
  | not =>
    refine Yields.bind (hQ.convert h _ _) (fun c hc => ?_) Yields.none
    exact Gives.lift fun _ _ => Yields.some (below_one rfl hc)

theorem checkCast_below (target : Ty) (h : Grown T Q c) :
    Yields T (checkCast node target c) fun r => Everywhere Q r ∨ Below Q r := by
  unfold checkCast
  dsimp only
  split
  · exact Yields.mono (hQ.convert h target _) fun _ hr => .inl hr
  · refine Gives.lift fun source _ => ?_
    split
    · exact Yields.some (.inr (below_one rfl h.2))
    · exact canConvert_yields (fun _ => Yields.some (.inr (below_one rfl h.2))) Yields.none

section
variable (hl : Grown T Q l) (hr : Grown T Q r)
include hl hr

theorem binaryOf_below (op : BinaryOp) (a b : Ty) (context : String) (t : Ty) :
    Yields T (do return binaryOf node op t (← convertBoth l a r b context)) (Below Q) :=
  Yields.bind (convertBoth_yields (hQ.convert hl a context) (hQ.convert hr b context))
    (fun _ h => Yields.some (below_two rfl h.1 h.2)) Yields.none

theorem checkLogic_below (op : BinaryOp) : Yields T (checkLogic node op l r) (Below Q) := by
  unfold checkLogic
  refine Gives.lift fun a _ => Gives.bind (hQ.convert hl _ _) fun o ho => ?_
  refine Gives.lift fun b _ => Gives.bind (hQ.convert hr _ _) fun o' ho' => ?_
  cases o with
  | none => cases o' <;> exact Yields.none
  | some l =>
    cases o' with
    | none => exact Yields.none
    | some r => exact Gives.lift fun _ _ => Gives.lift fun _ _ => Yields.some (below_two rfl (ho l rfl) (ho' r rfl))

theorem offsetPointer_below (op : BinaryOp) (a b : Ty) (left : Bool) :
    Yields T (offsetPointer node op l r a b left) (Below Q) := by
  unfold offsetPointer
  extract_lets pointer offset
  split
  · exact Yields.reject _ _
  · split
    · exact Yields.reject _ _
    · split
      · exact Yields.reject _ _
      · exact Yields.target (binaryOf_below hQ node hl hr op _ _ _ _)

theorem checkPointers_below (op : BinaryOp) : Yields T (checkPointers node op l r) (Below Q) := by
  unfold checkPointers
  refine Gives.lift fun a _ => Gives.lift fun b _ => ?_
  dsimp only
  split
  · unfold comparePointers
    exact Yields.bind (commonType_delivers _ _ _ _).yields (fun t _ => binaryOf_below hQ node hl hr op _ _ _ _) Yields.none
  · split
    · exact Yields.reject _ _
    · split
      · unfold subtractPointers
        split
        · exact Yields.reject _ _
        · split
          · exact Yields.reject _ _
          · split
            · exact Yields.reject _ _
            · exact Yields.target (binaryOf_below hQ node hl hr op _ _ _ _)
      · exact offsetPointer_below hQ node hl hr op _ _ true
      · exact offsetPointer_below hQ node hl hr op _ _ false

theorem checkValues_below (op : BinaryOp) (a b : Ty) : Yields T (checkValues node op l r a b) (Below Q) := by
  unfold checkValues
  exact Yields.bind (checkOperands_takes _ _ _ _) (fun t _ => binaryOf_below hQ node hl hr op _ _ _ _) Yields.none

theorem checkBinary_below (op : BinaryOp) : Yields T (checkBinary node op l r) (Below Q) := by
  have values : Yields T (do
      let a := (← l.type).rvalue
      let b := (← r.type).rvalue
      if a.isPointer || b.isPointer || a.isArray || b.isArray then checkPointers node op l r
      else checkValues node op l r a b) (Below Q) := by
    refine Gives.lift fun a _ => Gives.lift fun b _ => ?_
    dsimp only
    split
    · exact checkPointers_below hQ node hl hr op
    · exact checkValues_below hQ node hl hr op _ _
  cases op with
  | comma => exact Gives.lift fun _ _ => Yields.some (below_two rfl hl.2 hr.2)
  | logic lo => exact checkLogic_below hQ node hl hr _
  | arith => exact values
  | compare => exact values

theorem checkAssign_built (op : AssignOp) : Yields T (checkAssign node op l r) (Built Q) := by
  have assigned : ∀ (op : AssignOp) (t target : Ty) (o : Option Ty) (context : String),
      Yields T (do return assignOf node op l t o (← convert r target context)) (Built Q) := fun op t target o context =>
    Yields.bind (hQ.convert hr target context) (fun _ h => Yields.some (built_two rfl rfl hl.2 h)) Yields.none
  unfold checkAssign
  refine Gives.lift fun b _ => ?_
  split
  · exact Yields.reject _ _
  · refine Gives.lift fun t _ => ?_
    dsimp only
    split
    · exact Yields.reject _ _
    · split
      · exact Yields.reject _ _
      · cases op with
        | plain => exact assigned _ _ _ _ _
        | compound op =>
          dsimp only
          split
          · unfold assignPointer
            refine Gives.lift fun u _ => ?_
            dsimp only
            split
            · exact Yields.reject _ _
            · split
              · exact Yields.reject _ _
              · split
                · exact Yields.reject _ _
                · exact Yields.target (assigned _ _ _ _ _)
          · unfold assignCompound
            refine Gives.lift fun u _ => ?_
            refine Yields.bind (checkOperands_takes _ _ _ _) (fun o _ => ?_) Yields.none
            exact ifConverts_yields fun _ => assigned _ _ _ _ _

theorem checkSelect_built {t : Expr} (ht : Grown T Q t) : Yields T (checkSelect node t l r) (Built Q) := by
  unfold checkSelect
  refine Gives.lift fun u _ => ?_
  refine Yields.bind (hQ.convert ht _ _) (fun t ht => ?_) Yields.none
  refine Gives.lift fun a _ => Gives.lift fun b _ => ?_
  refine Yields.bind (commonType_delivers _ _ _ _).yields (fun w _ => ?_) Yields.none
  refine Yields.bind (convertBoth_yields (hQ.convert hl _ _) (hQ.convert hr _ _)) (fun p hp => Yields.some ?_) Yields.none
  exact ⟨rfl, List.forall_mem_cons.mpr ⟨ht, below_two (e := .binary node .comma p.1 p.2 false) rfl hp.1 hp.2⟩⟩

theorem checkIndex_built : Yields T (checkIndex node l r) (Built Q) := by
  unfold checkIndex
  refine Gives.lift fun t _ => ?_
  dsimp only
  split
  · exact Yields.reject _ _
  · refine Gives.lift fun u _ => ?_
    split
    · exact Yields.reject _ _
    · refine Yields.bind (hQ.convert hr _ _) (fun p hp => ?_) Yields.none
      dsimp only
      split
      · exact Yields.reject _ _
      · exact Yields.some (built_two rfl rfl hl.2 hp)

end

theorem checkNew_built {allocated : Ty} {count init : Option Expr} {varying : Bool} (hn : ∀ n, count = some n → Grown T Q n)
    (hi : ∀ e, init = some e → Grown T Q e) : Yields T (checkNew node allocated count init varying) (Built Q) := by
  unfold checkNew
  split
  · exact Yields.reject _ _
  · rename_i n
    unfold allocationCount
    refine Yields.bind (Gives.lift fun t _ => ?_) (fun n hn => Yields.some (built_one rfl rfl hn)) Yields.none
    dsimp only
    split
    · exact Yields.reject _ _
    · exact hQ.convert (hn n rfl) _ _
  · rename_i e
    exact Yields.bind (hQ.convert (hi e rfl) _ _) (fun e he => Yields.some (built_one rfl rfl he)) Yields.none
  · exact Yields.some ⟨rfl, List.forall_mem_nil _⟩

end

/-! ## Calls -/

theorem resolve_known {f : FunctionName} (h : Known f) (arguments : List Argument) :
    Gives T (f.resolve arguments) fun r => r.1.isSome = true → Known r.2 := by
  unfold FunctionName.resolve
  split
  · exact Gives.pure fun _ => h
  · rename_i hopen
    have hc : f.choice = {} := by
      rcases h.choice_cases with hc | ⟨s, -, hc, -⟩
      · exact hc
      · rw [hc] at hopen
        exact absurd rfl hopen
    have hsettle : Known f.settleType := by rwa [h.settleType_eq]
    split
    · rename_i s hs
      obtain ⟨hm, sig, hsig, -⟩ := resolve_resolved hs
      exact Gives.bind (Meets.gives (note_meets _)) fun _ _ => Gives.pure fun _ => hsettle.pick hc hm hsig
    all_goals
      refine Gives.bind (Meets.gives (note_meets _)) fun _ _ => Gives.bind (Meets.gives (report_meets _ _)) fun _ _ => ?_
      exact Gives.pure fun hn => by cases hn

section
variable (hQ : Conserved T Q) {args : List Expr} (hargs : ∀ a ∈ args, Grown T Q a) (node : Node)
include hQ

omit hQ in
theorem literal_durable {s : ScalarTy} {v : Constant} (h : v.Suits T.width s) (place : Option Location) :
    Durable T ((⟨(Ty.scalar s).asConst, v⟩ : Literal).expr place) := by
  refine .closed (literal_checked h place) rfl fun _ => ?_
  rw [Fixed, Literal.expr, check]
  exact Again.some rfl

theorem literal_grown {s : ScalarTy} {v : Constant} (h : v.Suits T.width s) (place : Option Location) :
    Grown T Q ((⟨(Ty.scalar s).asConst, v⟩ : Literal).expr place) :=
  ⟨literal_durable h place, .leaf (hQ.plain (literal_durable h place) rfl) rfl⟩

include hargs

theorem convertArguments_grows {ps : List Ty} (hn : ps.length = args.length) :
    Yields T (convertArguments args ps) fun as => ∀ a ∈ as, Everywhere Q a := by
  induction args generalizing ps with
  | nil => exact Yields.some (List.forall_mem_nil _)
  | cons a as ih =>
    cases ps with
    | nil => cases hn
    | cons p ps =>
      have hfirst := hQ.convert (hargs a List.mem_cons_self) p "function call argument"
      have hrest := ih (fun c hc => hargs c (List.mem_cons_of_mem _ hc)) (by simpa using hn)
      rw [convertArguments]
      exact Yields.both hfirst hrest (fun b bs hb hbs => Yields.some (List.forall_mem_cons.mpr ⟨hb, hbs⟩))
        (fun _ => Yields.none) fun _ => Yields.none

theorem calledByName_grows {f : FunctionName} (hf : Known f) :
    Yields T (calledByName f args) fun callee => Everywhere Q callee.expr := by
  unfold calledByName
  refine Gives.bind (Meets.gives (resolvedAll_meets fun a ha => (hargs a ha).1.operand)) fun b _ => ?_
  cases b with
  | false => exact Yields.none
  | true =>
    refine Gives.lift fun ts _ => Gives.bind (resolve_known hf _) fun r h => ?_
    obtain ⟨found, f'⟩ := r
    cases found with
    | none => exact Yields.none
    | some s =>
      simp only [Option.bind_some]
      split
      · exact Yields.some (.leaf (hQ.name (h rfl)) rfl)
      · exact Yields.none

omit hargs hQ in
theorem calledByValue_grows {c : Expr} (hc : Checked T c) (h : Everywhere Q c) :
    Yields T (calledByValue node c args) fun b => Callable T args.length b ∧ Everywhere Q b.expr := by
  refine Yields.and (calledByValue_delivers node hc).yields ?_
  unfold calledByValue
  refine Gives.lift fun t _ => ?_
  dsimp only
  split
  · exact Yields.reject _ _
  · split
    · exact Yields.some h
    · exact Yields.reject _ _

section
variable {count : Option Expr} (hcount : ∀ n, count = some n → Grown T Q n)
include hcount

omit hargs in
theorem launchCount_grows : Yields T (launchCount node count) (Everywhere Q) := by
  unfold launchCount
  cases count with
  | some n =>
    simp only [pure_bind]
    exact hQ.convert (hcount n rfl) _ _
  | none =>
    refine Yields.target ?_
    obtain ⟨v, hv, hsuits⟩ := Literal.ofScalars_ok T.width ⟨.basic .int32, {}, none⟩ [.int 1] (.inl rfl)
    simp only [Ty.int32, Ty.basic, hv, lift_ok, pure_bind]
    exact hQ.convert (literal_grown hQ hsuits node.place) _ _

theorem applyCallee_built {b : Callee} (hb : Callable T args.length b) (h : Everywhere Q b.expr) (launch : Bool) :
    Yields T (applyCallee node b args launch count) (Built Q) := by
  unfold applyCallee
  split
  · exact Yields.reject _ _
  · refine Yields.bind (convertArguments_grows hQ hargs hb.count_eq) (fun as has => ?_) Yields.none
    dsimp only
    split
    · refine Yields.bind (launchCount_grows hQ node hcount) (fun n hn => Yields.some ?_) Yields.none
      refine ⟨rfl, List.forall_mem_cons.mpr ⟨h, fun c hm => ?_⟩⟩
      rcases List.mem_append.mp hm with hm | hm
      · exact has c hm
      · exact List.mem_singleton.mp hm ▸ hn
    · refine Yields.some ⟨rfl, List.forall_mem_cons.mpr ⟨h, fun c hm => has c ?_⟩⟩
      simpa using hm

theorem checkCall_built {callee : Expr} (hc : Grown T Q callee) (launch : Bool) :
    Yields T (checkCall node callee args launch count) (Built Q) := by
  have happly : ∀ b, Callable T args.length b ∧ Everywhere Q b.expr →
      Yields T (applyCallee node b args launch count) (Built Q) :=
    fun _ hb => applyCallee_built hQ hargs node hcount hb.1 hb.2 launch
  have hoperands : ∀ a ∈ args, Operand T a := fun a ha => (hargs a ha).1.operand
  unfold checkCall
  obtain ⟨hd, h⟩ := hc
  cases hd with
  | name fresh =>
    exact Yields.bind (Yields.and (calledByName_delivers hoperands fresh.toKnown (fresh.takes _)).yields
      (calledByName_grows hQ hargs fresh.toKnown)) happly Yields.none
  | @list n items ts type_eq types below =>
    have hlist := (Durable.list type_eq types below).operand.toChecked (t := .list ts) type_eq
    exact Yields.bind (calledByValue_grows node hlist h) happly Yields.none
  | closed checked closed lasts =>
    dsimp only
    split
    · cases closed
    · exact Yields.bind (calledByValue_grows node checked h) happly Yields.none

end

end

/-! ## Trees -/

section
variable {m : Check (Option Expr)}

theorem grown (h : Yields T m (Durable T)) (hr : Yields T m Q) (hb : Yields T m (Below Q)) : Yields T m (Grown T Q) :=
  Yields.mono (Yields.and h (Yields.and hr hb)) fun _ h => ⟨h.1, .node h.2.1 h.2.2⟩

theorem Conserved.built (hQ : Conserved T Q) (h : Yields T m (Durable T)) (hb : Yields T m (Built Q)) :
    Yields T m (Grown T Q) :=
  grown h (Yields.mono (Yields.and h hb) fun _ h => hQ.plain h.1 h.2.plain) (Yields.mono hb fun _ h => h.below)

theorem needed_durable {e : Expr} (h : Needed (Grown T Q) e) : Needed (Durable T) e := ⟨h.1.1, h.2⟩

end

/-- A node without children is no operation. -/
theorem isOperation_leaf {e : Expr} (h : e.children = []) : e.isOperation = false := by
  cases e with
  | unary | binary | cast => cases h
  | _ => rfl

/-- A property that conversions keep holds of every node of what a check gives. -/
theorem Conserved.steps (hQ : Conserved T Q) : Steps T (Grown T Q) where
  leaf h hn hc he := ⟨leaf_durable h hn he, .leaf (hQ.plain (leaf_durable h hn he) (isOperation_leaf hc)) hc⟩
  name hf := ⟨.name hf, .leaf (hQ.name hf.toKnown) rfl⟩
  unary node op h := grown (durable_steps.unary node op (needed_durable h)) (hQ.unary node op h) (checkUnary_below hQ node op h.1)
  step node s h := hQ.built (durable_steps.step node s (needed_durable h)) (checkStep_built node h.1 s)
  binary node op hl hr := grown (durable_steps.binary node op (needed_durable hl) (needed_durable hr)) (hQ.binary node op hl hr)
    (checkBinary_below hQ node hl.1 hr.1 op)
  assign node op ht hv hw := hQ.built (durable_steps.assign node op (needed_durable ht) hv.1 fun hn => needed_durable (hw hn))
    (checkAssign_built hQ node ht.1 hv op)
  select node ht ha hb := hQ.built (durable_steps.select node (needed_durable ht) (needed_durable ha) (needed_durable hb))
    (checkSelect_built hQ node ha.1 hb.1 ht.1)
  list node hes := hQ.built (durable_steps.list node fun c hc => needed_durable (hes c hc))
    (checkList_built node fun c hc => (hes c hc).1)
  call node launch hc has hn := hQ.built (durable_steps.call node launch hc.1 (fun a ha => (has a ha).1) fun n hm => (hn n hm).1)
    (checkCall_built hQ has node hn hc launch)
  index node hb hi :=
    hQ.built (durable_steps.index node (needed_durable hb) (needed_durable hi)) (checkIndex_built hQ node hb.1 hi.1)
  member node name arrow h :=
    hQ.built (durable_steps.member node name arrow (needed_durable h)) (checkMember_built node h.1 name arrow)
  cast node target ht h := by
    refine Yields.mono (Yields.and (durable_steps.cast node target ht h.1) (Yields.and (hQ.cast node target ht h)
      (checkCast_below hQ node target h))) fun e he => ⟨he.1, ?_⟩
    -- a cast of a name is a conversion, of which every node is known
    rcases he.2.2 with hall | hbelow
    · exact hall
    · exact .node he.2.1 hbelow
  reference node h := by
    refine Yields.mono (Yields.and (durable_steps.reference node (needed_durable h)) (checkReference_built node h.1)) fun e he => ?_
    rcases he.2 with rfl | hbuilt
    · exact h.1
    · exact ⟨he.1, .node (hQ.plain he.1 hbuilt.plain) hbuilt.below⟩
  dereference node h := hQ.built (durable_steps.dereference node (needed_durable h)) (checkDereference_built node h.1)
  addressOf node h := hQ.built (durable_steps.addressOf node h.1) (checkAddressOf_built node h)
  sizeOf node h := hQ.built (durable_steps.sizeOf node (needed_durable h)) (checkSizeOf_built node h.1)
  sizeOfType node t := hQ.built (durable_steps.sizeOfType node t) (checkSizeOfType_built node t)
  new node varying ht hv hn hi :=
    hQ.built (durable_steps.new node varying ht hv (fun n hm => needed_durable (hn n hm)) fun e hm => (hi e hm).1)
      (checkNew_built hQ node (fun n hm => (hn n hm).1) hi)

end Check

end Spmd
