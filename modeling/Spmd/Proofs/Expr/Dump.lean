import Mathlib.Data.List.Basic
import Spmd.Expr.Text
import Spmd.Proofs.Expr.Everywhere
import Spmd.Proofs.Text.Lines

/-!
# Dumps

A dump has one line for each node of a tree. The lines stand in the order of the nodes, each node before those below it, and the
line of a node is two spaces further to the right for every node above it (`Expr.dump_lines`). Only a name can break a line
in two, so this holds of every tree with names of one line.
-/

namespace Spmd

open Text

/-! ## Types -/

def Element.names : Element → List String
  | .basic _ => []
  | .enumeration name _ => [name]

mutual
/-- The names of structs and enumerations in the text of a type. -/
def Ty.names : Ty → List String
  | .void _ => []
  | .scalar s => s.element.names
  | .pointer p _ _ => p.names
  | .array e _ _ => e.names
  | .vector s _ _ => s.element.names
  | .struct name _ _ _ => [name]
  | .reference t _ => t.names
  | .function r ps _ _ => r.names ++ Ty.namesOf ps
  | .list es => Ty.namesOf es
def Ty.namesOf : List Ty → List String
  | [] => []
  | t :: ts => t.names ++ Ty.namesOf ts
end

theorem Qualifiers.oneLine_text (q : Qualifiers) : OneLine q.text := by
  obtain ⟨v, c⟩ := q
  cases v <;> cases c <;> decide

theorem Element.oneLine_text (e : Element) : OneLine e.text ↔ ∀ name ∈ e.names, OneLine name := by
  cases e with
  | basic k => exact ⟨fun _ => nofun, fun _ => by cases k <;> decide⟩
  | enumeration name _ =>
    have henum : OneLine "enum " := by decide
    simp only [text, names, oneLine_append, henum, true_and, List.forall_mem_singleton]

theorem ScalarTy.oneLine_text (s : ScalarTy) : OneLine s.text ↔ ∀ name ∈ s.element.names, OneLine name := by
  have hspace : OneLine " " := by decide
  simp only [text, oneLine_append, s.qualifiers.oneLine_text, hspace, true_and, Element.oneLine_text]

mutual
theorem Ty.oneLine_text : (t : Ty) → (OneLine t.text ↔ ∀ name ∈ t.names, OneLine name)
  | .void _ => by rw [text, names]; exact ⟨fun _ => nofun, fun _ => by decide⟩
  | .scalar s => s.oneLine_text
  | .pointer p q _ => by
    have hstar : OneLine " * " := by decide
    simp only [text, names, oneLine_append, hstar, q.oneLine_text, and_true, p.oneLine_text]
  | .array e n _ => by
    have hopen : OneLine "[" := by decide
    have hclose : OneLine "]" := by decide
    have hcount : OneLine ((n.map countText).getD "") := by
      cases n with
      | none => decide
      | some n => exact oneLine_number _
    simp only [text, names, oneLine_append, hopen, hclose, hcount, and_true, e.oneLine_text]
  | .vector s n _ => by
    have hopen : OneLine "<" := by decide
    have hclose : OneLine ">" := by decide
    have hcount : OneLine (countText n) := oneLine_number _
    simp only [text, names, oneLine_append, hopen, hclose, hcount, and_true, s.oneLine_text]
  | .struct name _ q _ => by
    have hstruct : OneLine " struct " := by decide
    simp only [text, names, oneLine_append, hstruct, q.oneLine_text, true_and, List.forall_mem_singleton]
  | .reference t _ => by
    have hmark : OneLine " &" := by decide
    simp only [text, names, oneLine_append, hmark, and_true, t.oneLine_text]
  | .function r ps task _ => by
    have htask : OneLine (if task then "task " else "") := by cases task <;> decide
    have hopen : OneLine "(" := by decide
    have hclose : OneLine ")" := by decide
    simp only [text, names, oneLine_append, htask, hopen, hclose, true_and, and_true, oneLine_commas, r.oneLine_text,
      Ty.oneLine_texts ps, List.forall_mem_append]
  | .list es => by
    have hopen : OneLine "\x7b " := by decide
    have hclose : OneLine " \x7d" := by decide
    simp only [text, names, oneLine_append, hopen, hclose, true_and, and_true, oneLine_commas, Ty.oneLine_texts es]
theorem Ty.oneLine_texts : (ts : List Ty) → ((∀ s ∈ texts ts, OneLine s) ↔ ∀ name ∈ namesOf ts, OneLine name)
  | [] => by rw [texts, namesOf]
  | t :: ts => by rw [texts, namesOf, List.forall_mem_cons, List.forall_mem_append, t.oneLine_text, Ty.oneLine_texts ts]
end

/-! ## Operators and constants -/

theorem BinaryOp.oneLine_text (op : BinaryOp) : OneLine op.text := by
  cases op with
  | arith op | compare op | logic op => cases op <;> decide
  | comma => decide

theorem AssignOp.oneLine_text (op : AssignOp) : OneLine op.text := by
  cases op with
  | plain => decide
  | compound op => cases op <;> decide

theorem Step.oneLine_text (s : Step) : OneLine s.text := by
  obtain ⟨post, down⟩ := s
  cases post <;> cases down <;> decide

theorem Scalar.oneLine_text (s : Scalar) : OneLine s.text := by
  cases s with
  | bool b => cases b <;> decide
  | int n => exact oneLine_int n
  | real x => exact oneLine_number x

theorem Constant.oneLine_text (c : Constant) : OneLine c.text := by
  unfold text
  split
  · exact Scalar.oneLine_text _
  · have hopen : OneLine "<" := by decide
    have hclose : OneLine ">" := by decide
    simp only [oneLine_append, hopen, hclose, true_and, and_true, oneLine_commas, List.forall_mem_map]
    exact fun s _ => s.oneLine_text

namespace Expr

/-! ## The line of a node -/

def labelNames : Expr → List String
  | member _ _ name _ _ => [name]
  | cast _ t .. => t.names
  | symbol _ s => [s.name]
  | function f => [f.name]
  | _ => []

/-- The names in the line of a node: of its member, symbol or function, and of the structs and enumerations in the types. -/
def names (e : Expr) : List String := e.labelNames ++ (e.type?.map Ty.names).getD []

theorem oneLine_kindName (e : Expr) : OneLine e.kindName := by unfold kindName; split <;> decide

theorem oneLine_label (e : Expr) : OneLine e.label ↔ ∀ name ∈ e.labelNames, OneLine name := by
  have plain : ∀ {s : String}, OneLine s → (OneLine s ↔ ∀ name ∈ ([] : List String), OneLine name) :=
    fun h => ⟨fun _ => nofun, fun _ => h⟩
  cases e with
  | unary _ op _ =>
    have hop : OneLine op.text := by cases op <;> decide
    exact plain hop
  | step _ s _ _ => exact plain s.oneLine_text
  | binary _ op _ _ _ => exact plain op.oneLine_text
  | assign _ op _ _ _ => exact plain op.oneLine_text
  | member _ _ name arrow _ =>
    have hmark : OneLine (if arrow then "->" else ".") := by cases arrow <;> decide
    simp only [label, labelNames, oneLine_append, hmark, true_and, List.forall_mem_singleton]
  | const _ c => exact plain c.oneLine_text
  | cast _ t _ _ =>
    have hopen : OneLine "<" := by decide
    have hclose : OneLine ">" := by decide
    simp only [label, labelNames, oneLine_append, hopen, hclose, true_and, and_true, t.oneLine_text]
  | symbol _ s => simp only [label, labelNames, List.forall_mem_singleton]
  | function f => simp only [label, labelNames, List.forall_mem_singleton]
  | _ => exact plain (s := "") (by decide)

theorem oneLine_line (e : Expr) : OneLine e.line ↔ ∀ name ∈ e.names, OneLine name := by
  have hspace : OneLine " " := by decide
  have hcolon : OneLine " : " := by decide
  have hlabel : OneLine (if e.label = "" then "" else " " ++ e.label) ↔ OneLine e.label := by
    split
    · rename_i h
      rw [h]
    · rw [oneLine_append, and_iff_right hspace]
  rw [line, names, oneLine_append, oneLine_append, and_iff_right e.oneLine_kindName, hlabel, oneLine_label,
    List.forall_mem_append]
  refine and_congr_right fun _ => ?_
  cases e.type? with
  | none => exact ⟨fun _ => nofun, fun _ => by decide⟩
  | some t => exact (oneLine_append _ _).trans ((and_iff_right hcolon).trans t.oneLine_text)

theorem leadingSpaces_line (e : Expr) : leadingSpaces e.line = 0 := by
  have hempty : e.kindName ≠ "" := by unfold kindName; split <;> decide
  have hkind : leadingSpaces e.kindName = 0 := by unfold kindName; split <;> decide
  -- a line starts with the kind of its node, whatever the label and the type are
  rw [line, String.append_assoc]
  exact leadingSpaces_append hempty hkind _

/-! ## The tree -/

/-- The nodes of a tree with their depths, each node before those below it. -/
def preorder (depth : Nat) (e : Expr) : List (Nat × Expr) :=
  (depth, e) :: e.children.attach.flatMap fun c => preorder (depth + 1) c.1
termination_by SizeOf.sizeOf e
decreasing_by exact sizeOf_child c.2

theorem preorder_eq (depth : Nat) (e : Expr) :
    e.preorder depth = (depth, e) :: e.children.flatMap fun c => c.preorder (depth + 1) := by
  rw [preorder]
  simp

theorem mem_preorder {P : Expr → Prop} {e : Expr} (h : e.Everywhere P) (depth : Nat) : ∀ p ∈ e.preorder depth, P p.2 := by
  induction h generalizing depth with
  | node here _ ih =>
    rw [preorder_eq, List.forall_mem_cons]
    refine ⟨here, fun p hp => ?_⟩
    obtain ⟨c, hc, hp⟩ := List.mem_flatMap.mp hp
    exact ih c hc (depth + 1) p hp

theorem dumpAll_append (es fs : List Expr) : dumpAll (es ++ fs) = dumpAll es ++ dumpAll fs := by
  induction es with
  | nil => exact (String.empty_append).symm
  | cons e es ih => rw [List.cons_append, dumpAll, dumpAll, ih, String.append_assoc]

theorem dump_eq (e : Expr) : e.dump = e.line ++ dumpAll e.children := by
  cases e with
  | call n c args launch count signature =>
    cases count <;> simp only [dump, children, Option.toList, List.cons_append, dumpAll, dumpAll_append, String.append_empty,
      List.append_nil, String.append_assoc]
  | new n t count init varying =>
    cases count <;> cases init <;> simp only [dump, children, Option.toList, dumpAll, dumpAll_append, String.append_empty,
      String.empty_append, List.append_nil, String.append_assoc]
  | _ => simp only [dump, children, dumpAll, String.append_empty, String.append_assoc]

theorem nested_eq (s : String) : nested s = "\n" ++ (margin 1 ++ indent s 1) := by
  rw [nested, ← String.append_assoc]
  rfl

theorem split_append_dumpAll (s : String) (es : List Expr) :
    split '\n' (s ++ dumpAll es) = split '\n' s ++ es.flatMap fun e => (split '\n' e.dump).map (margin 1 ++ ·) := by
  induction es generalizing s with
  | nil => rw [dumpAll, String.append_empty, List.flatMap_nil, List.append_nil]
  | cons e es ih =>
    rw [dumpAll, ← String.append_assoc, ih, nested_eq, ← String.append_assoc, split_append_newline, split_indent,
      List.flatMap_cons, List.append_assoc]

/-- Whatever the names are, a dump consists of the lines of the nodes, each moved to the depth of its node. -/
theorem split_dump (e : Expr) (depth : Nat) : (split '\n' e.dump).map (margin depth ++ ·) =
    (e.preorder depth).flatMap fun p => (split '\n' p.2.line).map (margin p.1 ++ ·) := by
  induction e using Expr.induct generalizing depth with
  | h e ih =>
  rw [dump_eq, split_append_dumpAll, preorder_eq, List.map_append, List.flatMap_cons, List.map_flatMap, List.flatMap_assoc]
  refine congrArg _ (List.flatMap_congr fun c hc => ?_)
  -- a child moves by one step for its place in the dump, and by the depth that the dump is moved to
  rw [← ih c hc (depth + 1), List.map_map]
  refine List.map_congr_left fun s _ => ?_
  rw [Function.comp_apply, ← String.append_assoc, margin_add]

/-- The dump of a tree with names of one line has one line for each node, in the order of the nodes. That of a node shows the
node itself and has two spaces before it for every node above, no more and no fewer. -/
theorem dump_lines (e : Expr) (h : e.Everywhere fun n => ∀ name ∈ n.names, OneLine name) :
    split '\n' e.dump = (e.preorder 0).map (fun p => margin p.1 ++ p.2.line) ∧
      (split '\n' e.dump).map leadingSpaces = (e.preorder 0).map fun p => 2 * p.1 := by
  have hline : ∀ p ∈ e.preorder 0, split '\n' p.2.line = [p.2.line] :=
    fun p hp => split_of_oneLine (p.2.oneLine_line.mpr (mem_preorder h 0 p hp))
  have hlines : split '\n' e.dump = (e.preorder 0).map fun p => margin p.1 ++ p.2.line := by
    have hdump := split_dump e 0
    rw [show (margin 0 ++ ·) = id from funext fun s => String.empty_append, List.map_id] at hdump
    rw [hdump, List.map_eq_flatMap]
    exact List.flatMap_congr fun p hp => by rw [hline p hp, List.map_singleton]
  refine ⟨hlines, ?_⟩
  rw [hlines, List.map_map]
  exact List.map_congr_left fun p _ => leadingSpaces_margin p.1 p.2.leadingSpaces_line

/-- A call of `f` with a list that holds a member behind a pointer, and with a null pointer. -/
def nestedCall : Expr :=
  let ball : Ty := .struct "Ball" [("mass", Ty.basic .float)] {}
  let p : Symbol := ⟨"p", .pointer ball {}, .parameter, none, none⟩
  let f : FunctionName := ⟨{}, "f", [⟨"f", .function .void [ball, p.type] false, .function, none, none⟩], {}⟩
  .call {} (.function f) [.list {} [.member {} (.symbol (.typed none p.type) p) "mass" true none], .null {}] false none none

theorem dump_lines_nestedCall :
    (nestedCall.Everywhere fun n => ∀ name ∈ n.names, OneLine name) ∧
      split '\n' nestedCall.dump =
        ["call", "  functionSymbol f", "  list", "    member ->mass", "      symbol p : uniform struct Ball * uniform",
          "  null"] ∧
      (split '\n' nestedCall.dump).map leadingSpaces = [0, 2, 2, 4, 6, 2] := by
  have h : nestedCall.Everywhere fun n => ∀ name ∈ n.names, OneLine name := by
    refine .node (by decide) fun c hc => ?_
    simp only [nestedCall, children, Option.toList, List.cons_append, List.nil_append, List.mem_cons, List.not_mem_nil,
      or_false] at hc
    rcases hc with rfl | rfl | rfl
    · exact .leaf (by decide) rfl
    · exact .one (by decide) rfl (.one (by decide) rfl (.leaf (by decide) rfl))
    · exact .leaf (by decide) rfl
  obtain ⟨hlines, hspaces⟩ := dump_lines nestedCall h
  exact ⟨h, hlines.trans (by decide +kernel), hspaces.trans (by decide +kernel)⟩

end Expr

end Spmd
