import Spmd.Expr.Basic

/-!
# Text of expressions

`Expr.text` writes an expression on one line and `Expr.dump` writes its tree, one node per line.
-/

namespace Spmd.Expr

/-! ## One line -/

mutual
def text : Expr → String
  | unary _ op e => op.text ++ "(" ++ e.text ++ ")"
  | step _ s e _ =>
    if s.isPost then "(" ++ e.text ++ ")" ++ s.sign else s.sign ++ "(" ++ e.text ++ ")"
  | binary _ op l r _ => "(" ++ l.text ++ ") " ++ op.text ++ " (" ++ r.text ++ ")"
  | assign _ op t v _ => t.text ++ " " ++ op.text ++ " " ++ v.text
  | select _ t a b => "(" ++ t.text ++ ") ? (" ++ a.text ++ ") : (" ++ b.text ++ ")"
  | list _ es => "\x7b " ++ Text.commas (texts es) ++ " \x7d"
  | call _ c args launch count _ =>
    let applied := c.text ++ "(" ++ Text.commas (texts args) ++ ")"
    let times := match count with
      | some n => n.text
      | none => "1"
    if launch then "launch[" ++ times ++ "] " ++ applied else applied
  | index _ b i => "(" ++ b.text ++ ")[" ++ i.text ++ "]"
  | member _ b name arrow _ => "(" ++ b.text ++ ")" ++ (if arrow then "->" else ".") ++ name
  | const _ c => c.text
  | cast _ t e _ => "<" ++ t.text ++ ">(" ++ e.text ++ ")"
  | reference _ e => "ref(" ++ e.text ++ ")"
  | dereference _ e => "*(" ++ e.text ++ ")"
  | addressOf _ e => "&(" ++ e.text ++ ")"
  | sizeOf _ e => "sizeof(" ++ e.text ++ ")"
  | sizeOfType _ t => "sizeof(" ++ t.text ++ ")"
  | symbol _ s => s.name
  | function f => f.name
  | sync _ => "sync"
  | null _ => "NULL"
  | new _ t count init varying =>
    let times := match count with
      | some n => "[" ++ n.text ++ "]"
      | none => ""
    let first := match init with
      | some e => "(" ++ e.text ++ ")"
      | none => ""
    "new " ++ (if varying then "varying " else "") ++ t.text ++ times ++ first
def texts : List Expr → List String
  | [] => []
  | e :: es => e.text :: texts es
end

/-! ## One node -/

def kindName : Expr → String
  | unary .. | step .. => "unary"
  | binary .. => "binary"
  | assign .. => "assign"
  | select .. => "select"
  | list .. => "list"
  | call .. => "call"
  | index .. => "index"
  | member .. => "member"
  | const .. => "const"
  | cast .. => "cast"
  | reference .. => "reference"
  | dereference .. => "dereference"
  | addressOf .. => "addressOf"
  | sizeOf .. | sizeOfType .. => "sizeOf"
  | symbol .. => "symbol"
  | function .. => "functionSymbol"
  | sync .. => "sync"
  | null .. => "null"
  | new .. => "new"

/-- What tells a node from others of its kind, apart from its children. -/
def label : Expr → String
  | unary _ op _ => op.text
  | step _ s .. => s.text
  | binary _ op .. => op.text
  | assign _ op .. => op.text
  | member _ _ name arrow _ => (if arrow then "->" else ".") ++ name
  | const _ c => c.text
  | cast _ t .. => "<" ++ t.text ++ ">"
  | symbol _ s => s.name
  | function f => f.name
  | _ => ""

/-- The line of a node in a dump: its kind, its label, and its type once it has one. -/
def line (e : Expr) : String :=
  e.kindName ++ (if e.label = "" then "" else " " ++ e.label) ++
    (match e.type? with
     | some t => " : " ++ t.text
     | none => "")

/-! ## The tree -/

/-- The dump of a child, one step to the right on a line of its own. -/
def nested (dumped : String) : String := "\n  " ++ Text.indent dumped 1

mutual
def dump : Expr → String
  | e@(unary _ _ a) => e.line ++ nested a.dump
  | e@(step _ _ a _) => e.line ++ nested a.dump
  | e@(binary _ _ l r _) => e.line ++ nested l.dump ++ nested r.dump
  | e@(assign _ _ t v _) => e.line ++ nested t.dump ++ nested v.dump
  | e@(select _ t a b) => e.line ++ nested t.dump ++ nested a.dump ++ nested b.dump
  | e@(list _ es) => e.line ++ dumpAll es
  | e@(call _ c args _ count _) =>
    e.line ++ nested c.dump ++ dumpAll args ++
      (match count with
       | some n => nested n.dump
       | none => "")
  | e@(index _ b i) => e.line ++ nested b.dump ++ nested i.dump
  | e@(member _ b _ _ _) => e.line ++ nested b.dump
  | e@(cast _ _ a _) => e.line ++ nested a.dump
  | e@(reference _ a) => e.line ++ nested a.dump
  | e@(dereference _ a) => e.line ++ nested a.dump
  | e@(addressOf _ a) => e.line ++ nested a.dump
  | e@(sizeOf _ a) => e.line ++ nested a.dump
  | e@(new _ _ count init _) =>
    e.line ++
      (match count with
       | some n => nested n.dump
       | none => "") ++
      (match init with
       | some a => nested a.dump
       | none => "")
  | e@(const ..) => e.line
  | e@(sizeOfType ..) => e.line
  | e@(symbol ..) => e.line
  | e@(function ..) => e.line
  | e@(sync ..) => e.line
  | e@(null ..) => e.line
def dumpAll : List Expr → String
  | [] => ""
  | e :: es => nested e.dump ++ dumpAll es
end

end Spmd.Expr
