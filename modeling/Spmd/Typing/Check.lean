import Spmd.Typing.Access
import Spmd.Typing.Value

/-!
# Checking expressions

`Check.check` checks an expression from its leaves up and gives the typed expression, with every
implicit conversion written out, or nothing once a problem was reported. All operands are checked, and
each reports its own problems, before the form that joins them is. `Check.typecheck` also refuses an
overloaded name that nothing picked a function for.
-/

namespace Spmd.Check

def withBoth (left right : Option Expr) (next : Expr → Expr → Check (Option Expr)) :
    Check (Option Expr) :=
  match left, right with
  | some l, some r => next l r
  | _, _ => return none

def withOne (operand : Option Expr) (next : Expr → Check (Option Expr)) : Check (Option Expr) :=
  match operand with
  | some e => next e
  | none => return none

/-- An operand whose type is needed, given its check. -/
def needed (checked : Check (Option Expr)) : Check (Option Expr) := do resolved (← checked)


mutual
def check : Expr → Check (Option Expr)
  | .unary node op e => do withOne (← needed (check e)) (checkUnary node op)
  | .step node s e _ => do withOne (← needed (check e)) (checkStep node s)
  | .binary node op l r _ => do
    let l ← needed (check l)
    let r ← needed (check r)
    withBoth l r (checkBinary node op)
  | .assign node op t v _ => do
    let t ← needed (check t)
    let v ← if op = .plain then check v else needed (check v)
    withBoth t v (checkAssign node op)
  | .select node t a b => do
    let t ← needed (check t)
    let a ← needed (check a)
    let b ← needed (check b)
    withOne t fun t => withBoth a b (checkSelect node t)
  | .list node es => do
    match ← checkEach true es with
    | some es => checkList node es
    | none => return none
  | .call node c args launch count _ => do
    let c ← check c
    let args ← checkEach false args
    let count ← match count with
      | none => pure (some none)
      | some n => do pure ((← check n).map some)
    match c, args, count with
    | some c, some args, some count => checkCall node c args launch count
    | _, _, _ => return none
  | .index node b i => do
    let b ← needed (check b)
    let i ← needed (check i)
    withBoth b i (checkIndex node)
  | .member node b name arrow _ => do
    withOne (← needed (check b)) fun b => checkMember node b name arrow
  | .const node c => return some (.const node c)
  | .cast node t e _ => do withOne (← check e) (checkCast node t)
  | .reference node e => do withOne (← needed (check e)) (checkReference node)
  | .dereference node e => do withOne (← needed (check e)) (checkDereference node)
  | .addressOf node e => do withOne (← check e) (checkAddressOf node)
  | .sizeOf node e => do withOne (← needed (check e)) (checkSizeOf node)
  | .sizeOfType node t => checkSizeOfType node t
  | .symbol node s => return some (.symbol node s)
  | .function f => do
    let settled := f.settleType
    settled.note
    return some (.function settled)
  | .sync node => return some (.sync node)
  | .null node => return some (.null node)
  | .new node t count init varying => do
    if t.isVoid then reject node.place .voidAllocation
    else
      let count ← match count with
        | none => pure (some none)
        | some n => do pure ((← needed (check n)).map some)
      let init ← match init with
        | none => pure (some none)
        | some e => do pure ((← check e).map some)
      match count, init with
      | some count, some init => checkNew node t count init varying
      | _, _ => return none
/-- Checks every expression of a list; no result when one of them has none. The flag says whether
their types are needed. -/
def checkEach (typesNeeded : Bool) : List Expr → Check (Option (List Expr))
  | [] => return some []
  | e :: es => do
    let first ← if typesNeeded then needed (check e) else check e
    let rest ← checkEach typesNeeded es
    match first, rest with
    | some e, some es => return some (e :: es)
    | _, _ => return none
end

/-- Checks an expression whose value is used. -/
def typecheck (e : Expr) : Check (Option Expr) := needed (check e)

end Spmd.Check
