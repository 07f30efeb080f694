import Spmd.Session

/-!
# Shared nodes

Several trees can share a node: nodes with one tag are one node. What a pass finds out about a function
name, and a type or a place given to a node, then holds in every tree that has the node.
-/

namespace Spmd.Expr

/-! ## Walks -/

mutual
/-- Rebuilds a tree from its leaves up. -/
def traverse {m : Type → Type} [Monad m] (f : Expr → m Expr) : Expr → m Expr
  | unary n op e => do f (unary n op (← e.traverse f))
  | step n s e amount => do f (step n s (← e.traverse f) amount)
  | binary n op l r reported => do
    let l ← l.traverse f
    let r ← r.traverse f
    f (binary n op l r reported)
  | assign n op t v operandType => do
    let t ← t.traverse f
    let v ← v.traverse f
    f (assign n op t v operandType)
  | select n t a b => do
    let t ← t.traverse f
    let a ← a.traverse f
    let b ← b.traverse f
    f (select n t a b)
  | list n es => do f (list n (← traverseAll f es))
  | call n c args launch count signature => do
    let c ← c.traverse f
    let args ← traverseAll f args
    let count ← match count with
      | some e => do pure (some (← e.traverse f))
      | none => pure none
    f (call n c args launch count signature)
  | index n b i => do
    let b ← b.traverse f
    let i ← i.traverse f
    f (index n b i)
  | member n b name arrow access => do f (member n (← b.traverse f) name arrow access)
  | const n c => f (const n c)
  | cast n t e reported => do f (cast n t (← e.traverse f) reported)
  | reference n e => do f (reference n (← e.traverse f))
  | dereference n e => do f (dereference n (← e.traverse f))
  | addressOf n e => do f (addressOf n (← e.traverse f))
  | sizeOf n e => do f (sizeOf n (← e.traverse f))
  | sizeOfType n t => f (sizeOfType n t)
  | symbol n s => f (symbol n s)
  | function g => f (function g)
  | sync n => f (sync n)
  | null n => f (null n)
  | new n t count init varying => do
    let count ← match count with
      | some e => do pure (some (← e.traverse f))
      | none => pure none
    let init ← match init with
      | some e => do pure (some (← e.traverse f))
      | none => pure none
    f (new n t count init varying)
def traverseAll {m : Type → Type} [Monad m] (f : Expr → m Expr) : List Expr → m (List Expr)
  | [] => return []
  | e :: es => do
    let e ← e.traverse f
    let es ← traverseAll f es
    return e :: es
end

def mapTree (f : Expr → Expr) (e : Expr) : Expr := Id.run (e.traverse fun e => pure (f e))

/-! ## Tags -/

/-- Gives a node the next tag, unless it has one. -/
def tagNode (e : Expr) : StateM Nat Expr := do
  match e.node.tag with
  | some _ => return e
  | none => do
    let next ← get
    set (next + 1)
    return e.mapNode fun n => { n with tag := some next }

def withTags (e : Expr) : StateM Nat Expr := e.traverse tagNode

def updateTagged (tag : Nat) (f : Node → Node) (e : Expr) : Expr :=
  e.mapTree fun e => if e.node.tag = some tag then e.mapNode f else e

/-! ## Findings -/

/-- Takes over what was last found out about a function name. -/
def learn (findings : List Finding) (e : Expr) : Expr :=
  match e with
  | function g =>
    match g.node.tag.bind fun tag => findings.reverse.find? fun x => x.tag == tag with
    | some x => function { g with choice := x.choice, node := { g.node with type := x.type } }
    | none => function g
  | e => e

/-- Takes over what was found out about every function name in a tree. -/
def refresh (findings : List Finding) (e : Expr) : Expr := e.mapTree (learn findings)

end Spmd.Expr
