import Spmd.Expr.Sharing

/-!
# Forests

A forest holds trees that share nodes, in the order they were added. Passes over one tree keep all the
others up to date. A place in the forest may be empty, where a pass had no result.
-/

namespace Spmd

structure Forest where
  session : Session
  trees : List (Option Expr) := []
  nextTag : Nat := 0
  deriving Inhabited

namespace Forest

def tree? (f : Forest) (index : Nat) : Option Expr := (f.trees[index]?).join

/-- Adds a tree at the end. Its new nodes are its own until another tree takes them over. -/
def add (f : Forest) (e : Option Expr) : Option Expr × Forest :=
  match e with
  | none => (none, { f with trees := f.trees ++ [none] })
  | some e =>
    let (tagged, nextTag) := e.withTags.run f.nextTag
    (some tagged, { f with trees := f.trees ++ [some tagged], nextTag })

def ofTrees (target : Target) (trees : List Expr) : Forest :=
  trees.foldl (fun f e => (f.add (some e)).2) { session := { target } }

/-- Runs a pass and tells every tree what it found out. -/
def run {α : Type} (f : Forest) (pass : Check α) : Except Fault α × Forest :=
  let (result, session) := pass.run f.session
  let trees := f.trees.map fun e => e.map (Expr.refresh session.findings)
  (result, { f with session := { session with findings := [] }, trees })

/-- Changes a node in every tree that has it. -/
def update (f : Forest) (tag : Option Nat) (change : Node → Node) : Forest :=
  match tag with
  | some tag => { f with trees := f.trees.map fun e => e.map (Expr.updateTagged tag change) }
  | none => f

def setPlace (f : Forest) (e : Expr) (place : Option Location) : Forest :=
  f.update e.node.tag fun n => { n with place }

/-- Gives a node its type. A node has one type only, which may be given again if it is a defined
one; a type that only looks the same is another one. -/
def setType (f : Forest) (e : Expr) (type : Ty) : Except Fault Forest :=
  match e.type? with
  | some previous =>
    if previous.isOne type then .ok f else .error (.alreadySet "type" previous.text type.text)
  | none => .ok (f.update e.node.tag fun n => { n with type := some type })

end Forest

end Spmd
