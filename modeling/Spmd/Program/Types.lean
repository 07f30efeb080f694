import Spmd.Program.Malformed

/-!
# Reading types

A type is written as a name with qualifiers, such as `const varying int32`, or as an object whose first
known key says how it is made. Names stand for scalars, for `void`, or for types defined before.
-/

namespace Spmd

abbrev TypeNames := List (String × Ty)

namespace TypeNames

/-- The type of a name. The names of scalars and `void` cannot be redefined. -/
def find? (names : TypeNames) (name : String) : Option Ty :=
  if name = "void" then some .void
  else
    match Kind.ofName? name with
    | some k => some (.basic k)
    | none => (names.reverse.find? fun entry => entry.1 == name).map Prod.snd

/-! ## Names with qualifiers -/

/-- The qualifiers in front of a name, which may be repeated except for the variability. -/
structure Written where
  variability : Option Variability := none
  isConst : Bool := false

def Written.add (path : Path) (text word : String) (q : Written) : Read Written :=
  let vary (v : Variability) : Read Written :=
    if q.variability.isSome then Read.fail path (.conflictingQualifiers text)
    else .ok { q with variability := some v }
  match word with
  | "const" => .ok { q with isConst := true }
  | "uniform" => vary .uniform
  | "varying" => vary .varying
  | _ => Read.fail path (.unknownQualifier word text)

def Written.qualify (q : Written) (type : Ty) : Ty :=
  let type := match q.variability with
    | some v => type.withVariability v
    | none => type
  if q.isConst then type.asConst else type

/-- A name, the last word of a text, with the qualifiers before it. -/
def readName (names : TypeNames) (path : Path) (text : String) : Read Ty := do
  let words := Text.words text
  let name := words.getLastD ""
  let q ← words.dropLast.foldlM (fun (q : Written) word => q.add path text word) {}
  match names.find? name with
  | some type => .ok (q.qualify type)
  | none => Read.fail path (.unknownTypeName name)

/-! ## Objects -/

/-- The keys that say how a type is made, in the order they are looked for. -/
inductive Form where
  | pointer | array | vector | struct | enumeration | function | reference
  deriving DecidableEq

def Form.key : Form → String
  | .pointer => "pointer"
  | .array => "array"
  | .vector => "vector"
  | .struct => "struct"
  | .enumeration => "enum"
  | .function => "function"
  | .reference => "reference"

def Form.all : List Form := [.pointer, .array, .vector, .struct, .enumeration, .function, .reference]

def Form.of? (fields : List (String × Json)) : Option Form :=
  all.find? fun form => (Json.lookup? form.key fields).isSome

def readQualifiers (path : Path) (fields : List (String × Json)) : Read Qualifiers :=
  let isConst := Read.isTrue (Json.lookup? "const" fields)
  match Json.present? (Json.lookup? "variability" fields) with
  | none | some (.string "uniform") => .ok ⟨.uniform, isConst⟩
  | some (.string "varying") => .ok ⟨.varying, isConst⟩
  | some _ => Read.fail (path.field "variability") .notVariability

def readSize (path : Path) (fields : List (String × Json)) : Read (Option Nat) :=
  match Json.lookup? "count" fields with
  | none => .ok none
  | some n => some <$> Read.count (path.field "count") (some n)

def readEnumerators (path : Path) : Nat → List Json → Read (List String)
  | _, [] => .ok []
  | i, j :: js => do .ok ((← Read.string (path.item i) (some j)) :: (← readEnumerators path (i + 1) js))

def readEnumeration (path : Path) (fields : List (String × Json)) : Read Ty := do
  let name ← Read.string (path.field "enum") (Json.lookup? "enum" fields)
  let listPath := path.field "enumerators"
  let items ← Read.items listPath (Json.lookup? "enumerators" fields)
  let enumerators ← readEnumerators listPath 0 items
  .ok (.scalar ⟨.enumeration name enumerators, ← readQualifiers path fields, none⟩)

def readVector (path : Path) (element : Ty) (fields : List (String × Json)) : Read Ty :=
  match element with
  | .scalar s => do .ok (.vector s (← Read.count (path.field "count") (Json.lookup? "count" fields)))
  | t => Read.fail (path.field "vector") (.vectorElement t)

def readReference (path : Path) (target : Ty) : Read Ty :=
  if target.isReference then Read.fail path .referenceToReference else .ok (.reference target)

/-! ## Types -/

mutual
def read (names : TypeNames) (path : Path) : Json → Read Ty
  | .string text => names.readName path text
  | .object fields =>
    match Form.of? fields with
    | some .pointer => do
      let pointee ← readField names (path.field "pointer") "pointer" fields
      .ok (.pointer pointee (← readQualifiers path fields))
    | some .array => do
      let size ← readSize path fields
      Read.lift (Ty.arrayOf (← readField names (path.field "array") "array" fields) size)
    | some .vector => do
      readVector path (← readField names (path.field "vector") "vector" fields) fields
    | some .struct => do
      let name ← Read.string (path.field "struct") (Json.lookup? "struct" fields)
      let members ← readMembersField names (path.field "members") fields
      .ok (.struct name members (← readQualifiers path fields))
    | some .enumeration => readEnumeration path fields
    | some .function => do
      let parameters ← readParametersField names (path.field "parameters") fields
      let result ← readField names (path.field "function") "function" fields
      .ok (.function result parameters (Read.isTrue (Json.lookup? "task" fields)))
    | some .reference => do
      readReference path (← readField names (path.field "reference") "reference" fields)
    | none => Read.fail path (.unknownType (.object fields))
  | _ => Read.fail path .notObject
def readField (names : TypeNames) (path : Path) (key : String) : List (String × Json) → Read Ty
  | [] => Read.fail path .notObject
  | (k, json) :: rest => if k = key then read names path json else readField names path key rest
def readMembersField (names : TypeNames) (path : Path) :
    List (String × Json) → Read (List (String × Ty))
  | [] => Read.fail path .notArray
  | (k, json) :: rest =>
    if k = "members" then
      match json with
      | .array items => readMembers names path 0 items
      | _ => Read.fail path .notArray
    else readMembersField names path rest
def readMembers (names : TypeNames) (path : Path) : Nat → List Json → Read (List (String × Ty))
  | _, [] => .ok []
  | i, j :: js => do
    let member ← match j with
      | .object fields => do
        let name ← Read.string ((path.item i).field "name") (Json.lookup? "name" fields)
        pure (name, ← readField names ((path.item i).field "type") "type" fields)
      | _ => Read.fail (path.item i) .notObject
    .ok (member :: (← readMembers names path (i + 1) js))
/-- The parameters of a function, none unless stated. -/
def readParametersField (names : TypeNames) (path : Path) : List (String × Json) → Read (List Ty)
  | [] => .ok []
  | (k, json) :: rest =>
    if k = "parameters" then
      match json with
      | .null => .ok []
      | .array items => readAll names path 0 items
      | _ => Read.fail path .notArray
    else readParametersField names path rest
def readAll (names : TypeNames) (path : Path) : Nat → List Json → Read (List Ty)
  | _, [] => .ok []
  | i, j :: js => do .ok ((← read names (path.item i) j) :: (← readAll names path (i + 1) js))
end

/-! ## Definitions -/

/-- Reads definitions in turn; each can use the names before it. What a name then stands for is made
of the name and the type that was read. -/
def define (make : String → Ty → Ty) (names : TypeNames) : List (String × Json) → Read TypeNames
  | [] => .ok names
  | (name, json) :: rest => do
    let type ← names.read ((Path.root "types").field name) json
    define make (names ++ [(name, make name type)]) rest

end TypeNames

end Spmd
