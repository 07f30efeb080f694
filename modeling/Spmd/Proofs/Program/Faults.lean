import Spmd.Proofs.Program.Loaded

/-!
# Faults of reading

Whatever JSON value it is given, reading ends with a program or says what is malformed, but for one case: an array whose
elements are `void` is a fault (`read_settles`).
-/

namespace Spmd

/-! ## Parts of values -/

/-- A value that a value is, or contains at any depth. -/
inductive Json.Part : Json → Json → Prop
  | whole (json : Json) : Part json json
  | item {part item : Json} {items : List Json} (mem : item ∈ items) (inside : Part part item) : Part part (.array items)
  | field {part value : Json} {key : String} {fields : List (String × Json)} (mem : (key, value) ∈ fields)
      (inside : Part part value) : Part part (.object fields)

namespace Json

theorem Part.trans {a b c : Json} (hab : Part a b) (hbc : Part b c) : Part a c := by
  induction hbc with
  | whole => exact hab
  | item mem _ ih => exact .item mem ih
  | field mem _ ih => exact .field mem ih

theorem mem_of_lookup {key : String} {value : Json} : ∀ {fields : List (String × Json)},
    lookup? key fields = some value → (key, value) ∈ fields
  | [], h => by cases h
  | (k, v) :: rest, h => by
    unfold lookup? at h
    split at h
    · rename_i hk
      cases h
      exact hk ▸ List.mem_cons_self
    · exact List.mem_cons_of_mem _ (mem_of_lookup h)

theorem Part.lookup {key : String} {value : Json} {fields : List (String × Json)} (h : lookup? key fields = some value) :
    Part value (.object fields) := .field (mem_of_lookup h) (.whole value)

end Json

/-! ## Arrays of `void` -/

/-- A part of the value makes an array, and with these names its elements are `void`. -/
def TypeNames.VoidArrayIn (names : TypeNames) (json : Json) : Prop :=
  ∃ fields path element, Json.Part (.object fields) json ∧ Form.of? fields = some .array ∧
    readField names path "array" fields = .ok element ∧ element.isVoid = true

theorem TypeNames.VoidArrayIn.mono {names : TypeNames} {part json : Json} (h : names.VoidArrayIn part)
    (hp : Json.Part part json) : names.VoidArrayIn json := by
  obtain ⟨fields, path, element, hfields, harray, hread, hvoid⟩ := h
  exact ⟨fields, path, element, hfields.trans hp, harray, hread, hvoid⟩

namespace TypeNames

/-- One of the values has such a part. -/
def VoidArrayAmong (names : TypeNames) (values : List Json) : Prop := ∃ value ∈ values, names.VoidArrayIn value

section
variable {names : TypeNames} {value : Json} {values : List Json}

theorem VoidArrayAmong.head (h : names.VoidArrayIn value) : names.VoidArrayAmong (value :: values) :=
  ⟨value, List.mem_cons_self, h⟩

theorem VoidArrayAmong.tail (h : names.VoidArrayAmong values) : names.VoidArrayAmong (value :: values) := by
  obtain ⟨v, hv, h⟩ := h
  exact ⟨v, List.mem_cons_of_mem value hv, h⟩

theorem VoidArrayAmong.array (h : names.VoidArrayAmong values) : names.VoidArrayIn (.array values) := by
  obtain ⟨v, hv, h⟩ := h
  exact h.mono (.item hv (.whole v))

theorem VoidArrayAmong.object {fields : List (String × Json)} (h : names.VoidArrayAmong (fields.map Prod.snd)) :
    names.VoidArrayIn (.object fields) := by
  obtain ⟨v, hv, h⟩ := h
  obtain ⟨⟨key, _⟩, hm, rfl⟩ := List.mem_map.mp hv
  exact h.mono (.field hm (.whole _))

end

end TypeNames

namespace Read

variable {α β : Type} {P Q : Prop}

/-- The only fault that reading can end with is an array of `void`, and only under a condition. -/
def FaultsOnlyIf (P : Prop) (m : Read α) : Prop := ∀ f, m = .error (.fault f) → f = .arrayOfVoid ∧ P

theorem faults_ok (x : α) : FaultsOnlyIf P (.ok x : Read α) := fun _ h => by cases h

theorem faults_fail (path : Path) (problem : Malformation) : FaultsOnlyIf P (fail path problem : Read α) :=
  fun _ h => by cases h

theorem FaultsOnlyIf.mono {m : Read α} (h : FaultsOnlyIf P m) (hPQ : P → Q) : FaultsOnlyIf Q m :=
  fun f hf => ⟨(h f hf).1, hPQ (h f hf).2⟩

theorem FaultsOnlyIf.bind {m : Read β} {k : β → Read α} (h : FaultsOnlyIf P m)
    (hk : ∀ b, m = .ok b → FaultsOnlyIf P (k b)) : FaultsOnlyIf P (m >>= k) := by
  cases m with
  | error e => exact fun f hf => h f (by cases hf; rfl)
  | ok b => exact hk b rfl

theorem FaultsOnlyIf.map {m : Read β} {g : β → α} (h : FaultsOnlyIf P m) : FaultsOnlyIf P (g <$> m) := by
  cases m with
  | error e => exact fun f hf => h f (by cases hf; rfl)
  | ok b => exact faults_ok _

end Read

namespace Read

/-! ## Simple values -/

variable {P : Prop} (path : Path) (json : Option Json)

theorem fields_faults : FaultsOnlyIf P (fields path json) := by
  unfold fields
  split
  · exact faults_ok _
  · exact faults_fail _ _

theorem items_faults : FaultsOnlyIf P (items path json) := by
  unfold items
  split
  · exact faults_ok _
  · exact faults_fail _ _

theorem string_faults : FaultsOnlyIf P (string path json) := by
  unfold string
  split
  · exact faults_ok _
  · exact faults_fail _ _

theorem count_faults : FaultsOnlyIf P (count path json) := by
  unfold count
  dsimp only
  split
  · exact faults_ok _
  · exact faults_fail _ _

theorem faults_lift {α : Type} {x : Except Fault α} (h : ∃ a, x = .ok a) : FaultsOnlyIf P (lift x) := by
  obtain ⟨a, rfl⟩ := h
  exact faults_ok a

end Read

open Read

/-! ## Types -/

namespace TypeNames

section
variable {P : Prop} (path : Path) (fields : List (String × Json))

theorem add_faults (text word : String) (q : Written) : FaultsOnlyIf P (q.add path text word) := by
  have vary : ∀ v, FaultsOnlyIf P (if q.variability.isSome then fail path (.conflictingQualifiers text)
      else .ok { q with variability := some v } : Read Written) := by
    intro v
    split
    · exact faults_fail _ _
    · exact faults_ok _
  unfold Written.add
  dsimp only
  split
  · exact faults_ok _
  · exact vary _
  · exact vary _
  · exact faults_fail _ _

theorem readName_faults (names : TypeNames) (text : String) : FaultsOnlyIf P (names.readName path text) := by
  have words : ∀ (ws : List String) (q : Written),
      FaultsOnlyIf P (ws.foldlM (fun (q : Written) word => q.add path text word) q) := by
    intro ws
    induction ws with
    | nil => exact fun q => faults_ok q
    | cons w ws ih =>
      intro q
      rw [List.foldlM_cons]
      exact (add_faults path text w q).bind fun q' _ => ih q'
  unfold readName
  refine (words _ _).bind fun q _ => ?_
  split
  · exact faults_ok _
  · exact faults_fail _ _

theorem readQualifiers_faults : FaultsOnlyIf P (readQualifiers path fields) := by
  unfold readQualifiers
  dsimp only
  split
  · exact faults_ok _
  · exact faults_ok _
  · exact faults_ok _
  · exact faults_fail _ _

theorem readSize_faults : FaultsOnlyIf P (readSize path fields) := by
  unfold readSize
  split
  · exact faults_ok _
  · exact (count_faults _ _).map

theorem readEnumerators_faults : ∀ (items : List Json) (i : Nat), FaultsOnlyIf P (readEnumerators path i items)
  | [], _ => faults_ok _
  | j :: js, i => by
    unfold readEnumerators
    exact (string_faults _ _).bind fun _ _ => (readEnumerators_faults js (i + 1)).bind fun _ _ => faults_ok _

theorem readEnumeration_faults : FaultsOnlyIf P (readEnumeration path fields) := by
  unfold readEnumeration
  refine (string_faults _ _).bind fun _ _ => (items_faults _ _).bind fun items _ => ?_
  refine (readEnumerators_faults _ items 0).bind fun _ _ => ?_
  exact (readQualifiers_faults path fields).bind fun _ _ => faults_ok _

theorem readVector_faults (element : Ty) : FaultsOnlyIf P (readVector path element fields) := by
  unfold readVector
  split
  · exact (count_faults _ _).bind fun _ _ => faults_ok _
  · exact faults_fail _ _

theorem readReference_faults (target : Ty) : FaultsOnlyIf P (readReference path target) := by
  unfold readReference
  split
  · exact faults_fail _ _
  · exact faults_ok _

end

section
variable {names : TypeNames}

/-- Only an array can fault, and only when its elements are `void`. -/
theorem readArray_faults {path : Path} {fields : List (String × Json)} {element : Ty} (size : Option Nat)
    (harray : Form.of? fields = some .array) (hread : readField names path "array" fields = .ok element) :
    FaultsOnlyIf (names.VoidArrayIn (.object fields)) (lift (Ty.arrayOf element size)) := by
  intro f hf
  unfold Ty.arrayOf at hf
  split at hf
  · rename_i hvoid
    cases hf
    exact ⟨rfl, fields, path, element, .whole _, harray, hread, hvoid⟩
  · cases hf

mutual
theorem read_faults : ∀ (json : Json) (path : Path), FaultsOnlyIf (names.VoidArrayIn json) (names.read path json)
  | .string text, path => readName_faults path names text
  | .object fields, path => by
    have field : ∀ path key, FaultsOnlyIf (names.VoidArrayIn (.object fields)) (readField names path key fields) :=
      fun path key => (readField_faults fields path key).mono VoidArrayAmong.object
    have qualifiers := readQualifiers_faults (P := names.VoidArrayIn (.object fields)) path fields
    unfold read
    split
    · exact (field _ _).bind fun _ _ => qualifiers.bind fun _ _ => faults_ok _
    · rename_i harray
      refine (readSize_faults path fields).bind fun size _ => (field _ _).bind fun element he => ?_
      exact readArray_faults size harray he
    · exact (field _ _).bind fun element _ => readVector_faults path fields element
    · refine (string_faults _ _).bind fun name _ => ?_
      refine FaultsOnlyIf.bind ((readMembersField_faults fields _).mono VoidArrayAmong.object) fun _ _ => ?_
      exact qualifiers.bind fun _ _ => faults_ok _
    · exact readEnumeration_faults path fields
    · refine FaultsOnlyIf.bind ((readParametersField_faults fields _).mono VoidArrayAmong.object) fun _ _ => ?_
      exact (field _ _).bind fun _ _ => faults_ok _
    · exact (field _ _).bind fun target _ => readReference_faults path target
    · exact faults_fail _ _
  | .null, _ | .bool _, _ | .number _, _ | .array _, _ => faults_fail _ _
theorem readField_faults : ∀ (fields : List (String × Json)) (path : Path) (key : String),
    FaultsOnlyIf (names.VoidArrayAmong (fields.map Prod.snd)) (readField names path key fields)
  | [], _, _ => faults_fail _ _
  | (k, json) :: rest, path, key => by
    rw [readField]
    split
    · exact (read_faults json path).mono VoidArrayAmong.head
    · exact (readField_faults rest path key).mono VoidArrayAmong.tail
theorem readMembersField_faults : ∀ (fields : List (String × Json)) (path : Path),
    FaultsOnlyIf (names.VoidArrayAmong (fields.map Prod.snd)) (readMembersField names path fields)
  | [], _ => faults_fail _ _
  | (k, json) :: rest, path => by
    unfold readMembersField
    split
    · split
      · exact (readMembers_faults _ path 0).mono fun h => VoidArrayAmong.head h.array
      · exact faults_fail _ _
    · exact (readMembersField_faults rest path).mono VoidArrayAmong.tail
theorem readMembers_faults : ∀ (items : List Json) (path : Path) (i : Nat),
    FaultsOnlyIf (names.VoidArrayAmong items) (readMembers names path i items)
  | [], _, _ => faults_ok _
  | .object fields :: js, path, i => by
    unfold readMembers
    refine FaultsOnlyIf.bind (string_faults _ _) fun name _ => ?_
    refine FaultsOnlyIf.bind ((readField_faults fields _ _).mono fun h => VoidArrayAmong.head h.object) fun type _ => ?_
    refine FaultsOnlyIf.bind (faults_ok _) fun _ _ => ?_
    exact FaultsOnlyIf.bind ((readMembers_faults js path (i + 1)).mono VoidArrayAmong.tail) fun _ _ => faults_ok _
  | .null :: js, path, i | .bool _ :: js, path, i | .number _ :: js, path, i | .string _ :: js, path, i
  | .array _ :: js, path, i => by
    unfold readMembers
    exact FaultsOnlyIf.bind (faults_fail _ _) fun _ h => by cases h
theorem readParametersField_faults : ∀ (fields : List (String × Json)) (path : Path),
    FaultsOnlyIf (names.VoidArrayAmong (fields.map Prod.snd)) (readParametersField names path fields)
  | [], _ => faults_ok _
  | (k, json) :: rest, path => by
    unfold readParametersField
    split
    · split
      · exact faults_ok _
      · exact (readAll_faults _ path 0).mono fun h => VoidArrayAmong.head h.array
      · exact faults_fail _ _
    · exact (readParametersField_faults rest path).mono VoidArrayAmong.tail
theorem readAll_faults : ∀ (items : List Json) (path : Path) (i : Nat),
    FaultsOnlyIf (names.VoidArrayAmong items) (readAll names path i items)
  | [], _, _ => faults_ok _
  | j :: js, path, i => by
    unfold readAll
    refine FaultsOnlyIf.bind ((read_faults j _).mono VoidArrayAmong.head) fun _ _ => ?_
    exact FaultsOnlyIf.bind ((readAll_faults js path (i + 1)).mono VoidArrayAmong.tail) fun _ _ => faults_ok _
end

end

/-- A definition faults at an array of `void`, as the definitions before it have named types. -/
theorem define_faults {make : String → Ty → Ty} : ∀ {defs : List (String × Json)} {names : TypeNames},
    FaultsOnlyIf (∃ first name json, first ++ [(name, json)] <+: defs ∧ ∃ defined,
      define make names first = .ok defined ∧ defined.VoidArrayIn json) (define make names defs)
  | [], _ => faults_ok _
  | (name, json) :: defs, names => by
    rw [define]
    refine FaultsOnlyIf.bind ((read_faults json _).mono fun h => ?_) fun t ht => (define_faults).mono ?_
    · exact ⟨[], name, json, by simp, names, rfl, h⟩
    · rintro ⟨first, name', json', hp, defined, hdefined, h⟩
      refine ⟨(name, json) :: first, name', json', by simpa using hp, defined, ?_, h⟩
      rw [define, ht]
      exact hdefined

end TypeNames

/-! ## Symbols -/

namespace Scope

variable {scope : Scope}

theorem readScalar_faults {P : Prop} (path : Path) (element : Element) (json : Json) :
    FaultsOnlyIf P (readScalar path element json) := by
  unfold readScalar
  split
  · split
    · exact faults_ok _
    · exact faults_fail _ _
  · split
    · exact faults_ok _
    · split
      · exact faults_ok _
      · exact faults_fail _ _
    · exact faults_fail _ _

theorem readLanes_faults {P : Prop} (path : Path) (element : Element) : ∀ (items : List Json) (i : Nat),
    FaultsOnlyIf P (readLanes path element i items)
  | [], _ => faults_ok _
  | j :: js, i => by
    unfold readLanes
    refine (readScalar_faults _ _ j).bind fun _ _ => ?_
    exact (readLanes_faults path element js (i + 1)).bind fun _ _ => faults_ok _

theorem readScalars_faults {P : Prop} (path : Path) (element : Element) (q : Qualifiers) (json : Json) :
    FaultsOnlyIf P (scope.readScalars path element q json) := by
  unfold readScalars
  dsimp only
  split
  · split
    · exact readLanes_faults path element _ 0
    · exact faults_fail _ _
  · exact (readScalar_faults path element _).bind fun _ _ => faults_ok _

theorem readStorage_faults {P : Prop} (path : Path) (type : Ty) (fields : List (String × Json)) :
    FaultsOnlyIf P (readStorage path type fields) := by
  unfold readStorage
  split
  · exact faults_ok _
  · split
    · exact faults_ok _
    · exact faults_fail _ _
  · exact faults_fail _ _

/-- The scalars that were read are as many as the type has room for. -/
theorem readValue_faults {P : Prop} (path : Path) (type : Ty) (fields : List (String × Json)) :
    FaultsOnlyIf P (scope.readValue path type fields) := by
  unfold readValue
  split
  · exact faults_ok _
  · split
    · rename_i s
      split
      · exact faults_fail _ _
      · refine (readScalars_faults _ _ _ _).bind fun xs hxs => FaultsOnlyIf.bind (faults_lift ?_) fun _ _ => faults_ok _
        obtain ⟨c, hc, -⟩ := Constant.create_ok scope.target.width s.element.kind xs ((length_readScalars hxs).imp id And.right)
        exact ⟨c, hc⟩
    · exact faults_fail _ _

theorem readSymbol_faults (path : Path) (json : Json) :
    FaultsOnlyIf (scope.types.VoidArrayIn json) (scope.readSymbol path json) := by
  unfold readSymbol
  refine (fields_faults _ _).bind fun fields hfields => (string_faults _ _).bind fun name _ => ?_
  have hjson : json = .object fields := by
    cases json <;> cases hfields
    rfl
  subst hjson
  have rest : ∀ type, FaultsOnlyIf (scope.types.VoidArrayIn (.object fields)) (do
      let storage ← readStorage path type fields
      let value ← scope.readValue (path.field "value") type fields
      let symbol : Symbol := ⟨name, type, storage, scope.place fields, value⟩
      let existing := scope.named name
      if !existing.isEmpty && !(symbol.isFunction && existing.all Symbol.isFunction) then
        Read.fail (path.field "name") (.redefinition name)
      else .ok symbol : Read Symbol) := by
    intro type
    refine (readStorage_faults path type fields).bind fun _ _ => (readValue_faults _ type fields).bind fun _ _ => ?_
    dsimp only
    split
    · exact faults_fail _ _
    · exact faults_ok _
  dsimp only
  split
  · rename_i t ht
    exact FaultsOnlyIf.bind ((TypeNames.read_faults t _).mono fun h => h.mono (.lookup ht)) fun type _ => rest type
  · exact FaultsOnlyIf.bind (faults_fail _ _) fun _ h => by cases h

theorem declare_faults : ∀ {items : List Json} {i : Nat} {scope : Scope},
    FaultsOnlyIf (scope.types.VoidArrayAmong items) (scope.declare i items)
  | [], _, _ => faults_ok _
  | j :: js, i, scope => by
    rw [declare]
    refine FaultsOnlyIf.bind ((readSymbol_faults _ j).mono TypeNames.VoidArrayAmong.head) fun symbol _ => ?_
    have hrest : FaultsOnlyIf (scope.types.VoidArrayAmong js)
        (declare { scope with symbols := scope.symbols ++ [symbol] } (i + 1) js) := declare_faults
    exact hrest.mono TypeNames.VoidArrayAmong.tail

theorem types_declare : ∀ {items : List Json} {i : Nat} {scope declared : Scope}, scope.declare i items = .ok declared →
    declared.types = scope.types
  | [], _, _, _, h => by cases h; rfl
  | j :: js, i, scope, declared, h => by
    rw [declare] at h
    obtain ⟨symbol, -, h⟩ := bind_eq_ok h
    exact (types_declare h).trans rfl

/-! ## Expressions -/

section
variable (path : Path) (fields : List (String × Json))

theorem literalType_faults {P : Prop} (json : Json) : FaultsOnlyIf P (literalType path json) := by
  unfold literalType
  extract_lets values v isBool isWhole isNumber
  split
  · exact faults_ok _
  · split
    · exact faults_ok _
    · split
      · exact faults_ok _
      · exact faults_fail _ _

theorem readTypeOf_faults (key : String) :
    FaultsOnlyIf (scope.types.VoidArrayIn (.object fields)) (scope.readTypeOf path key fields) := by
  unfold readTypeOf
  split
  · rename_i json hjson
    exact (TypeNames.read_faults json _).mono fun h => h.mono (.lookup hjson)
  · exact faults_fail _ _

theorem readConst_faults : FaultsOnlyIf (scope.types.VoidArrayIn (.object fields)) (scope.readConst path fields) := by
  have literal : ∀ (s : ScalarTy) (json : Json), FaultsOnlyIf (scope.types.VoidArrayIn (.object fields)) (do
      let values ← scope.readScalars (path.field "const") s.element s.qualifiers json
      let literal ← Read.lift (Literal.ofScalars scope.target.width (.scalar s) values)
      .ok (literal.expr (scope.place fields))) := by
    intro s json
    refine (readScalars_faults _ _ _ _).bind fun xs hxs => FaultsOnlyIf.bind (faults_lift ?_) fun _ _ => faults_ok _
    obtain ⟨v, hv, -⟩ := Literal.ofScalars_ok scope.target.width s xs (length_readScalars hxs)
    exact ⟨_, hv⟩
  unfold readConst
  dsimp only
  split
  · refine (literalType_faults _ _).bind fun type _ => ?_
    cases type with
    | scalar s => exact literal s _
    | _ => exact faults_fail _ _
  · rename_i t ht
    refine FaultsOnlyIf.bind ((TypeNames.read_faults t _).mono fun h => h.mono (.lookup ht)) fun type _ => ?_
    cases type with
    | scalar s => exact literal s _
    | _ => exact faults_fail _ _

theorem readReference_faults {P : Prop} : FaultsOnlyIf P (scope.readReference path fields) := by
  unfold readReference
  refine (string_faults _ _).bind fun name _ => ?_
  dsimp only
  split
  · exact faults_fail _ _
  · split
    · exact faults_ok _
    · exact faults_ok _

theorem readNull_faults : FaultsOnlyIf (scope.types.VoidArrayIn (.object fields)) (scope.readNull path fields) := by
  unfold readNull
  dsimp only
  split
  · exact faults_ok _
  · refine (readTypeOf_faults path fields "null").bind fun type _ => ?_
    split
    · exact faults_ok _
    · exact faults_fail _ _

theorem readOperator_faults {P : Prop} {α : Type} (key : String) (ofText? : String → Option α) (unknown : Json → Malformation) :
    FaultsOnlyIf P (readOperator path key ofText? unknown fields) := by
  unfold readOperator
  dsimp only
  split
  · exact faults_ok _
  · exact faults_fail _ _

end

mutual
theorem readExpr_faults : ∀ (json : Json) (path : Path),
    FaultsOnlyIf (scope.types.VoidArrayIn json) (scope.readExpr path json)
  | .object fields, path => by
    have field : ∀ path key, FaultsOnlyIf (scope.types.VoidArrayIn (.object fields)) (scope.readExprField path key fields) :=
      fun path key => (readExprField_faults fields path key).mono TypeNames.VoidArrayAmong.object
    have optional : ∀ path key, FaultsOnlyIf (scope.types.VoidArrayIn (.object fields)) (scope.readOptional path key fields) :=
      fun path key => (readOptional_faults fields path key).mono TypeNames.VoidArrayAmong.object
    have list : ∀ path key mayBeMissing, FaultsOnlyIf (scope.types.VoidArrayIn (.object fields))
        (scope.readExprsField path key mayBeMissing fields) :=
      fun path key mayBeMissing => (readExprsField_faults fields path key mayBeMissing).mono TypeNames.VoidArrayAmong.object
    have type : ∀ key, FaultsOnlyIf (scope.types.VoidArrayIn (.object fields)) (scope.readTypeOf path key fields) :=
      readTypeOf_faults path fields
    unfold readExpr
    dsimp only
    -- whatever the form, its parts are fields of the object, and no other part can fault
    split
    · exact readConst_faults path fields
    · exact readReference_faults path fields
    · exact (readOperator_faults path fields _ _ _).bind fun _ _ => (field _ _).bind fun _ _ => faults_ok _
    · refine (readOperator_faults path fields _ _ _).bind fun _ _ => (field _ _).bind fun _ _ => ?_
      exact (field _ _).bind fun _ _ => faults_ok _
    · refine (readOperator_faults path fields _ _ _).bind fun _ _ => (field _ _).bind fun _ _ => ?_
      exact (field _ _).bind fun _ _ => faults_ok _
    · refine (field _ _).bind fun _ _ => (field _ _).bind fun _ _ => ?_
      exact (field _ _).bind fun _ _ => faults_ok _
    · exact (list _ _ _).bind fun _ _ => faults_ok _
    · refine (list _ _ _).bind fun _ _ => (field _ _).bind fun _ _ => ?_
      exact (optional _ _).bind fun _ _ => faults_ok _
    · exact (field _ _).bind fun _ _ => (field _ _).bind fun _ _ => faults_ok _
    · exact (field _ _).bind fun _ _ => (string_faults _ _).bind fun _ _ => faults_ok _
    · exact (type _).bind fun _ _ => (field _ _).bind fun _ _ => faults_ok _
    · exact (field _ _).bind fun _ _ => faults_ok _
    · exact (field _ _).bind fun _ _ => faults_ok _
    · exact (field _ _).bind fun _ _ => faults_ok _
    · exact (field _ _).bind fun _ _ => faults_ok _
    · exact (type _).bind fun _ _ => faults_ok _
    · exact faults_ok _
    · exact readNull_faults path fields
    · refine (type _).bind fun _ _ => (optional _ _).bind fun _ _ => ?_
      exact (optional _ _).bind fun _ _ => faults_ok _
    · exact faults_fail _ _
  | .null, _ | .bool _, _ | .number _, _ | .string _, _ | .array _, _ => faults_fail _ _
theorem readExprField_faults : ∀ (fields : List (String × Json)) (path : Path) (key : String),
    FaultsOnlyIf (scope.types.VoidArrayAmong (fields.map Prod.snd)) (scope.readExprField path key fields)
  | [], _, _ => faults_fail _ _
  | (k, json) :: rest, path, key => by
    rw [readExprField]
    split
    · exact (readExpr_faults json path).mono TypeNames.VoidArrayAmong.head
    · exact (readExprField_faults rest path key).mono TypeNames.VoidArrayAmong.tail
theorem readOptional_faults : ∀ (fields : List (String × Json)) (path : Path) (key : String),
    FaultsOnlyIf (scope.types.VoidArrayAmong (fields.map Prod.snd)) (scope.readOptional path key fields)
  | [], _, _ => faults_ok _
  | (k, json) :: rest, path, key => by
    rw [readOptional]
    split
    · exact ((readExpr_faults json path).mono TypeNames.VoidArrayAmong.head).map
    · exact (readOptional_faults rest path key).mono TypeNames.VoidArrayAmong.tail
theorem readExprsField_faults : ∀ (fields : List (String × Json)) (path : Path) (key : String) (mayBeMissing : Bool),
    FaultsOnlyIf (scope.types.VoidArrayAmong (fields.map Prod.snd)) (scope.readExprsField path key mayBeMissing fields)
  | [], _, _, mayBeMissing => by
    unfold readExprsField
    split
    · exact faults_ok _
    · exact faults_fail _ _
  | (k, json) :: rest, path, key, mayBeMissing => by
    unfold readExprsField
    split
    · split
      · exact (readExprs_faults _ path 0).mono fun h => TypeNames.VoidArrayAmong.head h.array
      · split
        · exact faults_ok _
        · exact faults_fail _ _
      · exact faults_fail _ _
    · exact (readExprsField_faults rest path key mayBeMissing).mono TypeNames.VoidArrayAmong.tail
theorem readExprs_faults : ∀ (items : List Json) (path : Path) (i : Nat),
    FaultsOnlyIf (scope.types.VoidArrayAmong items) (scope.readExprs path i items)
  | [], _, _ => faults_ok _
  | j :: js, path, i => by
    rw [readExprs]
    refine FaultsOnlyIf.bind ((readExpr_faults j _).mono TypeNames.VoidArrayAmong.head) fun _ _ => ?_
    exact FaultsOnlyIf.bind ((readExprs_faults js path (i + 1)).mono TypeNames.VoidArrayAmong.tail) fun _ _ => faults_ok _
end

end Scope

/-! ## Programs -/

namespace Program

/-- The definitions of types in a program. -/
def definitions (fields : List (String × Json)) : List (String × Json) :=
  match Json.present? (Json.lookup? "types" fields) with
  | some (.object defs) => defs
  | _ => []

/-- A program states an array of `void`, with names that its first definitions give to types. -/
def StatesVoidArray (fields : List (String × Json)) : Prop :=
  ∃ first names, first <+: definitions fields ∧ TypeNames.define (fun _ t => t) [] first = .ok names ∧
    names.VoidArrayIn (.object fields)

variable {fields : List (String × Json)} {value : Json}

theorem lookup_of_present {key : String} (h : Json.present? (Json.lookup? key fields) = some value) :
    Json.lookup? key fields = some value := by
  unfold Json.present? at h
  split at h
  · cases h
  · exact h

theorem readTypes_eq {names : TypeNames} (h : readTypes (Json.lookup? "types" fields) = .ok names) :
    TypeNames.define (fun _ t => t) [] (definitions fields) = .ok names := by
  unfold readTypes readDefinitions at h
  unfold definitions
  split at h
  · rename_i hnone
    rw [hnone]
    exact h
  · rename_i hsome
    rw [hsome]
    exact h
  · cases h

theorem readTypes_faults : FaultsOnlyIf (StatesVoidArray fields) (readTypes (Json.lookup? "types" fields)) := by
  unfold readTypes readDefinitions
  split
  · exact faults_ok _
  · rename_i defs hdefs
    refine TypeNames.define_faults.mono fun ⟨first, name, json, hp, names, hnames, h⟩ => ?_
    have heq : definitions fields = defs := by rw [definitions, hdefs]
    have hmem : (name, json) ∈ defs := hp.subset (by simp)
    have hpart : Json.Part json (.object defs) := .field hmem (.whole json)
    refine ⟨first, names, heq ▸ (List.prefix_append _ _).trans hp, hnames, h.mono ?_⟩
    exact hpart.trans (.lookup (lookup_of_present hdefs))
  · exact faults_fail _ _

theorem types_readSymbols {scope declared : Scope} {json : Option Json} (h : readSymbols scope json = .ok declared) :
    declared.types = scope.types := by
  unfold readSymbols at h
  split at h
  · cases h; rfl
  · exact Scope.types_declare h
  · cases h

theorem readSymbols_faults {scope : Scope} : FaultsOnlyIf (scope.types.VoidArrayIn (.object fields))
    (readSymbols scope (Json.lookup? "symbols" fields)) := by
  unfold readSymbols
  split
  · exact faults_ok _
  · rename_i items hitems
    exact Scope.declare_faults.mono fun h => h.array.mono (.lookup (lookup_of_present hitems))
  · exact faults_fail _ _

theorem read_faults {target : Target} {file : String} {json : Option Json} :
    FaultsOnlyIf (∃ fields, json = some (.object fields) ∧ StatesVoidArray fields) (read target file json) := by
  unfold read
  split
  · rename_i fields
    refine FaultsOnlyIf.mono ?_ fun h => ⟨fields, rfl, h⟩
    refine readTypes_faults.bind fun types htypes => ?_
    have stated : types.VoidArrayIn (.object fields) → StatesVoidArray fields := fun h =>
      ⟨_, types, List.prefix_refl _, readTypes_eq htypes, h⟩
    refine FaultsOnlyIf.bind (readSymbols_faults.mono stated) fun scope hscope => ?_
    refine FaultsOnlyIf.bind (items_faults _ _) fun items hitems => ?_
    refine FaultsOnlyIf.bind ((Scope.readExprs_faults items _ 0).mono fun h => stated ?_) fun _ _ => faults_ok _
    rw [types_readSymbols hscope] at h
    have hlookup : Json.lookup? "expressions" fields = some (.array items) := by
      unfold Read.items at hitems
      split at hitems
      · cases hitems
        assumption
      · cases hitems
    exact h.array.mono (.lookup hlookup)
  · exact fun f h => by cases h

end Program

/-- Reading gives a result, or says what is malformed, or faults at an array of `void`. -/
def Read.Settled {α : Type} (P : Prop) (m : Read α) : Prop :=
  (∃ x, m = .ok x) ∨ (∃ path problem, m = .error (.malformed path problem)) ∨ m = .error (.fault .arrayOfVoid) ∧ P

theorem Read.FaultsOnlyIf.settled {α : Type} {P : Prop} {m : Read α} (h : FaultsOnlyIf P m) : Settled P m := by
  cases m with
  | ok x => exact .inl ⟨x, rfl⟩
  | error e =>
    cases e with
    | malformed path problem => exact .inr (.inl ⟨path, problem, rfl⟩)
    | fault f =>
      obtain ⟨rfl, hp⟩ := h f rfl
      exact .inr (.inr ⟨rfl, hp⟩)

/-- Any JSON value is read to a program, or to a type, or it is malformed, but for those that state an array of `void`:
reading them is a fault. -/
theorem read_settles (target : Target) (file : String) (program : Option Json) (names : TypeNames) (path : Path) (type : Json) :
    Settled (∃ fields, program = some (.object fields) ∧ Program.StatesVoidArray fields) (Program.read target file program) ∧
      Settled (names.VoidArrayIn type) (names.read path type) :=
  ⟨Program.read_faults.settled, (TypeNames.read_faults type path).settled⟩

/-- A variable that is an array of `void`. -/
def voidArrayJson : Json :=
  .object [("symbols", .array [.object [("name", .string "a"), ("type", .object [("array", .string "void")])]]),
    ("expressions", .array [])]

/-- The elements are not looked at before the array is made, so the program is not called malformed. -/
theorem voidArray_faults : Program.read .standard "program" (some voidArrayJson) = .error (.fault .arrayOfVoid) := rfl

end Spmd
