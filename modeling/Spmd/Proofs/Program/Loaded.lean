import Spmd.Program.Basic
import Spmd.Proofs.Expr.Formed
import Spmd.Proofs.Program.Types

/-!
# Expressions that are read are loaded

The leaves of every expression of a program have their types and values, and each of its names of functions is one
that no function was picked for.
-/

namespace Spmd

/-- What a node keeps before it is checked. -/
def Expr.Loaded (T : Target) : Expr → Prop
  | .const node c => ∃ s, node.type = some (.scalar s) ∧ c.Suits T.width s
  | .symbol node s => node.type = some s.type ∧ s.Sound T.width
  | .function f => f.choice = {} ∧ f.node.type = none ∧ ∀ s ∈ f.candidates, s.type.Stated
  | .sync node => node.type = some .void
  | .null node => ∃ t, node.type = some t ∧ t.isPointer = true ∧ t.Legal
  | .cast _ target _ _ => target.Legal
  | .new _ allocated _ _ _ => allocated.Legal
  | _ => True

/-- What a node is when it was read: it has what it was loaded with, and is no node of another tree. -/
def Expr.Unshared (T : Target) (e : Expr) : Prop := e.Loaded T ∧ e.node.tag = none

namespace Scope

/-- A scope that defines types and sound symbols. -/
structure Sound (T : Target) (scope : Scope) : Prop where
  target_eq : scope.target = T
  types : scope.types.Stated
  symbols : ∀ s ∈ scope.symbols, s.Sound T.width

/-! ## Scalars -/

theorem length_readLanes {path : Path} {element : Element} : ∀ {js : List Json} {i : Nat} {xs : List Scalar},
    readLanes path element i js = .ok xs → xs.length = js.length
  | [], _, _, h => by cases h; rfl
  | j :: js, i, xs, h => by
    rw [readLanes] at h
    obtain ⟨x, -, h⟩ := bind_eq_ok h
    obtain ⟨rest, hrest, h⟩ := bind_eq_ok h
    cases h
    rw [List.length_cons, List.length_cons, length_readLanes hrest]

theorem length_readScalars {scope : Scope} {path : Path} {element : Element} {q : Qualifiers} {json : Json}
    {xs : List Scalar} (h : scope.readScalars path element q json = .ok xs) :
    xs.length = 1 ∨ q.variability = .varying ∧ xs.length = scope.target.width := by
  unfold readScalars at h
  dsimp only at h
  split at h
  · split at h
    · rename_i hfits
      rw [length_readLanes h]
      simpa using hfits
    · cases h
  · obtain ⟨x, -, h⟩ := bind_eq_ok h
    cases h
    exact .inl rfl

section
variable {T : Target} {scope : Scope} (hs : scope.Sound T)
include hs

/-! ## Symbols -/

theorem readValue_sound {path : Path} {t : Ty} {fields : List (String × Json)} {value : Option Constant}
    (h : scope.readValue path t fields = .ok value) {c : Constant} (hc : value = some c) :
    ∃ q, t = .scalar q ∧ c.Serves T.width q := by
  subst hc
  unfold readValue at h
  split at h
  · cases h
  · split at h
    · rename_i q
      split at h
      · cases h
      · obtain ⟨xs, hxs, h⟩ := bind_eq_ok h
        obtain ⟨d, hd, h⟩ := bind_eq_ok h
        cases h
        have hlen := length_readScalars hxs
        rw [hs.target_eq] at hlen
        obtain ⟨d, hd', hsound, hk, hl⟩ := Constant.create_ok T.width q.element.kind xs
          (hlen.imp id And.right)
        have hof : Constant.ofType scope.target.width (.scalar q) xs = .ok d := by rw [hs.target_eq]; exact hd'
        rw [hof] at hd
        cases hd
        refine ⟨q, rfl, hsound, hk, fun hu => ?_⟩
        rw [hl, List.length_map]
        rcases hlen with hlen | ⟨hv, -⟩
        · exact hlen
        · rw [hu] at hv; cases hv
    · cases h

omit hs in
theorem readValue_const {path : Path} {t : Ty} {fields : List (String × Json)} {value : Option Constant}
    (h : scope.readValue path t fields = .ok value) (hv : value.isSome = true) : t.isConst = true := by
  unfold readValue at h
  split at h
  · cases h
    cases hv
  · split at h
    · split at h
      · cases h
      · rename_i hconst
        simpa [Ty.isConst] using hconst
    · cases h

theorem readSymbol_sound {path : Path} {json : Json} {s : Symbol} (h : scope.readSymbol path json = .ok s) :
    s.Sound T.width := by
  unfold readSymbol at h
  obtain ⟨fields, -, h⟩ := bind_eq_ok h
  obtain ⟨name, -, h⟩ := bind_eq_ok h
  dsimp only at h
  split at h
  · rename_i t _
    obtain ⟨type, htype, h⟩ := bind_eq_ok h
    obtain ⟨storage, -, h⟩ := bind_eq_ok h
    obtain ⟨value, hvalue, h⟩ := bind_eq_ok h
    split at h
    · cases h
    · cases h
      exact ⟨TypeNames.read_stated hs.types htype, fun _ => readValue_sound hs hvalue, readValue_const hvalue⟩
  · cases h

end

theorem declare_sound {T : Target} : ∀ {js : List Json} {i : Nat} {scope declared : Scope}, scope.Sound T →
    scope.declare i js = .ok declared → declared.Sound T
  | [], _, _, _, hs, h => by cases h; exact hs
  | j :: js, i, scope, declared, hs, h => by
    rw [declare] at h
    obtain ⟨symbol, hsymbol, h⟩ := bind_eq_ok h
    have hall : ∀ s ∈ scope.symbols ++ [symbol], s.Sound T.width := by
      intro s hm
      rcases List.mem_append.mp hm with hm | hm
      · exact hs.symbols s hm
      · rw [List.mem_singleton.mp hm]
        exact readSymbol_sound hs hsymbol
    have hmore : Sound T { scope with symbols := scope.symbols ++ [symbol] } := ⟨hs.target_eq, hs.types, hall⟩
    exact declare_sound hmore h

/-! ## Nodes as they are read -/

open Spmd.Expr

/-- Where a node comes from: leaves are read by the readers of their forms, the types in a node by the reader of types, and no
node that is read is one of another tree. -/
def Made (scope : Scope) : Expr → Prop
  | .const node c => ∃ path fields, scope.readConst path fields = .ok (.const node c)
  | .symbol node s => ∃ path fields, scope.readReference path fields = .ok (.symbol node s)
  | .function f => ∃ path fields, scope.readReference path fields = .ok (.function f)
  | .null node => ∃ path fields, scope.readNull path fields = .ok (.null node)
  | .sync node => node.type = some .void ∧ node.tag = none
  | .cast node target _ _ => (∃ path key fields, scope.readTypeOf path key fields = .ok target) ∧ node.tag = none
  | .new node allocated _ _ _ => (∃ path key fields, scope.readTypeOf path key fields = .ok allocated) ∧ node.tag = none
  | e => e.node.tag = none

section
variable {scope : Scope} {path : Path} {fields : List (String × Json)} {e : Expr}

/-- A constant has the type that is stated, or else that of its literal, and a value that suits this type. -/
theorem readConst_eq_ok (h : scope.readConst path fields = .ok e) :
    ∃ q xs c, e = .const (.typed (scope.place fields) (Ty.scalar q).asConst) c ∧ c.Suits scope.target.width q ∧
      scope.readScalars (path.field "const") q.element q.qualifiers ((Json.lookup? "const" fields).getD .null) = .ok xs ∧
      (Json.lookup? "type" fields = none →
        literalType (path.field "const") ((Json.lookup? "const" fields).getD .null) = .ok (.scalar q)) := by
  unfold readConst at h
  dsimp only at h
  split at h
  all_goals
    rename_i hstated
    obtain ⟨t, ht, h⟩ := bind_eq_ok h
    cases t with
    | scalar q =>
      obtain ⟨xs, hxs, h⟩ := bind_eq_ok h
      obtain ⟨l, hl, h⟩ := bind_eq_ok h
      obtain ⟨c, hc, hsuits⟩ := Literal.ofScalars_ok scope.target.width q xs (length_readScalars hxs)
      cases (Read.lift_eq_ok hl).symm.trans hc
      cases h
      refine ⟨q, xs, c, rfl, hsuits, hxs, fun hnone => ?_⟩
      first
        | exact ht
        | cases hstated.symm.trans hnone
    | _ => cases h

theorem readConst_made (h : scope.readConst path fields = .ok e) : Everywhere scope.Made e := by
  obtain ⟨q, xs, c, rfl, -⟩ := readConst_eq_ok h
  exact Everywhere.leaf ⟨path, fields, h⟩ rfl

theorem readReference_made (h : scope.readReference path fields = .ok e) : Everywhere scope.Made e := by
  have hread := h
  unfold readReference at h
  obtain ⟨name, -, h⟩ := bind_eq_ok h
  dsimp only at h
  split at h
  · cases h
  · split at h
    · cases h
      exact Everywhere.leaf ⟨path, fields, hread⟩ rfl
    · cases h
      exact Everywhere.leaf ⟨path, fields, hread⟩ rfl

theorem readNull_made (h : scope.readNull path fields = .ok e) : Everywhere scope.Made e := by
  have hread := h
  unfold readNull at h
  dsimp only at h
  split at h
  · cases h
    exact Everywhere.leaf ⟨path, fields, hread⟩ rfl
  · obtain ⟨t, -, h⟩ := bind_eq_ok h
    split at h
    · cases h
      exact Everywhere.leaf ⟨path, fields, hread⟩ rfl
    · cases h

end

mutual
theorem readExpr_made {scope : Scope} : ∀ {json : Json} {path : Path} {e : Expr},
    scope.readExpr path json = .ok e → Everywhere scope.Made e
  | .object fields, path, e, h => by
    unfold readExpr at h
    dsimp only at h
    -- the forms in the order in which the reader looks for their keys
    split at h
    · exact readConst_made h
    · exact readReference_made h
    · obtain ⟨op, -, h⟩ := bind_eq_ok h
      obtain ⟨c, hc, h⟩ := bind_eq_ok h
      cases h
      have hc := readExprField_made hc
      cases op with
      | value op => exact Everywhere.one rfl rfl hc
      | step s => exact Everywhere.one rfl rfl hc
    · obtain ⟨op, -, h⟩ := bind_eq_ok h
      obtain ⟨l, hl, h⟩ := bind_eq_ok h
      obtain ⟨r, hr, h⟩ := bind_eq_ok h
      cases h
      exact Everywhere.two rfl rfl (readExprField_made hl) (readExprField_made hr)
    · obtain ⟨op, -, h⟩ := bind_eq_ok h
      obtain ⟨t, ht, h⟩ := bind_eq_ok h
      obtain ⟨v, hv, h⟩ := bind_eq_ok h
      cases h
      exact Everywhere.two rfl rfl (readExprField_made ht) (readExprField_made hv)
    · obtain ⟨t, ht, h⟩ := bind_eq_ok h
      obtain ⟨a, ha, h⟩ := bind_eq_ok h
      obtain ⟨b, hb, h⟩ := bind_eq_ok h
      cases h
      refine .node rfl fun c hc => ?_
      simp only [children, List.mem_cons, List.not_mem_nil, or_false] at hc
      rcases hc with rfl | rfl | rfl
      · exact readExprField_made ht
      · exact readExprField_made ha
      · exact readExprField_made hb
    · obtain ⟨es, hes, h⟩ := bind_eq_ok h
      cases h
      exact .node rfl (readExprsField_made hes)
    · obtain ⟨args, hargs, h⟩ := bind_eq_ok h
      obtain ⟨callee, hcallee, h⟩ := bind_eq_ok h
      obtain ⟨count, hcount, h⟩ := bind_eq_ok h
      cases h
      refine .node rfl fun c hc => ?_
      simp only [children, List.cons_append, List.mem_cons, List.mem_append, Option.mem_toList] at hc
      rcases hc with rfl | hc | hc
      · exact readExprField_made hcallee
      · exact readExprsField_made hargs c hc
      · exact readOptional_made hcount c hc
    · obtain ⟨b, hb, h⟩ := bind_eq_ok h
      obtain ⟨i, hi, h⟩ := bind_eq_ok h
      cases h
      exact Everywhere.two rfl rfl (readExprField_made hb) (readExprField_made hi)
    · obtain ⟨b, hb, h⟩ := bind_eq_ok h
      obtain ⟨name, -, h⟩ := bind_eq_ok h
      cases h
      exact Everywhere.one rfl rfl (readExprField_made hb)
    · obtain ⟨t, ht, h⟩ := bind_eq_ok h
      obtain ⟨c, hc, h⟩ := bind_eq_ok h
      cases h
      exact Everywhere.one ⟨⟨_, _, _, ht⟩, rfl⟩ rfl (readExprField_made hc)
    · obtain ⟨c, hc, h⟩ := bind_eq_ok h
      cases h
      exact Everywhere.one rfl rfl (readExprField_made hc)
    · obtain ⟨c, hc, h⟩ := bind_eq_ok h
      cases h
      exact Everywhere.one rfl rfl (readExprField_made hc)
    · obtain ⟨c, hc, h⟩ := bind_eq_ok h
      cases h
      exact Everywhere.one rfl rfl (readExprField_made hc)
    · obtain ⟨c, hc, h⟩ := bind_eq_ok h
      cases h
      exact Everywhere.one rfl rfl (readExprField_made hc)
    · obtain ⟨t, -, h⟩ := bind_eq_ok h
      cases h
      exact Everywhere.leaf rfl rfl
    · cases h
      exact Everywhere.leaf ⟨rfl, rfl⟩ rfl
    · exact readNull_made h
    · obtain ⟨t, ht, h⟩ := bind_eq_ok h
      obtain ⟨count, hcount, h⟩ := bind_eq_ok h
      obtain ⟨init, hinit, h⟩ := bind_eq_ok h
      cases h
      refine .node ⟨⟨_, _, _, ht⟩, rfl⟩ fun c hc => ?_
      simp only [children, List.mem_append, Option.mem_toList] at hc
      rcases hc with hc | hc
      · exact readOptional_made hcount c hc
      · exact readOptional_made hinit c hc
    · cases h
  | .null, _, _, h | .bool _, _, _, h | .number _, _, _, h | .string _, _, _, h | .array _, _, _, h => by cases h
theorem readExprField_made {scope : Scope} :
    ∀ {fields : List (String × Json)} {path : Path} {key : String} {e : Expr},
      scope.readExprField path key fields = .ok e → Everywhere scope.Made e
  | [], _, _, _, h => by cases h
  | (k, json) :: rest, path, key, e, h => by
    rw [readExprField] at h
    split at h
    · exact readExpr_made h
    · exact readExprField_made h
theorem readOptional_made {scope : Scope} :
    ∀ {fields : List (String × Json)} {path : Path} {key : String} {o : Option Expr},
      scope.readOptional path key fields = .ok o → ∀ e, o = some e → Everywhere scope.Made e
  | [], _, _, _, h => by cases h; exact fun _ he => by cases he
  | (k, json) :: rest, path, key, o, h => by
    rw [readOptional] at h
    split at h
    · obtain ⟨e, he, rfl⟩ := map_eq_ok h
      exact fun _ ho => by cases ho; exact readExpr_made he
    · exact readOptional_made h
theorem readExprsField_made {scope : Scope} :
    ∀ {fields : List (String × Json)} {path : Path} {key : String} {mayBeMissing : Bool} {es : List Expr},
      scope.readExprsField path key mayBeMissing fields = .ok es → ∀ e ∈ es, Everywhere scope.Made e
  | [], _, _, mayBeMissing, _, h => by
    unfold readExprsField at h
    split at h <;> cases h
    exact fun _ he => by cases he
  | (k, .array items) :: rest, path, key, mayBeMissing, es, h => by
    unfold readExprsField at h
    split at h
    · exact readExprs_made h
    · exact readExprsField_made h
  | (k, .null) :: rest, path, key, mayBeMissing, es, h => by
    unfold readExprsField at h
    split at h
    · dsimp only at h
      split at h <;> cases h
      exact fun _ he => by cases he
    · exact readExprsField_made h
  | (k, .bool _) :: rest, path, key, mayBeMissing, es, h | (k, .number _) :: rest, path, key, mayBeMissing, es, h
  | (k, .string _) :: rest, path, key, mayBeMissing, es, h | (k, .object _) :: rest, path, key, mayBeMissing, es, h => by
    unfold readExprsField at h
    split at h
    · cases h
    · exact readExprsField_made h
theorem readExprs_made {scope : Scope} :
    ∀ {js : List Json} {path : Path} {i : Nat} {es : List Expr},
      scope.readExprs path i js = .ok es → ∀ e ∈ es, Everywhere scope.Made e
  | [], _, _, _, h => by cases h; exact fun _ he => by cases he
  | j :: js, path, i, es, h => by
    rw [readExprs] at h
    obtain ⟨e, he, h⟩ := bind_eq_ok h
    obtain ⟨rest, hrest, h⟩ := bind_eq_ok h
    cases h
    intro c hc
    rcases List.mem_cons.mp hc with rfl | hc
    · exact readExpr_made he
    · exact readExprs_made hrest c hc
end

/-! ## Nodes of a sound scope -/

section
variable {T : Target} {scope : Scope} (hs : scope.Sound T)
include hs

theorem readConst_unshared {path : Path} {fields : List (String × Json)} {e : Expr}
    (h : scope.readConst path fields = .ok e) : Unshared T e := by
  obtain ⟨q, xs, c, rfl, hsuits, -⟩ := readConst_eq_ok h
  rw [hs.target_eq] at hsuits
  exact ⟨⟨q.withConst true, rfl, hsuits.of_alike rfl rfl⟩, rfl⟩

theorem readReference_unshared {path : Path} {fields : List (String × Json)} {e : Expr}
    (h : scope.readReference path fields = .ok e) : Unshared T e := by
  unfold readReference at h
  obtain ⟨name, -, h⟩ := bind_eq_ok h
  dsimp only at h
  split at h
  · cases h
  · rename_i s ss hnamed
    have hsound : ∀ c ∈ s :: ss, c.Sound T.width := by
      intro c hc
      rw [← hnamed] at hc
      exact hs.symbols c (List.mem_filter.mp hc).1
    split at h
    · cases h
      exact ⟨⟨rfl, rfl, fun c hc => (hsound c hc).stated⟩, rfl⟩
    · cases h
      exact ⟨⟨rfl, hsound s List.mem_cons_self⟩, rfl⟩

theorem readTypeOf_stated {path : Path} {key : String} {fields : List (String × Json)} {t : Ty}
    (h : scope.readTypeOf path key fields = .ok t) : t.Stated := by
  unfold readTypeOf at h
  split at h
  · exact TypeNames.read_stated hs.types h
  · cases h

theorem readNull_unshared {path : Path} {fields : List (String × Json)} {e : Expr}
    (h : scope.readNull path fields = .ok e) : Unshared T e := by
  unfold readNull at h
  dsimp only at h
  split at h
  · cases h
    exact ⟨⟨.voidPointer, rfl, rfl, trivial⟩, rfl⟩
  · obtain ⟨t, ht, h⟩ := bind_eq_ok h
    split at h
    · rename_i hp
      cases h
      exact ⟨⟨t, rfl, hp, (readTypeOf_stated hs ht).legal⟩, rfl⟩
    · cases h

theorem Made.unshared {e : Expr} (h : scope.Made e) : Unshared T e := by
  cases e with
  | const node c =>
    obtain ⟨path, fields, h⟩ := h
    exact readConst_unshared hs h
  | symbol node s =>
    obtain ⟨path, fields, h⟩ := h
    exact readReference_unshared hs h
  | function f =>
    obtain ⟨path, fields, h⟩ := h
    exact readReference_unshared hs h
  | null node =>
    obtain ⟨path, fields, h⟩ := h
    exact readNull_unshared hs h
  | sync node => exact h
  | cast node target operand reported =>
    obtain ⟨⟨path, key, fields, ht⟩, htag⟩ := h
    exact ⟨(readTypeOf_stated hs ht).legal, htag⟩
  | new node allocated count init varying =>
    obtain ⟨⟨path, key, fields, ht⟩, htag⟩ := h
    exact ⟨(readTypeOf_stated hs ht).legal, htag⟩
  | _ => exact ⟨trivial, h⟩

end

end Scope

/-! ## Programs -/

namespace Program

variable {target : Target} {file : String} {json : Option Json} {p : Program}

/-- A program has types, symbols of these types, and expressions over these symbols. -/
theorem read_eq_ok (h : read target file json = .ok p) :
    ∃ fields types path items, json = some (.object fields) ∧ readTypes (Json.lookup? "types" fields) = .ok types ∧
      readSymbols { target, file, types } (Json.lookup? "symbols" fields) = .ok p.scope ∧
      p.scope.readExprs path 0 items = .ok p.expressions := by
  unfold read at h
  split at h
  · rename_i fields
    obtain ⟨types, htypes, h⟩ := bind_eq_ok h
    obtain ⟨scope, hscope, h⟩ := bind_eq_ok h
    obtain ⟨items, -, h⟩ := bind_eq_ok h
    obtain ⟨es, hes, h⟩ := bind_eq_ok h
    cases h
    exact ⟨fields, types, _, items, rfl, htypes, hscope, hes⟩
  · cases h

theorem readTypes_stated {types : TypeNames} (h : readTypes json = .ok types) : types.Stated := by
  unfold readTypes readDefinitions at h
  split at h
  · cases h; exact fun _ hm => by cases hm
  · exact TypeNames.define_stated (fun _ _ ht => ht) (fun _ hm => by cases hm) h
  · cases h

theorem readSymbols_sound {scope declared : Scope} (hs : scope.Sound target) (h : readSymbols scope json = .ok declared) :
    declared.Sound target := by
  unfold readSymbols at h
  split at h
  · cases h; exact hs
  · exact Scope.declare_sound hs h
  · cases h

/-- The nodes of the expressions of a program are read over its symbols. -/
theorem read_made (h : read target file json = .ok p) : ∀ e ∈ p.expressions, Expr.Everywhere p.scope.Made e := by
  obtain ⟨_, _, _, _, -, -, -, hes⟩ := read_eq_ok h
  exact Scope.readExprs_made hes

/-- The scope of a program is sound, and the nodes of its expressions are loaded and in no other tree. -/
theorem read_unshared (h : read target file json = .ok p) :
    p.scope.Sound target ∧ ∀ e ∈ p.expressions, Expr.Everywhere (Expr.Unshared target) e := by
  obtain ⟨fields, types, _, _, -, htypes, hscope, -⟩ := read_eq_ok h
  have hempty : Scope.Sound target { target, file, types } := ⟨rfl, readTypes_stated htypes, fun _ hm => by cases hm⟩
  have hsound : p.scope.Sound target := readSymbols_sound hempty hscope
  exact ⟨hsound, fun e he => (read_made h e he).mono fun _ => Scope.Made.unshared hsound⟩

end Program

end Spmd
