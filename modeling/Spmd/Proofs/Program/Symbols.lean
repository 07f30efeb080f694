import Spmd.Proofs.Typing.Program

/-!
# The symbols of a program

The symbols of a program are those it declares, in their order. Only functions share a name, so that each name in an expression
denotes one variable or all functions of that name, and the values of constants are those of their types (`read_symbols`).
-/

namespace Spmd

/-! ## Tables of symbols -/

/-- Symbols of which only functions share a name. -/
def Symbol.Overloads (symbols : List Symbol) : Prop :=
  symbols.Pairwise fun s t => s.name = t.name → s.storage = .function ∧ t.storage = .function

theorem Symbol.isFunction_iff (s : Symbol) : s.isFunction = true ↔ s.storage = .function := beq_iff_eq

/-- The name is that of one variable, which is the only symbol of its name, or of functions, and then it has all of them. -/
def Expr.Denotes (symbols : List Symbol) : Expr → Prop
  | .symbol _ s => s.storage ≠ .function ∧ symbols.filter (fun t => t.name == s.name) = [s]
  | .function f => f.candidates ≠ [] ∧ f.candidates = symbols.filter (fun t => t.name == f.name) ∧
      ∀ t ∈ f.candidates, t.storage = .function
  | _ => True

/-- A reference by this name. -/
def Expr.Names (name : String) : Expr → Prop
  | .symbol _ s => s.name = name
  | .function f => f.name = name
  | _ => False

/-- A value of a constant: the type is a scalar's and `const`, and the value has one element of its kind, or one for each lane of
a varying type. -/
def Constant.ValueOf (width : Nat) (t : Ty) (c : Constant) : Prop :=
  ∃ q, t = .scalar q ∧ q.qualifiers.isConst = true ∧ c.kind = q.element.kind ∧
    (c.count = 1 ∨ q.qualifiers.variability = .varying ∧ c.count = width)

theorem Symbol.Sound.valueOf {width : Nat} {s : Symbol} (h : s.Sound width) {c : Constant} (hc : s.value = some c) :
    c.ValueOf width s.type := by
  obtain ⟨q, hq, hserves⟩ := h.value c hc
  have hconst : s.type.isConst = true := h.isConst (by rw [hc]; rfl)
  rw [hq] at hconst
  refine ⟨q, hq, hconst, hserves.kind_eq, ?_⟩
  cases hv : q.qualifiers.variability with
  | uniform => exact .inl (hserves.single hv)
  | varying => exact hserves.count_eq.imp id fun hn => ⟨rfl, hn⟩

namespace Scope

variable {scope : Scope}

/-! ## Declarations -/

/-- A symbol takes its name from its declaration, and a name that is taken is only given to functions. -/
theorem readSymbol_named {path : Path} {json : Json} {s : Symbol} (h : scope.readSymbol path json = .ok s) :
    json.field? "name" = some (.string s.name) ∧
      ∀ t ∈ scope.symbols, t.name = s.name → t.storage = .function ∧ s.storage = .function := by
  unfold readSymbol at h
  obtain ⟨fields, hfields, h⟩ := bind_eq_ok h
  obtain ⟨name, hname, h⟩ := bind_eq_ok h
  have hjson : json.field? "name" = some (.string name) := by
    cases Read.fields_eq_ok hfields
    exact Read.string_eq_ok hname
  dsimp only at h
  split at h
  · obtain ⟨type, -, h⟩ := bind_eq_ok h
    obtain ⟨storage, -, h⟩ := bind_eq_ok h
    obtain ⟨value, -, h⟩ := bind_eq_ok h
    split at h
    · cases h
    · rename_i hfree
      cases h
      refine ⟨hjson, fun t ht hn => ?_⟩
      have hmem : t ∈ scope.named name := List.mem_filter.mpr ⟨ht, beq_iff_eq.mpr hn⟩
      have hne : (scope.named name).isEmpty = false := by
        rw [List.isEmpty_eq_false_iff_exists_mem]
        exact ⟨t, hmem⟩
      simp only [hne, Bool.not_false, Bool.true_and, Bool.not_eq_true', Bool.not_eq_false, Bool.and_eq_true,
        List.all_eq_true] at hfree
      exact ⟨(Symbol.isFunction_iff t).mp (hfree.2 t hmem), beq_iff_eq.mp hfree.1⟩
  · cases h

/-- Each declaration adds its symbol behind the others, and keeps that only functions share a name. -/
theorem declare_overloads : ∀ {items : List Json} {i : Nat} {scope declared : Scope},
    Symbol.Overloads scope.symbols → scope.declare i items = .ok declared →
      Symbol.Overloads declared.symbols ∧ ∃ added, declared.symbols = scope.symbols ++ added ∧
        List.Forall₂ (fun item s => item.field? "name" = some (.string s.name)) items added
  | [], _, scope, _, hs, h => by
    cases h
    exact ⟨hs, [], (List.append_nil _).symm, .nil⟩
  | j :: js, i, scope, declared, hs, h => by
    rw [declare] at h
    obtain ⟨s, hread, h⟩ := bind_eq_ok h
    obtain ⟨hname, hfree⟩ := readSymbol_named hread
    have hmore : Symbol.Overloads (scope.symbols ++ [s]) := by
      refine List.pairwise_append.mpr ⟨hs, List.pairwise_singleton _ s, fun t ht u hu => ?_⟩
      rw [List.mem_singleton.mp hu]
      exact hfree t ht
    obtain ⟨hall, added, hadded, hnames⟩ := declare_overloads hmore h
    exact ⟨hall, s :: added, by rw [hadded, List.append_assoc]; rfl, .cons hname hnames⟩

/-! ## References -/

theorem named_functions (hs : Symbol.Overloads scope.symbols) {name : String} {s : Symbol} {ss : List Symbol}
    (h : scope.named name = s :: ss) : ∀ t ∈ ss, s.storage = .function ∧ t.storage = .function := by
  have hnamed : ∀ t ∈ s :: ss, t.name = name := by
    intro t ht
    rw [← h] at ht
    exact beq_iff_eq.mp (List.mem_filter.mp ht).2
  have hpairs : Symbol.Overloads (s :: ss) := by
    rw [← h]
    exact List.Pairwise.filter _ hs
  intro t ht
  refine (List.pairwise_cons.mp hpairs).1 t ht ?_
  rw [hnamed s List.mem_cons_self, hnamed t (List.mem_cons_of_mem s ht)]

/-- A reference that was read is one by the name that was written, to the symbols of this name. -/
theorem readReference_denotes (hs : Symbol.Overloads scope.symbols) {path : Path} {fields : List (String × Json)} {e : Expr}
    (h : scope.readReference path fields = .ok e) :
    e.Denotes scope.symbols ∧ ∃ name, Json.lookup? "symbol" fields = some (.string name) ∧ e.Names name := by
  unfold readReference at h
  obtain ⟨name, hname, h⟩ := bind_eq_ok h
  dsimp only at h
  split at h
  · cases h
  · rename_i s ss hnamed
    have hmem : s ∈ scope.named name := by rw [hnamed]; exact List.mem_cons_self
    have hfirst : s.name = name := beq_iff_eq.mp (List.mem_filter.mp hmem).2
    have hrest := named_functions hs hnamed
    split at h
    · rename_i hfunction
      cases h
      refine ⟨⟨List.cons_ne_nil s ss, hnamed.symm, fun t ht => ?_⟩, name, Read.string_eq_ok hname, rfl⟩
      rcases List.mem_cons.mp ht with rfl | ht
      · exact (Symbol.isFunction_iff t).mp hfunction
      · exact (hrest t ht).2
    · rename_i hvariable
      cases h
      have hstorage : s.storage ≠ .function := fun hf => hvariable ((Symbol.isFunction_iff s).mpr hf)
      have hsingle : ss = [] := by
        cases ss with
        | nil => rfl
        | cons t ts => exact absurd (hrest t List.mem_cons_self).1 hstorage
      refine ⟨⟨hstorage, ?_⟩, name, Read.string_eq_ok hname, hfirst⟩
      rw [hfirst]
      exact hnamed.trans (by rw [hsingle])

theorem Made.denotes (hs : Symbol.Overloads scope.symbols) {e : Expr} (h : scope.Made e) : e.Denotes scope.symbols := by
  cases e with
  | symbol node s =>
    obtain ⟨path, fields, h⟩ := h
    exact (readReference_denotes hs h).1
  | function f =>
    obtain ⟨path, fields, h⟩ := h
    exact (readReference_denotes hs h).1
  | _ => trivial

end Scope

/-! ## Programs -/

namespace Program

/-- The declarations of symbols in a program, none unless stated. -/
def declarations (fields : List (String × Json)) : List Json :=
  match Json.present? (Json.lookup? "symbols" fields) with
  | some (.array items) => items
  | _ => []

theorem readSymbols_eq {scope declared : Scope} {fields : List (String × Json)}
    (h : readSymbols scope (Json.lookup? "symbols" fields) = .ok declared) :
    scope.declare 0 (declarations fields) = .ok declared := by
  unfold readSymbols at h
  unfold declarations
  split at h
  · rename_i hnone
    rw [hnone]
    exact h
  · rename_i hsome
    rw [hsome]
    exact h
  · cases h

/-- The symbols of a program that was read are those of its declarations, in order, and only functions share a name. A name in its
expressions denotes the one variable of this name or all functions of it, in the order of their declaration. A symbol that has a
value is a constant of a scalar type, and the value fits the type. -/
theorem read_symbols {target : Target} {file : String} {json : Option Json} {p : Program} (h : read target file json = .ok p) :
    ∃ fields, json = some (.object fields) ∧
      List.Forall₂ (fun item s => item.field? "name" = some (.string s.name)) (declarations fields) p.symbols ∧
      p.symbols.Pairwise (fun s t => s.name = t.name → s.storage = .function ∧ t.storage = .function) ∧
      (∀ e ∈ p.expressions, Expr.Everywhere (Expr.Denotes p.symbols) e) ∧
      (∀ path written e, ExprForm.of? written = some .symbol → p.scope.readExpr path (.object written) = .ok e →
        e.Denotes p.symbols ∧ ∃ name, Json.lookup? "symbol" written = some (.string name) ∧ e.Names name) ∧
      ∀ s ∈ p.symbols, ∀ c, s.value = some c → c.ValueOf target.width s.type := by
  obtain ⟨fields, types, _, _, hjson, -, hscope, -⟩ := read_eq_ok h
  have hempty : Symbol.Overloads (Scope.symbols { target, file, types }) := List.Pairwise.nil
  obtain ⟨hoverloads, added, hadded, hnames⟩ := Scope.declare_overloads hempty (readSymbols_eq hscope)
  have hsymbols : p.symbols = added := hadded
  refine ⟨fields, hjson, hsymbols ▸ hnames, hoverloads, fun e he => ?_, fun path written e hform hread => ?_, fun s hs c hc => ?_⟩
  · exact (read_made h e he).mono fun _ => Scope.Made.denotes hoverloads
  · unfold Scope.readExpr at hread
    simp only [hform] at hread
    exact Scope.readReference_denotes hoverloads hread
  · exact ((read_unshared h).1.symbols s hs).valueOf hc

/-- Two functions of one name, and a constant between them that has a value for each of two lanes. -/
def overloadedJson : Json :=
  let function (parameter : String) : Json :=
    .object [("name", .string "f"), ("type", functionJson "void" [.string parameter])]
  let constant : Json := .object [("name", .string "K"), ("type", .string "const varying int32"),
    ("value", .array [.string "1", .string "2"])]
  .object [("symbols", .array [function "int32", constant, function "float"]),
    ("expressions", .array [.object [("call", .object [("symbol", .string "f")]),
      ("args", .array [.object [("symbol", .string "K")]])]])]

def twoLanes : Target := ⟨2, .bits64, .tail _ (.head _)⟩

def lanesConstant : Symbol :=
  ⟨"K", .scalar ⟨.basic .int32, ⟨.varying, true⟩, none⟩, .local, none, some ⟨.int32, 2, [.int 1, .int 2]⟩⟩

def overloadedCall : Expr :=
  .call {} (.function { node := {}, name := "f", candidates := [procedure [.int32], procedure [.basic .float]] })
    [.symbol (.typed none lanesConstant.type) lanesConstant] false none none

def overloadedProgram : Program :=
  ⟨{ target := twoLanes, file := "program", symbols := [procedure [.int32], lanesConstant, procedure [.basic .float]] },
    [overloadedCall]⟩

theorem overloaded_read : read twoLanes "program" (some overloadedJson) = .ok overloadedProgram := rfl

theorem read_symbols_overloaded :
    read twoLanes "program" (some overloadedJson) = .ok overloadedProgram ∧
      Expr.Everywhere (Expr.Denotes overloadedProgram.symbols) overloadedCall ∧
      Constant.ValueOf 2 lanesConstant.type ⟨.int32, 2, [.int 1, .int 2]⟩ := by
  obtain ⟨-, -, -, -, hdenotes, -, hvalues⟩ := read_symbols overloaded_read
  refine ⟨overloaded_read, hdenotes overloadedCall (List.mem_singleton_self _), hvalues lanesConstant ?_ _ rfl⟩
  exact List.mem_cons_of_mem _ List.mem_cons_self

end Program

end Spmd
