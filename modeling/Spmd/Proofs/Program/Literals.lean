import Spmd.Proofs.Machine.Wrapping
import Spmd.Proofs.Program.Loaded

/-!
# Literals without a type

A literal of whole numbers that states no type is an `int32`, whatever the size of the numbers. Its lanes are the integers of this
kind that agree with the numbers in its bits, and so those that were written where the kind has them (`readExpr_integers`).
-/

namespace Spmd

/-! ## Whole numbers -/

theorem towardZero_intCast (n : Int) : towardZero n = n := by
  unfold towardZero
  split
  · exact Int.floor_intCast n
  · exact Int.ceil_intCast n

theorem Binary.rational_of_int {x : Binary} {n : Int} (h : x.int? = some n) : x.rational? = some (n : Rat) := by
  obtain ⟨q, hq, h⟩ := Option.bind_eq_some_iff.mp h
  split at h
  · rename_i hden
    cases h
    rw [hq, Rat.den_eq_one_iff q |>.mp hden]
  · cases h

theorem Scalar.toKind_whole {k : Kind} {x : Binary} {n : Int} (hk : k.isInteger = true) (h : x.int? = some n) :
    (Scalar.real x).toKind k = .int (k.wrap n) := by
  rw [toKind_rational hk (Binary.rational_of_int h), towardZero_intCast]

/-! ## What is written -/

namespace Json

/-- What is written for the lanes of a literal. -/
def values : Json → List Json
  | .array items => items
  | json => [json]

def IsWhole (json : Json) (n : Int) : Prop := ∃ x, json = .number x ∧ x.int? = some n

/-- The literal is written with these integers, one for all lanes or one for each. -/
def Writes (json : Json) (ns : List Int) : Prop := List.Forall₂ IsWhole json.values ns

theorem Writes.unique {json : Json} {ms ns : List Int} (hm : json.Writes ms) (hn : json.Writes ns) : ms = ns := by
  refine List.right_unique_forall₂' ?_ hm hn
  rintro j m n ⟨x, rfl, hx⟩ ⟨y, hxy, hy⟩
  cases hxy
  exact Option.some.inj (hx.symm.trans hy)

theorem exists_whole : ∀ {js : List Json}, (∀ j ∈ js, ∃ n, j.IsWhole n) → ∃ ns, List.Forall₂ IsWhole js ns
  | [], _ => ⟨[], .nil⟩
  | j :: js, h => by
    obtain ⟨n, hn⟩ := h j List.mem_cons_self
    obtain ⟨ns, hns⟩ := exists_whole fun k hk => h k (List.mem_cons_of_mem j hk)
    exact ⟨n :: ns, .cons hn hns⟩

theorem Writes.cases {json : Json} {ns : List Int} (h : json.Writes ns) :
    (∃ items, json = .array items ∧ List.Forall₂ IsWhole items ns) ∨ ∃ n, ns = [n] ∧ json.IsWhole n := by
  cases json with
  | array items => exact .inl ⟨items, rfl, h⟩
  | _ =>
    cases h with
    | cons hn hrest =>
      cases hrest
      exact .inr ⟨_, rfl, hn⟩

end Json

/-! ## The type of a literal -/

def Expr.IsInt32 (e : Expr) : Prop := ∃ q, e.type? = some (.scalar q) ∧ q.element = .basic .int32

/-- The type of integers for so many lanes. -/
def laneInt32 (count : Nat) : ScalarTy := ⟨.basic .int32, ⟨if 1 < count then .varying else .uniform, false⟩, none⟩

theorem laneInt32_fits {width count : Nat} (hpos : 0 < width) (h : count = 1 ∨ count = width) :
    (laneInt32 count).qualifiers.variability = .uniform ∧ count = 1 ∨
      (laneInt32 count).qualifiers.variability = .varying ∧ count = width := by
  by_cases hmany : 1 < count
  · exact .inr ⟨if_pos hmany, by omega⟩
  · exact .inl ⟨if_neg hmany, by omega⟩

namespace Scope

variable {scope : Scope} {path : Path} {json : Json} {ns : List Int}

theorem literalType_of_writes (h : json.Writes ns) (hne : ns ≠ []) :
    literalType path json = .ok (.scalar (laneInt32 ns.length)) := by
  have hlength : json.values.length = ns.length := List.Forall₂.length_eq h
  have hwhole : ∀ j ∈ json.values, ∃ n ∈ ns, j.IsWhole n := fun j hj => Forall₂.exists_of_mem h.flip hj
  unfold literalType
  change (if json.values.all _ = true then _ else if json.values.all _ = true then _ else _) = _
  rw [if_neg, if_pos]
  · change Except.ok (Ty.scalar (laneInt32 json.values.length)) = _
    rw [hlength]
  · refine List.all_eq_true.mpr fun j hj => ?_
    obtain ⟨n, -, x, rfl, hx⟩ := hwhole j hj
    simp only [hx, Option.isSome_some]
  · intro hbool
    have hpos : 0 < json.values.length := by
      rw [hlength]
      exact List.length_pos_iff.mpr hne
    obtain ⟨j, hj⟩ := List.exists_mem_of_length_pos hpos
    obtain ⟨n, -, x, rfl, -⟩ := hwhole j hj
    cases List.all_eq_true.mp hbool _ hj

theorem literalType_writes {q : ScalarTy} (h : literalType path json = .ok (.scalar q)) (hq : q.element = .basic .int32) :
    ∃ ns, json.Writes ns := by
  unfold literalType at h
  change (if json.values.all _ = true then _ else if json.values.all _ = true then _ else
    if json.values.all _ = true then _ else _) = _ at h
  split at h
  · cases h
    cases hq
  · split at h
    · rename_i hwhole
      have hall : ∀ j ∈ json.values, ∃ n, j.IsWhole n := by
        intro j hmem
        have hj := List.all_eq_true.mp hwhole j hmem
        split at hj
        · obtain ⟨n, hn⟩ := Option.isSome_iff_exists.mp hj
          exact ⟨n, _, rfl, hn⟩
        · cases hj
      exact Json.exists_whole hall
    · split at h
      · cases h
        cases hq
      · cases h

/-! ## The lanes of a literal -/

/-- The scalar is read from this integer. -/
def Reads (n : Int) (s : Scalar) : Prop := ∃ x, s = .real x ∧ x.int? = some n

theorem readLanes_of_whole {element : Element} (hk : element.kind ≠ .bool) {js : List Json} (h : List.Forall₂ Json.IsWhole js ns)
    (i : Nat) : ∃ xs, readLanes path element i js = .ok xs ∧ List.Forall₂ Reads ns xs := by
  induction h generalizing i with
  | nil => exact ⟨[], rfl, .nil⟩
  | cons hj _ ih =>
    obtain ⟨x, rfl, hx⟩ := hj
    obtain ⟨xs, hxs, hreads⟩ := ih (i + 1)
    refine ⟨.real x :: xs, ?_, .cons ⟨x, rfl, hx⟩ hreads⟩
    rw [readLanes, readScalar, if_neg hk, hxs]
    rfl

theorem readScalars_of_writes {element : Element} (hk : element.kind ≠ .bool) {q : Qualifiers} (h : json.Writes ns)
    (hfits : ns.length = 1 ∨ q.variability = .varying ∧ ns.length = scope.target.width) :
    ∃ xs, scope.readScalars path element q json = .ok xs ∧ List.Forall₂ Reads ns xs := by
  obtain ⟨items, rfl, hitems⟩ | ⟨n, rfl, x, rfl, hx⟩ := h.cases
  · obtain ⟨xs, hxs, hreads⟩ := readLanes_of_whole hk hitems 0
    rw [← List.Forall₂.length_eq hitems] at hfits
    refine ⟨xs, ?_, hreads⟩
    unfold readScalars
    dsimp only
    rw [if_pos (by simpa using hfits), hxs]
  · refine ⟨[.real x], ?_, .cons ⟨x, rfl, hx⟩ .nil⟩
    unfold readScalars readScalar
    dsimp only
    rw [if_neg hk]
    rfl

theorem readScalars_length {element : Element} {q : Qualifiers} {xs : List Scalar}
    (h : scope.readScalars path element q json = .ok xs) : json.values.length = xs.length := by
  unfold readScalars at h
  dsimp only at h
  split at h
  · split at h
    · exact (length_readLanes h).symm
    · cases h
  · rename_i hsingle
    obtain ⟨x, -, h⟩ := bind_eq_ok h
    cases h
    cases json with
    | array items => exact absurd rfl (hsingle items)
    | _ => rfl

theorem map_toKind_of_reads {k : Kind} (hk : k.isInteger = true) {xs : List Scalar} (h : List.Forall₂ Reads ns xs) :
    xs.map (·.toKind k) = ns.map fun n => .int (k.wrap n) := by
  induction h with
  | nil => rfl
  | cons hx _ ih =>
    obtain ⟨x, rfl, hx⟩ := hx
    rw [List.map_cons, List.map_cons, ih, Scalar.toKind_whole hk hx]

/-! ## Literals -/

section
variable {fields : List (String × Json)} (hjson : Json.lookup? "const" fields = some json)
  (huntyped : Json.lookup? "type" fields = none)
include hjson

theorem readExpr_const : scope.readExpr path (.object fields) = scope.readConst path fields := by
  have hform : ExprForm.of? fields = some .const := by
    unfold ExprForm.of? ExprForm.all
    rw [List.find?_cons_of_pos]
    rw [ExprForm.key, hjson]
    rfl
  unfold readExpr
  simp only [hform]

include huntyped

/-- Whole numbers are read as integers of the kind, in the lanes they are written for. -/
theorem readConst_of_writes (h : json.Writes ns) (hcount : ns.length = 1 ∨ ns.length = scope.target.width) :
    scope.readConst path fields = .ok (.const (.typed (scope.place fields) (Ty.scalar (laneInt32 ns.length)).asConst)
      ⟨.int32, scope.target.width, ns.map fun n => .int (Kind.int32.wrap n)⟩) := by
  have hfits := laneInt32_fits scope.target.width_pos hcount
  obtain ⟨xs, hxs, hreads⟩ : ∃ xs, scope.readScalars (path.field "const") (.basic .int32) (laneInt32 ns.length).qualifiers json =
      .ok xs ∧ List.Forall₂ Reads ns xs := readScalars_of_writes (by decide) h (hfits.imp And.right id)
  have hlength : ns.length = xs.length := List.Forall₂.length_eq hreads
  have hne : ns ≠ [] := by
    rintro rfl
    exact hcount.elim nofun scope.target.width_pos.ne
  unfold readConst
  rw [hjson, huntyped]
  dsimp only [Option.getD_some]
  rw [literalType_of_writes h hne]
  change scope.readScalars (path.field "const") (.basic .int32) (laneInt32 ns.length).qualifiers json >>= _ = _
  rw [hxs]
  change Read.lift (Literal.ofScalars scope.target.width (.scalar (laneInt32 ns.length)) xs) >>= _ = _
  rw [Literal.ofScalars_full (hlength ▸ hfits), map_toKind_of_reads rfl hreads]
  rfl

theorem readConst_int32 {e : Expr} (h : scope.readConst path fields = .ok e) (he : e.IsInt32) :
    ∃ ns, json.Writes ns ∧ (ns.length = 1 ∨ ns.length = scope.target.width) := by
  obtain ⟨q, xs, c, rfl, -, hxs, hliteral⟩ := readConst_eq_ok h
  obtain ⟨r, hr, helement⟩ := he
  cases hr
  rw [hjson] at hxs hliteral
  obtain ⟨ns, hns⟩ := literalType_writes (hliteral huntyped) helement
  refine ⟨ns, hns, ?_⟩
  rw [← List.Forall₂.length_eq hns, readScalars_length hxs]
  exact (length_readScalars hxs).imp id And.right

/-- A literal without a type is an `int32` where whole numbers are written, and each of its lanes is the integer of this kind that
agrees with the number written in the bits of the kind. Only a number that the kind has is kept. -/
theorem readExpr_integers :
    (∀ e, scope.readExpr path (.object fields) = .ok e → e.IsInt32 →
      ∃ ns node c, json.Writes ns ∧ e = .const node c ∧ c.kind = .int32 ∧
        List.Forall₂ (fun n s => ∃ m, s = .int m ∧ Kind.int32.holds m = true ∧ m ≡ n [ZMOD 2 ^ 32] ∧
          (m = n ↔ Kind.int32.holds n = true)) ns c.lanes) ∧
      ∀ ns, json.Writes ns → (ns.length = 1 ∨ ns.length = scope.target.width) →
        ∃ e, scope.readExpr path (.object fields) = .ok e ∧ e.IsInt32 := by
  rw [readExpr_const hjson]
  refine ⟨fun e he hint => ?_, fun ns hns hcount => ?_⟩
  · obtain ⟨ns, hns, hcount⟩ := readConst_int32 hjson huntyped he hint
    rw [readConst_of_writes hjson huntyped hns hcount] at he
    cases he
    refine ⟨ns, _, _, hns, rfl, rfl, List.forall₂_map_right_iff.mpr (List.forall₂_same.mpr fun n _ => ?_)⟩
    exact ⟨_, rfl, Kind.holds_wrap .int32 n, Kind.wrap_congruent .int32 n, Kind.wrap_eq_self⟩
  · exact ⟨_, readConst_of_writes hjson huntyped hns hcount, _, rfl, rfl⟩

end

/-- A number that is too great for the kind, and one that is not, for two lanes. -/
def wideLiteral : Json := .array [.number (.finite 2147483648), .number (.finite (-1))]

def twoLaneScope : Scope := { target := ⟨2, .bits64, by decide⟩, file := "program" }

theorem wideLiteral_writes : wideLiteral.Writes [2147483648, -1] := .cons ⟨_, rfl, rfl⟩ (.cons ⟨_, rfl, rfl⟩ .nil)

theorem readExpr_integers_wide :
    ∃ node c, readExpr twoLaneScope (.root "expressions") (.object [("const", wideLiteral)]) = .ok (.const node c) ∧
      (Expr.const node c).IsInt32 ∧ c.lanes = [.int (-2147483648), .int (-1)] := by
  obtain ⟨hread, haccepted⟩ := @readExpr_integers twoLaneScope (.root "expressions") wideLiteral [("const", wideLiteral)] rfl rfl
  obtain ⟨e, he, hint⟩ := haccepted _ wideLiteral_writes (.inr rfl)
  obtain ⟨ns, node, c, hns, rfl, -, hlanes⟩ := hread e he hint
  obtain rfl := hns.unique wideLiteral_writes
  obtain ⟨_, _, ⟨a, rfl, ha, hmoda, -⟩, hrest, hc⟩ := List.forall₂_cons_left_iff.mp hlanes
  obtain ⟨_, _, ⟨b, rfl, hb, hmodb, -⟩, hnil, rfl⟩ := List.forall₂_cons_left_iff.mp hrest
  cases hnil
  refine ⟨node, c, he, hint, hc.trans ?_⟩
  rw [Kind.eq_wrap ha hmoda, Kind.eq_wrap hb hmodb]
  rfl

theorem readExpr_wraps :
    ∃ ns node c, wideLiteral.Writes ns ∧
      readExpr twoLaneScope (.root "expressions") (.object [("const", wideLiteral)]) = .ok (.const node c) ∧
      (Expr.const node c).IsInt32 ∧ ¬List.Forall₂ (fun n s => s = .int n) ns c.lanes := by
  refine ⟨_, _, _, wideLiteral_writes, rfl, ⟨_, rfl, rfl⟩, ?_⟩
  intro h
  cases h with
  | cons hwrapped _ => exact absurd (Scalar.int.inj hwrapped) (by decide)

end Scope

end Spmd
