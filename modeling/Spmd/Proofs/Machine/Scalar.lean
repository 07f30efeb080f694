import Spmd.Proofs.Machine.Word

/-!
# Operators of the machine on scalars

The machine's operators on truth values and integers of a kind. What folding makes of scalars of the kind is what the
machine gives (`Kind.unary_of_fold`, `Kind.binary_of_fold`, `Kind.cast_eq`).
-/

namespace Spmd

namespace Kind

/-! ## Operators -/

def unary (k : Kind) (op : ValueOp) : Scalar → Option Scalar
  | .int n =>
    match op with
    | .neg => some (.int (k.number (-k.word n)))
    | .complement => some (.int (k.number (~~~k.word n)))
    | .not => none
  | .bool b =>
    match op with
    | .not => some (.bool !b)
    | _ => none
  | .real _ => none

def onTruths (op : ArithOp) (a b : Bool) : Option Bool :=
  match op with
  | .and => some (a && b)
  | .or => some (a || b)
  | .xor => some (a ^^ b)
  | _ => none

def compareTruths (op : CompareOp) (a b : Bool) : Bool :=
  match op with
  | .lt => !a && b
  | .gt => a && !b
  | .le => !a || b
  | .ge => a || !b
  | .eq => a == b
  | .ne => a != b

def arith (k : Kind) (op : ArithOp) : Scalar → Scalar → Option Scalar
  | .int a, .int b => (k.onWords op (k.word a) (k.word b)).map fun w => .int (k.number w)
  | .bool a, .bool b => (onTruths op a b).map .bool
  | _, _ => none

def compare (k : Kind) (op : CompareOp) : Scalar → Scalar → Option Scalar
  | .int a, .int b => some (.bool (k.compareWords op (k.word a) (k.word b)))
  | .bool a, .bool b => some (.bool (compareTruths op a b))
  | _, _ => none

/-- An integer becomes a truth value by whether it is zero, and an integer of another kind by its low bits. -/
def cast (k : Kind) : Scalar → Option Scalar
  | .int n => some (if k = .bool then .bool (n ≠ 0) else .int (k.number (k.word n)))
  | .bool b => some (if k = .bool then .bool b else .int (if b then 1 else 0))
  | .real _ => none

variable {k : Kind} {a b v x : Scalar}

/-! ## Results -/

theorem fits_number (hk : k.isInteger = true) (w : BitVec k.bits) : (Scalar.int (k.number w)).Fits k :=
  ⟨hk, holds_number w⟩

theorem unary_fits {op : ValueOp} (ha : a.Fits k) (h : k.unary op a = some v) : v.Fits k := by
  cases a with
  | int n =>
    cases op with
    | neg => cases h; exact fits_number ha.1 _
    | complement => cases h; exact fits_number ha.1 _
    | not => cases h
  | bool b =>
    cases op with
    | not => cases h; exact ha
    | _ => cases h
  | real r => cases h

theorem arith_fits {op : ArithOp} (ha : a.Fits k) (h : k.arith op a b = some v) : v.Fits k := by
  cases a with
  | int n =>
    cases b with
    | int m =>
      obtain ⟨w, -, rfl⟩ := Option.map_eq_some_iff.mp h
      exact fits_number ha.1 w
    | _ => cases h
  | bool p =>
    cases b with
    | bool q =>
      obtain ⟨r, -, rfl⟩ := Option.map_eq_some_iff.mp h
      exact ha
    | _ => cases h
  | real r => cases h

theorem compare_fits {op : CompareOp} (h : k.compare op a b = some v) : v.Fits .bool := by
  cases a with
  | int n =>
    cases b with
    | int m => cases h; rfl
    | _ => cases h
  | bool p =>
    cases b with
    | bool q => cases h; rfl
    | _ => cases h
  | real r => cases h

theorem holds_truth (hk : k.isInteger = true) (p : Bool) : k.holds (if p then 1 else 0) = true := by
  revert hk
  cases k <;> cases p <;> decide

theorem isInteger_of (hb : k ≠ .bool) (hf : k.isFloat = false) : k.isInteger = true := by
  simp [isInteger, hb, hf]

theorem cast_fits (hf : k.isFloat = false) (h : k.cast a = some v) : v.Fits k := by
  cases a with
  | int n =>
    cases h
    split
    · rename_i hb
      exact hb
    · rename_i hb
      exact fits_number (isInteger_of hb hf) _
  | bool p =>
    cases h
    split
    · rename_i hb
      exact hb
    · rename_i hb
      have hk := isInteger_of hb hf
      exact ⟨hk, holds_truth hk p⟩
  | real r => cases h

end Kind

/-! ## Storing scalars -/

/-- The narrow kinds lose nothing to the 32 bits that their integers pass through. -/
theorem Kind.wrap_narrow {k : Kind} (hk : k.isWide = false) (hf : k.isFloat = false) (n : Int) :
    k.wrap (n.bmod Kind.int32.span) = k.wrap n := by
  cases k with
  | int64 => cases hk
  | uint64 => cases hk
  | float => cases hf
  | double => cases hf
  | _ => simp [wrap, span, bits, isUnsigned, Int.bmod_def]; omega

namespace Scalar

variable {k : Kind} {x : Scalar}

theorem toKind_int (hk : k.isInteger = true) (n : Int) : (Scalar.int n).toKind k = .int (k.wrap n) := by
  cases k with
  | bool => cases hk
  | float => cases hk
  | double => cases hk
  | int64 => exact congrArg Scalar.int (Kind.wrap_wrap _ n)
  | uint64 => exact congrArg Scalar.int (Kind.wrap_wrap _ n)
  | _ => exact congrArg Scalar.int (Kind.wrap_narrow rfl rfl n)

theorem toKind_bool (hk : k.isInteger = true) (p : Bool) :
    (Scalar.bool p).toKind k = .int (k.wrap (if p then 1 else 0)) := by
  cases k with
  | bool => cases hk
  | float => cases hk
  | double => cases hk
  | int64 => exact congrArg Scalar.int (Kind.wrap_wrap _ _)
  | uint64 => exact congrArg Scalar.int (Kind.wrap_wrap _ _)
  | _ => rfl

theorem toKind_of_fits (hf : k.isFloat = false) (h : x.Fits k) : x.toKind k = x := by
  cases x with
  | bool b => cases (show k = .bool from h); rfl
  | int n => rw [toKind_int h.1, Kind.wrap_of_holds h.2]
  | real r => exact absurd (show k.isFloat = true from h) (by simp [hf])

end Scalar

/-! ## Folding is what the machine does -/

namespace Kind

variable {k : Kind} {a b v x : Scalar}

theorem unary_of_fold {op : ValueOp} (ha : a.Fits k) (hx : foldUnaryLane (.value op) a = .value x)
    (h : k.unary op a = some v) : v = x.toKind k := by
  cases a with
  | int n =>
    cases op with
    | neg =>
      cases hx
      cases h
      rw [Scalar.toKind_int ha.1, ← number_word, word, word, BitVec.ofInt_neg]
    | complement =>
      have hword : k.word (-n - 1) = ~~~k.word n := by
        simp only [word, Int.sub_eq_add_neg, BitVec.ofInt_add, BitVec.ofInt_neg, BitVec.ofInt_ofNat,
          BitVec.not_eq_neg_add, BitVec.sub_eq_add_neg]
      cases hx
      cases h
      rw [Scalar.toKind_int ha.1, ← number_word, hword]
    | not => cases h
  | bool b =>
    cases op with
    | not =>
      have hk : k = .bool := ha
      subst hk
      cases hx
      cases h
      rfl
    | _ => cases h
  | real r => cases h

theorem map_eq_value {α β : Type} {f : α → β} {r : Folded α} {y : β} (h : r.map f = .value y) :
    ∃ z, r = .value z ∧ y = f z := by
  cases r with
  | value z => cases h; exact ⟨z, rfl, rfl⟩
  | _ => cases h

theorem onTruths_of_onBools {op : ArithOp} {p q r : Bool} (h : op.onBools p q = .value r) : onTruths op p q = some r := by
  cases op with
  | and => cases h; rfl
  | or => cases h; rfl
  | xor => cases h; cases p <;> cases q <;> rfl
  | _ => cases h

theorem compareTruths_eq (op : CompareOp) (p q : Bool) :
    compareTruths op p q = op.onInts (Scalar.bool p).toInt (Scalar.bool q).toInt := by
  cases op <;> cases p <;> cases q <;> rfl

section
variable (ha : a.Fits k) (hb : b.Fits k)
include ha hb

theorem arith_of_fold {op : ArithOp} (hx : foldLane (.arith op) k a b = .value x) (h : k.arith op a b = some v) :
    v = x.toKind k := by
  cases a with
  | int n =>
    cases b with
    | int m =>
      obtain ⟨r, hr, rfl⟩ := map_eq_value hx
      rw [arith, word_of_onInts ha.2 hb.2 hr, Option.map_some, number_word] at h
      cases h
      rw [Scalar.toKind_int ha.1]
    | _ => cases h
  | bool p =>
    cases b with
    | bool q =>
      have hk : k = .bool := ha
      obtain ⟨r, hr, rfl⟩ := map_eq_value hx
      rw [arith, onTruths_of_onBools hr] at h
      cases h
      subst hk
      rfl
    | _ => cases h
  | real r => cases h

theorem compare_of_fold {op : CompareOp} (hx : foldLane (.compare op) k a b = .value x)
    (h : k.compare op a b = some v) : v = x.toKind .bool := by
  cases a with
  | int n =>
    cases b with
    | int m =>
      cases hx
      cases h
      rw [compareWords_eq ha.2 hb.2]
      rfl
    | _ => cases h
  | bool p =>
    cases b with
    | bool q =>
      cases hx
      cases h
      rw [compareTruths_eq]
      rfl
    | _ => cases h
  | real r => cases h

end

theorem cast_eq (hf : k.isFloat = false) (h : k.cast a = some v) : v = a.toKind k := by
  cases a with
  | int n =>
    cases h
    split
    · rename_i hk
      subst hk
      rfl
    · rename_i hk
      rw [Scalar.toKind_int (isInteger_of hk hf), number_word]
  | bool p =>
    cases h
    split
    · rename_i hk
      subst hk
      rfl
    · rename_i hk
      have hint := isInteger_of hk hf
      rw [Scalar.toKind_bool hint, wrap_of_holds (holds_truth hint p)]
  | real r => cases h

theorem cast_of_fits (ha : a.Fits k) (hf : k.isFloat = false) (h : k.cast a = some v) : v = a := by
  rw [cast_eq hf h, Scalar.toKind_of_fits hf ha]

end Kind

end Spmd
