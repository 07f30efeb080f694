import Spmd.Proofs.Constant.Outcome
import Spmd.Proofs.Machine.Scalar

/-!
# Folding as machine arithmetic

Folding two constants of truth values or integers gives in every lane what the machine gives for the operands of that
lane. It reports a problem exactly where an integer is divided by zero, and gives nothing exactly where an operator does
not apply to the kind or shifts beyond its bits (`folding_is_machine_arithmetic`).
-/

namespace Spmd

/-! ## Operators -/

/-- The mathematical relation that a comparison decides. -/
def CompareOp.Relates (op : CompareOp) (a b : Int) : Prop :=
  match op with
  | .lt => a < b
  | .gt => a > b
  | .le => a ≤ b
  | .ge => a ≥ b
  | .eq => a = b
  | .ne => a ≠ b

instance (op : CompareOp) (a b : Int) : Decidable (op.Relates a b) := by
  unfold CompareOp.Relates
  cases op <;> infer_instance

namespace Kind

variable {k : Kind} {a b x : Scalar}

/-- What the machine gives for two operands of a kind. Truth values compare as the numbers zero and one. -/
def binary (k : Kind) (op : BinaryOp) (a b : Scalar) : Option Scalar :=
  match op with
  | .arith op => k.arith op a b
  | .compare op => some (.bool (op.Relates a.toInt b.toInt))
  | .logic op =>
    match a, b with
    | .bool p, .bool q => some (.bool (match op with | .and => p && q | .or => p || q))
    | _, _ => none
  | .comma => none

/-! ## One lane -/

theorem exists_unary {op : ValueOp} (hk : k.isFloat = false) (ha : a.Fits k)
    (hx : foldUnaryLane (.value op) a = .value x) : ∃ v, k.unary op a = some v := by
  cases a with
  | int n =>
    cases op with
    | not => cases hx
    | _ => exact ⟨_, rfl⟩
  | bool p =>
    cases op with
    | not => exact ⟨_, rfl⟩
    | _ => cases hx
  | real r => exact absurd (show k.isFloat = true from ha) (by simp [hk])

theorem unary_of_value {op : ValueOp} (hk : k.isFloat = false) (ha : a.Fits k)
    (hx : foldUnaryLane (.value op) a = .value x) : k.unary op a = some (x.toKind k) := by
  obtain ⟨v, hv⟩ := exists_unary hk ha hx
  rw [hv, unary_of_fold ha hx hv]

section
variable (hk : k.isFloat = false) (ha : a.Fits k) (hb : b.Fits k)
include hk ha hb

theorem exists_arith {op : ArithOp} (hx : foldLane (.arith op) k a b = .value x) : ∃ v, k.arith op a b = some v := by
  obtain ⟨rfl, p, q, rfl, rfl⟩ | ⟨-, n, m, rfl, rfl, hn, hm⟩ | ⟨hf, -⟩ := Scalar.fits_pair ha hb
  · obtain ⟨r, hr, -⟩ := map_eq_value hx
    exact ⟨.bool r, by rw [arith, onTruths_of_onBools hr]; rfl⟩
  · obtain ⟨r, hr, -⟩ := map_eq_value hx
    exact ⟨_, by rw [arith, word_of_onInts hn hm hr]; rfl⟩
  · exact absurd hf (by simp [hk])

theorem compare_value {op : CompareOp} (hx : foldLane (.compare op) k a b = .value x) :
    x.toKind .bool = .bool (op.Relates a.toInt b.toInt) := by
  obtain ⟨rfl, p, q, rfl, rfl⟩ | ⟨-, n, m, rfl, rfl, -, -⟩ | ⟨hf, -⟩ := Scalar.fits_pair ha hb
  · cases hx
    cases op <;> rfl
  · cases hx
    cases op <;> rfl
  · exact absurd hf (by simp [hk])

/-- A lane that folds holds what the machine gives. -/
theorem binary_of_value {op : BinaryOp} (hx : foldLane op k a b = .value x) :
    k.binary op a b = some (x.toKind (op.resultKind k)) := by
  cases op with
  | arith op =>
    obtain ⟨v, hv⟩ := exists_arith hk ha hb hx
    exact hv.trans (congrArg some (arith_of_fold ha hb hx hv))
  | compare op => exact congrArg some (compare_value hk ha hb hx).symm
  | logic op =>
    obtain ⟨rfl, p, q, rfl, rfl⟩ | ⟨-, n, m, rfl, rfl, -, -⟩ | ⟨hf, -⟩ := Scalar.fits_pair ha hb
    · cases hx
      cases op <;> rfl
    · cases hx
    · exact absurd hf (by simp [hk])
  | comma => cases a <;> cases b <;> cases hx

end

end Kind

/-! ## Constants -/

theorem folding_is_machine_arithmetic {width : Nat} {k : Kind} {l r : Constant} (hw : 0 < width) (hk : k.isFloat = false)
    (hl : l.Sound width) (hr : r.Sound width) (hlk : l.kind = k) (hrk : r.kind = k) :
    (∀ op : BinaryOp, ∃ f, foldBinary (some op) k l r = .ok f ∧
      (∀ p, f = .problem p ↔
        k.isInteger = true ∧ op.zeroProblem? = some p ∧ ∃ i < width, r.lane i = .ok (.int 0)) ∧
      (f = .unfoldable ↔
        op.appliesTo k = false ∨
          op.shifts = true ∧ ∃ n, (∃ i < width, r.lane i = .ok (.int n)) ∧ ¬(0 ≤ n ∧ n < k.bits)) ∧
      ∀ c, f = .value c → c.Sound width ∧ c.kind = op.resultKind k ∧ c.count = max l.count r.count ∧
        ∀ i < width, ∃ a b v, l.lane i = .ok a ∧ r.lane i = .ok b ∧ c.lane i = .ok v ∧ k.binary op a b = some v) ∧
    ∀ op : ValueOp, ∃ f, foldUnary (.value op) l = .ok f ∧ (∀ p, f ≠ .problem p) ∧
      (f = .unfoldable ↔ op.appliesTo k = false) ∧
      ∀ c, f = .value c → c.Sound width ∧ c.kind = k ∧ c.count = l.count ∧
        ∀ i < width, ∃ a v, l.lane i = .ok a ∧ c.lane i = .ok v ∧ k.unary op a = some v := by
  refine ⟨fun op => ?_, fun op => ?_⟩
  · obtain ⟨f, hf, hvalue⟩ := foldBinary_ok hw hl hr op k
    have ho := foldBinary_outcome hw hl hr hlk hrk hf
    refine ⟨f, hf, fun p => ⟨fun hp => ?_, fun ⟨_, hz⟩ => (ho.problem p).mpr hz⟩, ho.unfoldable, fun c hc => ?_⟩
    · obtain ⟨hz, i, hi, hlane⟩ := (ho.problem p).mp hp
      exact ⟨hrk ▸ (hr.lane_fits hlane).1, hz, i, hi, hlane⟩
    · obtain ⟨-, -, hcount, hs, hkind, hlanes⟩ := hvalue c hc
      refine ⟨hs, hkind, hcount, fun i hi => ?_⟩
      obtain ⟨x, ⟨a, b, ha, hb, hx⟩, hlane⟩ := hlanes i hi
      exact ⟨a, b, _, ha, hb, hlane, Kind.binary_of_value hk (hlk ▸ hl.lane_fits ha) (hrk ▸ hr.lane_fits hb) hx⟩
  · obtain ⟨f, hf, hvalue⟩ := foldUnary_ok hl (.value op)
    obtain ⟨hp, hu⟩ := foldUnary_outcome hw hl hf
    refine ⟨f, hf, hp, hlk ▸ hu, fun c hc => ?_⟩
    obtain ⟨hcount, hs, hkind, hlanes⟩ := hvalue c hc
    refine ⟨hs, hkind.trans hlk, hcount, fun i hi => ?_⟩
    obtain ⟨x, ⟨a, ha, hx⟩, hlane⟩ := hlanes i hi
    rw [hlk] at hlane
    exact ⟨a, _, ha, hlane, Kind.unary_of_value hk (hlk ▸ hl.lane_fits ha) hx⟩

/-- The least number of a kind divided by minus one is itself again; the other lanes divide by numbers of their own. -/
theorem folding_least_by_minus_one :
    let l : Constant := ⟨.int8, 4, [.int (-128)]⟩
    let r : Constant := ⟨.int8, 4, [.int (-1), .int 3, .int (-3), .int 127]⟩
    l.Sound 4 ∧ r.Sound 4 ∧
      ∃ c, foldBinary (some (.arith .div)) .int8 l r = .ok (.value c) ∧ c.lane 0 = .ok (.int (-128)) ∧
        c.lane 1 = .ok (.int (-42)) := by
  intro l r
  have hl : l.Sound 4 := by decide
  have hr : r.Sound 4 := by decide
  obtain ⟨f, hf, hp, hu, hv⟩ := (folding_is_machine_arithmetic (k := .int8) (by decide) rfl hl hr rfl rfl).1 (.arith .div)
  cases f with
  | problem p =>
    obtain ⟨-, -, i, -, hzero⟩ := (hp p).mp rfl
    exact absurd (List.mem_of_getElem? (Constant.lane_eq_ok.mp hzero)) (by decide)
  | unfoldable =>
    obtain ha | ⟨hs, -⟩ := hu.mp rfl
    · cases ha
    · cases hs
  | value c =>
    obtain ⟨-, -, -, hlanes⟩ := hv c rfl
    obtain ⟨a, b, v, ha, hb, hv, hbinary⟩ := hlanes 0 (by decide)
    obtain ⟨a', b', v', ha', hb', hv', hbinary'⟩ := hlanes 1 (by decide)
    cases ha
    cases hb
    cases ha'
    cases hb'
    cases hbinary
    cases hbinary'
    exact ⟨hl, hr, c, hf, hv, hv'⟩

end Spmd
