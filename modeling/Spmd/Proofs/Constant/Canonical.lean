import Spmd.Proofs.Machine.Wrapping
import Spmd.Proofs.Number.Rounding

/-!
# Canonical constants

Whatever scalars a constant is made from, it holds scalars that its kind can represent, and making it again from these changes
nothing. An integer constant comes to the same in another integer kind when it first passes through a kind at least as wide
(`create_canonical`).
-/

namespace Spmd

/-! ## Scalars that a kind represents -/

def Kind.format? : Kind → Option Format
  | .float => some .single
  | .double => some .double
  | _ => none

theorem Kind.isFloat_cases (k : Kind) : k.isFloat = false ∨ k = .float ∨ k = .double := by
  cases k <;> decide

namespace Scalar

/-- A truth value, an integer in the range of the kind, or a number of its format. -/
def Legal (k : Kind) : Scalar → Prop
  | .bool _ => k = .bool
  | .int n => k.isInteger = true ∧ k.holds n = true
  | .real x => ∃ f, k.format? = some f ∧ f.Holds x

/-- Scalars as they are written down: numbers are doubles. -/
def Written : Scalar → Prop
  | .real x => Format.double.Holds x
  | _ => True

variable {k : Kind} {s : Scalar}

/-! ## Numbers -/

theorem toReal_holds (h : s.Written) : Format.double.Holds s.toReal := by
  cases s with
  | bool b =>
    cases b with
    | true => exact ⟨1, 0, by simp, by decide, by decide, by rw [if_pos rfl, abs_one]; exact one_lt_zpow₀ one_lt_two (by decide)⟩
    | false => exact Format.double.holds_zero
  | int n => exact round_holds (by decide) n
  | real x => exact h

theorem toKind_float (s : Scalar) : s.toKind .float = .real (s.toReal.roundTo .single) :=
  congrArg Scalar.real (Binary.roundTo_roundTo (by decide) s.toReal)

theorem toKind_double (s : Scalar) : s.toKind .double = .real s.toReal := rfl

theorem legal_of_fits (hf : k.isFloat = false) (h : s.Fits k) : s.Legal k := by
  cases s with
  | real x => exact absurd (show k.isFloat = true from h) (by simp [hf])
  | _ => exact h

/-! ## Bringing a scalar to a kind -/

theorem toKind_legal (k : Kind) (h : s.Written) : (s.toKind k).Legal k := by
  obtain hf | rfl | rfl := k.isFloat_cases
  · exact legal_of_fits hf (toKind_fits k s)
  · rw [toKind_float]
    exact ⟨.single, rfl, Binary.roundTo_holds (by decide) _⟩
  · rw [toKind_double]
    exact ⟨.double, rfl, toReal_holds h⟩

theorem toKind_toKind (k : Kind) (s : Scalar) : (s.toKind k).toKind k = s.toKind k := by
  obtain hf | rfl | rfl := k.isFloat_cases
  · exact toKind_of_fits hf (toKind_fits k s)
  · rw [toKind_float, toKind_float]
    exact congrArg Scalar.real (Binary.roundTo_roundTo (by decide) s.toReal)
  · rfl

theorem toKind_via {via target : Kind} (hv : via.isInteger = true) (ht : target.isInteger = true)
    (hbits : target.bits ≤ via.bits) (n : Int) : ((Scalar.int n).toKind via).toKind target = (Scalar.int n).toKind target := by
  rw [toKind_int hv, toKind_int ht, toKind_int ht, Kind.wrap_wrap_of_le hbits]

end Scalar

/-! ## Constants -/

namespace Constant

variable {width : Nat} {c : Constant}

theorem convert_convert (c : Constant) (j k : Kind) :
    (c.convert j).convert k = ⟨k, c.width, c.lanes.map fun s => (s.toKind j).toKind k⟩ := by
  rw [convert, convert, List.map_map]
  rfl

theorem Sound.int_of_mem (h : c.Sound width) (hk : c.kind.isInteger = true) {s : Scalar} (hs : s ∈ c.lanes) :
    ∃ n, s = .int n ∧ c.kind.holds n = true := by
  have hf := h.fits s hs
  obtain ⟨hb, hfloat⟩ := Kind.isInteger_spec hk
  cases s with
  | bool b => simp [show c.kind = .bool from hf] at hb
  | int n => exact ⟨n, rfl, hf.2⟩
  | real x => exact absurd (show c.kind.isFloat = true from hf) (by simp [hfloat])

theorem convert_via (h : c.Sound width) (hk : c.kind.isInteger = true) {via target : Kind} (hv : via.isInteger = true)
    (ht : target.isInteger = true) (hbits : target.bits ≤ via.bits) : (c.convert via).convert target = c.convert target := by
  rw [convert_convert, convert]
  refine congrArg (Constant.mk target c.width) (List.map_congr_left fun s hs => ?_)
  obtain ⟨n, rfl, -⟩ := h.int_of_mem hk hs
  exact Scalar.toKind_via hv ht hbits n

/-- Making a constant from one scalar, or one for each lane, gives scalars that its kind represents. They stay as they are when
the constant is converted to its own kind, and an integer kind at least as wide as the target loses nothing on the way to it. -/
theorem create_canonical (width : Nat) (k : Kind) (values : List Scalar) (hn : values.length = 1 ∨ values.length = width)
    (hd : ∀ s ∈ values, s.Written) :
    ∃ c, create width k values = .ok c ∧ c.kind = k ∧ c.count = values.length ∧ (∀ s ∈ c.lanes, s.Legal k) ∧
      (c.convert k).same c = true ∧
      (k.isInteger = true → ∀ via target : Kind, via.isInteger = true → target.isInteger = true →
        target.bits ≤ via.bits → (c.convert via).convert target = c.convert target) := by
  obtain ⟨c, hc, hsound, rfl, hlanes⟩ := create_ok width k values hn
  have hlegal : ∀ s ∈ c.lanes, s.Legal c.kind := by
    intro s hs
    rw [hlanes] at hs
    obtain ⟨v, hv, rfl⟩ := List.mem_map.mp hs
    exact Scalar.toKind_legal c.kind (hd v hv)
  have hsame : (c.convert c.kind).lanes = c.lanes := by
    rw [convert, hlanes, List.map_map]
    exact List.map_congr_left fun v _ => Scalar.toKind_toKind c.kind v
  refine ⟨c, hc, rfl, by rw [count, hlanes, List.length_map], hlegal, ?_, ?_⟩
  · rw [same, hsame, convert, beq_self_eq_true, beq_self_eq_true]
    rfl
  · exact fun hk via target hv ht hbits => convert_via hsound hk hv ht hbits

/-- Scalars of every sort in a narrow kind without a sign. The negative number loses its fraction before it wraps. -/
theorem create_canonical_mixed :
    let values : List Scalar := [.bool true, .int (2 ^ 70 - 1), .real (.infinite true), .real (.finite (-3 / 2))]
    (∀ s ∈ values, s.Written) ∧
      ∃ c, create 4 .uint16 values = .ok c ∧ c.lanes = [.int 1, .int 65535, .int 0, .int 65535] ∧
        (∀ s ∈ c.lanes, s.Legal .uint16) ∧ (c.convert .uint16).same c = true ∧
        (c.convert .int16).convert .int8 = c.convert .int8 := by
  intro values
  have hd : ∀ s ∈ values, s.Written := by
    intro s hs
    simp only [values, List.mem_cons, List.not_mem_nil, or_false] at hs
    obtain rfl | rfl | rfl | rfl := hs
    · trivial
    · trivial
    · trivial
    · have hsmall : |(-3 / 2 : ℚ)| < 2 ^ Format.double.ceiling := by
        calc |(-3 / 2 : ℚ)| = 3 / 2 := by norm_num [abs_of_neg]
          _ < 2 ^ (1 : ℤ) := by norm_num
          _ ≤ 2 ^ Format.double.ceiling := zpow_le_zpow_right₀ one_le_two (by decide)
      exact ⟨-3, -1, by norm_num, by decide, by decide, hsmall⟩
  obtain ⟨c, hc, -, -, hlegal, hsame, hvia⟩ := create_canonical 4 .uint16 values (.inr rfl) hd
  refine ⟨hd, c, hc, ?_, hlegal, hsame, hvia rfl .int16 .int8 rfl rfl (by decide)⟩
  cases hc
  decide +kernel

end Constant

end Spmd
