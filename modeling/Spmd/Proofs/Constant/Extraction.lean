import Spmd.Proofs.Constant.Canonical

/-!
# Extraction

What is read from a constant as a kind is what the constant holds after its conversion to that kind, whether the elements are read
once or in every lane. Only truth values are not read as numbers (`extraction_agrees`).
-/

namespace Spmd

/-! ## Reading one scalar -/

namespace Scalar

variable {k : Kind} {s : Scalar}

theorem lowBits_eq_wrap (k : Kind) (n : Int) : lowBits k n = k.wrap n := k.number_word n

/-- Reading an integer through the low bits of a kind and storing it in the kind are the same. -/
theorem read_eq_store (hk : k.isInteger = true) (hs : ∀ b, s ≠ .bool b) : s.read k = s.store k := by
  obtain ⟨hb, hf⟩ := Kind.isInteger_spec hk
  have hb : k ≠ .bool := by simpa using hb
  have hstore : s.store k = .int (k.wrap s.toInt) := by
    rw [store, if_neg hb, hf, if_neg Bool.false_ne_true]
  rw [hstore]
  cases s with
  | bool b => exact absurd rfl (hs b)
  | int n => rw [read, if_pos hk, lowBits_eq_wrap, toInt]
  | real x => rw [read, if_pos hk, lowBits_eq_wrap, toInt]

theorem coerce_ne_bool (hk : k ≠ .bool) (s : Scalar) (b : Bool) : s.coerce k ≠ .bool b := by
  unfold coerce
  rw [if_neg hk]
  split
  · nofun
  · split
    · nofun
    · cases s <;> nofun

theorem read_coerce (k : Kind) (s : Scalar) : (s.coerce k).read k = s.toKind k := by
  obtain hf | rfl | rfl := k.isFloat_cases
  · by_cases hb : k = .bool
    · rw [hb]
      rfl
    · exact read_eq_store (Kind.isInteger_of hb hf) (coerce_ne_bool hb s)
  · rw [toKind_float]
    rfl
  · rfl

end Scalar

/-! ## Reading constants -/

namespace Constant

variable {width : Nat} {c : Constant}

/-- The elements that are read are those of the converted constant, as many as there are or one for each lane. Nothing is read
from truth values as a kind of numbers. -/
theorem extraction_agrees (hc : c.Sound width) (k : Kind) (full : Bool) :
    ((c.kind = .bool → k = .bool) →
      ∃ elements, c.extract k full = .ok elements ∧ elements.length = (if full then width else c.count) ∧
        ∀ i < elements.length, ∃ x, elements[i]? = some x ∧ (c.convert k).lane i = .ok x) ∧
    (c.kind = .bool → k ≠ .bool → c.extract k full = .ok []) := by
  refine ⟨fun hk => ?_, fun hb hk => if_pos ⟨hb, hk⟩⟩
  obtain ⟨elements, he, hlen, hlanes⟩ := extract_ok hc hk full
  refine ⟨elements, he, hlen, fun i hi => ?_⟩
  obtain ⟨a, ha, hx⟩ := hlanes i hi
  rw [Scalar.read_coerce] at hx
  exact ⟨_, hx, convert_lane ha⟩

/-- One number read in every lane as a narrow kind: it loses its fraction first, then its high bits. -/
theorem extraction_agrees_narrow :
    let c : Constant := ⟨.double, 2, [.real (.finite (-515 / 2))]⟩
    c.Sound 2 ∧ c.kind ≠ .bool ∧
      ∃ elements, c.extract .uint8 true = .ok elements ∧ elements = [.int 255, .int 255] ∧
        ∀ i < 2, ∃ x, elements[i]? = some x ∧ (c.convert .uint8).lane i = .ok x := by
  intro c
  have hc : c.Sound 2 := by decide
  have hkind : c.kind ≠ .bool := by decide
  obtain ⟨elements, he, hlength, hlanes⟩ := (extraction_agrees hc .uint8 true).1 fun h => absurd h hkind
  refine ⟨hc, hkind, elements, he, ?_, fun i hi => hlanes i (by rwa [hlength])⟩
  cases he
  decide +kernel

end Constant

end Spmd
