import Spmd.Proofs.Constant.Casting

/-!
# Wrapping through another kind

An integer that is wrapped to a kind depends only on its low bits. A kind at least as wide passes these on
(`Kind.wrap_wrap_of_le`). The way back from a narrower kind restores an integer of the wider one exactly when the narrower kind has
this integer, or the negative one of the same bits (`Kind.wrap_back_eq_self`).
-/

namespace Spmd.Kind

variable {j k : Kind} {a b n : Int}

theorem wrap_eq_wrap : k.wrap a = k.wrap b ↔ a ≡ b [ZMOD 2 ^ k.bits] := by
  constructor
  · intro h
    exact (k.wrap_congruent a).symm.trans (h ▸ k.wrap_congruent b)
  · intro h
    rw [← span_eq] at h
    unfold wrap
    split
    · exact h
    · rw [Int.bmod_def, Int.bmod_def, h]

theorem wrap_eq_self : k.wrap n = n ↔ k.holds n = true := by
  constructor
  · intro h
    rw [← h]
    exact holds_wrap k n
  · exact wrap_of_holds

/-- Of the integers that agree in the bits of a kind, the kind has one. -/
theorem eq_wrap (ha : k.holds a = true) (h : a ≡ b [ZMOD 2 ^ k.bits]) : a = k.wrap b :=
  (wrap_of_holds ha).symm.trans (wrap_eq_wrap.mpr h)

theorem wrap_wrap_of_le (h : k.bits ≤ j.bits) (n : Int) : k.wrap (j.wrap n) = k.wrap n :=
  wrap_eq_wrap.mpr ((j.wrap_congruent n).of_dvd (pow_dvd_pow 2 h))

theorem wrap_sub_span (h : k.bits ≤ j.bits) (n : Int) : k.wrap (n - j.span) = k.wrap n := by
  refine wrap_eq_wrap.mpr (Int.modEq_iff_dvd.mpr ?_)
  rw [sub_sub_cancel, span_eq]
  exact pow_dvd_pow 2 h

/-- The integers of a kind, signed or not, lie within its span. -/
theorem bounds_of_holds (h : k.holds n = true) : -(k.span : Int) ≤ 2 * n ∧ n < k.span := by
  simp only [holds, Bool.and_eq_true, decide_eq_true_eq] at h
  cases k <;> simp [least, greatest, span, bits, isUnsigned] at h ⊢ <;> omega

/-- An integer within half the span is kept by wrapping, or a negative one is read without its sign. -/
theorem wrap_of_small (hk : k.isInteger = true) (hlow : -(k.span : Int) ≤ 2 * n) (hhigh : 2 * n < k.span) :
    k.wrap n = n ∨ k.wrap n = n + k.span := by
  revert hk
  cases k <;> simp [wrap, span, bits, isUnsigned, isInteger, Int.bmod_def] at hlow hhigh ⊢ <;> omega

theorem two_mul_span_le (h : k.bits < j.bits) : 2 * (k.span : Int) ≤ j.span := by
  have hpow : (2 : Int) ^ (k.bits + 1) ≤ 2 ^ j.bits := pow_le_pow_right₀ (by decide) h
  rwa [span_eq, span_eq, ← pow_succ']

theorem wrap_back_eq_self (hj : j.isInteger = true) (hn : j.holds n = true) :
    j.wrap (k.wrap n) = n ↔ j.bits ≤ k.bits ∨ k.holds n = true ∨ k.holds (n - j.span) = true := by
  constructor
  · intro h
    rcases Nat.lt_or_ge k.bits j.bits with hbits | hbits
    · right
      -- half of the wider span has room for every integer of the narrower kind, so that only its sign can change on the way back
      have hspan := two_mul_span_le hbits
      obtain ⟨hlow, hhigh⟩ := bounds_of_holds (holds_wrap k n)
      rcases wrap_of_small hj (n := k.wrap n) (by omega) (by omega) with hw | hw
      · left
        rw [← h, hw]
        exact holds_wrap k n
      · right
        rw [← h, hw, add_sub_cancel_right]
        exact holds_wrap k n
    · exact .inl hbits
  · rintro (hbits | hholds | hholds)
    · rw [wrap_wrap_of_le hbits, wrap_of_holds hn]
    · rw [wrap_of_holds hholds, wrap_of_holds hn]
    · rcases Nat.lt_or_ge k.bits j.bits with hbits | hbits
      · rw [← wrap_sub_span hbits.le, wrap_of_holds hholds, wrap_sub_span le_rfl, wrap_of_holds hn]
      · rw [wrap_wrap_of_le hbits, wrap_of_holds hn]

/-- Only a signed kind can have the negative integer of the same bits, and only an unsigned kind the integer in its place. -/
theorem not_holds_sub_span (hn : j.holds n = true) (hbits : k.bits < j.bits) (hsign : j.isUnsigned = true → k.isUnsigned = true) :
    k.holds (n - j.span) = false := by
  have hspan := two_mul_span_le hbits
  have hpos : 0 < k.span := Nat.pow_pos two_pos
  rw [Bool.eq_false_iff]
  intro hholds
  simp only [holds, Bool.and_eq_true, decide_eq_true_eq] at hn hholds
  simp only [least, greatest] at hn hholds
  cases hj : j.isUnsigned with
  | true =>
    simp only [hj, hsign hj, if_true] at hn hholds
    omega
  | false =>
    simp only [hj, Bool.false_eq_true, if_false] at hn
    split at hholds <;> omega

end Spmd.Kind
