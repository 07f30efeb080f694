import Mathlib.Algebra.Order.Field.Power
import Mathlib.Data.Rat.Cast.Order
import Mathlib.Tactic.NormNum
import Mathlib.Tactic.Positivity
import Mathlib.Tactic.Ring
import Spmd.Number.Binary

/-!
# Rounding to a format

A format holds the rationals `m * 2 ^ e` with a significand of its precision, an exponent that is not too low, and a magnitude
below its ceiling. Rounding gives a number that the format holds (`round_holds`) and leaves such a number as it is
(`round_of_holds`), so that rounding twice is rounding once (`Binary.roundTo_roundTo`).
-/

namespace Spmd

/-- Whether a number can be written in a format. What is not a rational can be written in every format. -/
def Format.Holds (f : Format) : Binary → Prop
  | .finite q => ∃ m e : Int, q = m * 2 ^ e ∧ |m| < 2 ^ f.precision ∧ f.lowest ≤ e ∧ |q| < 2 ^ f.ceiling
  | _ => True

/-! ## Powers of two -/

theorem scaled_eq (m e : Int) : scaled m e = m * 2 ^ e := by
  unfold scaled
  split
  · rename_i he
    obtain ⟨n, rfl⟩ := Int.eq_ofNat_of_zero_le he
    simp
  · rename_i he
    obtain ⟨n, hn⟩ := Int.eq_ofNat_of_zero_le (show 0 ≤ -e by omega)
    obtain rfl : e = -n := by omega
    rw [neg_neg, Int.toNat_natCast, Rat.mkRat_eq_div, zpow_neg, div_eq_mul_inv]
    simp

section
variable {n d : Nat}

theorem pow_le_quotient (hd : 0 < d) (e : Int) :
    (if 0 ≤ e then d * Nat.pow 2 e.toNat ≤ n else d ≤ n * Nat.pow 2 (-e).toNat) ↔ (2 : ℚ) ^ e ≤ n / d := by
  have hdq : (0 : ℚ) < d := by exact_mod_cast hd
  rw [le_div_iff₀ hdq]
  split
  · rename_i he
    obtain ⟨k, rfl⟩ := Int.eq_ofNat_of_zero_le he
    rw [Int.toNat_natCast, zpow_natCast, mul_comm]
    exact_mod_cast Iff.rfl
  · rename_i he
    obtain ⟨k, hk⟩ := Int.eq_ofNat_of_zero_le (show 0 ≤ -e by omega)
    obtain rfl : e = -k := by omega
    rw [neg_neg, Int.toNat_natCast, zpow_neg, zpow_natCast, inv_mul_le_iff₀ (by positivity), mul_comm]
    exact_mod_cast Iff.rfl

theorem binaryExponent_bounds (hn : 0 < n) (hd : 0 < d) :
    (2 : ℚ) ^ binaryExponent n d ≤ n / d ∧ (n / d : ℚ) < 2 ^ (binaryExponent n d + 1) := by
  have hdq : (0 : ℚ) < d := by exact_mod_cast hd
  have hnlow : (2 : ℚ) ^ (n.log2 : ℤ) ≤ n := by exact_mod_cast Nat.log2_self_le hn.ne'
  have hnhigh : (n : ℚ) < 2 ^ ((n.log2 : ℤ) + 1) := by exact_mod_cast Nat.lt_log2_self (n := n)
  have hdlow : (2 : ℚ) ^ (d.log2 : ℤ) ≤ d := by exact_mod_cast Nat.log2_self_le hd.ne'
  have hdhigh : (d : ℚ) < 2 ^ ((d.log2 : ℤ) + 1) := by exact_mod_cast Nat.lt_log2_self (n := d)
  have htwo : (2 : ℚ) ≠ 0 := two_ne_zero
  have habove : (n / d : ℚ) < 2 ^ ((n.log2 : ℤ) - d.log2 + 1) := by
    rw [div_lt_iff₀ hdq]
    calc (n : ℚ) < 2 ^ ((n.log2 : ℤ) + 1) := hnhigh
      _ = 2 ^ ((n.log2 : ℤ) - d.log2 + 1) * 2 ^ (d.log2 : ℤ) := by rw [← zpow_add₀ htwo]; congr 1; ring
      _ ≤ 2 ^ ((n.log2 : ℤ) - d.log2 + 1) * d := by gcongr
  have hbelow : (2 : ℚ) ^ ((n.log2 : ℤ) - d.log2 - 1) ≤ n / d := by
    rw [le_div_iff₀ hdq]
    calc (2 : ℚ) ^ ((n.log2 : ℤ) - d.log2 - 1) * d
        ≤ 2 ^ ((n.log2 : ℤ) - d.log2 - 1) * 2 ^ ((d.log2 : ℤ) + 1) := by gcongr
      _ = 2 ^ (n.log2 : ℤ) := by rw [← zpow_add₀ htwo]; congr 1; ring
      _ ≤ n := hnlow
  have hexponent : binaryExponent n d =
      if (2 : ℚ) ^ ((n.log2 : ℤ) - d.log2) ≤ n / d then (n.log2 : ℤ) - d.log2 else (n.log2 : ℤ) - d.log2 - 1 :=
    if_congr (pow_le_quotient hd _) rfl rfl
  rw [hexponent]
  split
  · rename_i hreached
    exact ⟨hreached, habove⟩
  · rename_i hreached
    exact ⟨hbelow, by rw [sub_add_cancel]; exact not_le.mp hreached⟩

/-! ## Quotients -/

theorem roundQuotient_of_multiple {m : Nat} (hd : 0 < d) (h : n = m * d) : roundQuotient n d = m := by
  subst h
  unfold roundQuotient
  rw [Nat.mul_mod_left, Nat.mul_div_cancel _ hd]
  exact if_neg (by omega)

theorem roundQuotient_le {m : Nat} (hd : 0 < d) (h : n ≤ m * d) : roundQuotient n d ≤ m := by
  obtain rfl | hlt := h.eq_or_lt
  · exact (roundQuotient_of_multiple hd rfl).le
  · have hq : n / d < m := (Nat.div_lt_iff_lt_mul hd).mpr hlt
    unfold roundQuotient
    dsimp only
    split <;> omega

end

/-! ## Significands -/

section
variable (f : Format) (x : Rat)

/-- The exponent of the last bit that the format keeps of a number. -/
def Format.unit : Int := max (binaryExponent x.num.natAbs x.den + 1 - f.precision) f.lowest

/-- The magnitude of a number in units of this bit, rounded. -/
def Format.significand : Nat :=
  if 0 ≤ f.unit x then roundQuotient x.num.natAbs (x.den * Nat.pow 2 (f.unit x).toNat)
  else roundQuotient (x.num.natAbs * Nat.pow 2 (-f.unit x).toNat) x.den

variable {f x}

theorem round_eq (hx : x ≠ 0) :
    round f x =
      if f.significand x = 0 then signedZero (x < 0)
      else if 2 ^ f.ceiling ≤ (f.significand x : ℚ) * 2 ^ f.unit x then .infinite (x < 0)
      else .finite (if x < 0 then -((f.significand x : ℚ) * 2 ^ f.unit x) else f.significand x * 2 ^ f.unit x) := by
  have hmagnitude : scaled (f.significand x) (f.unit x) = (f.significand x : ℚ) * 2 ^ f.unit x := scaled_eq _ _
  have hceiling : scaled 1 f.ceiling = 2 ^ f.ceiling := by rw [scaled_eq, Int.cast_one, one_mul]
  rw [round, if_neg (Rat.num_ne_zero.mpr hx), ← hmagnitude, ← hceiling]
  simp only [← Rat.num_neg]
  rfl

theorem abs_eq_quotient (x : Rat) : |x| = x.num.natAbs / x.den := by
  rw [Rat.abs_def, Rat.divInt_eq_div, Int.cast_natCast, Int.cast_natCast]

theorem Format.significand_quotient (f : Format) (x : Rat) :
    ∃ n d : Nat, 0 < d ∧ f.significand x = roundQuotient n d ∧ (n : ℚ) * 2 ^ f.unit x = |x| * d := by
  have hden : (x.den : ℚ) ≠ 0 := by exact_mod_cast x.den_nz
  have habs : |x| * x.den = x.num.natAbs := by rw [abs_eq_quotient, div_mul_cancel₀ _ hden]
  unfold significand
  split
  · rename_i hu
    obtain ⟨k, hk⟩ := Int.eq_ofNat_of_zero_le hu
    refine ⟨_, _, Nat.mul_pos x.den_pos (Nat.two_pow_pos _), rfl, ?_⟩
    rw [hk, Int.toNat_natCast, zpow_natCast, Nat.cast_mul, ← mul_assoc, habs]
    norm_num
  · rename_i hu
    obtain ⟨k, hk⟩ := Int.eq_ofNat_of_zero_le (show 0 ≤ -f.unit x by omega)
    have hk' : f.unit x = -k := by omega
    refine ⟨_, _, x.den_pos, rfl, ?_⟩
    rw [hk, hk', Int.toNat_natCast, zpow_neg, zpow_natCast, habs, Nat.cast_mul]
    have htwo : ((Nat.pow 2 k : Nat) : ℚ) = 2 ^ k := by norm_num
    rw [htwo, mul_assoc, mul_inv_cancel₀ (by positivity), mul_one]

theorem exponent_bounds (hx : x ≠ 0) :
    (2 : ℚ) ^ binaryExponent x.num.natAbs x.den ≤ |x| ∧ |x| < 2 ^ (binaryExponent x.num.natAbs x.den + 1) := by
  rw [abs_eq_quotient]
  exact binaryExponent_bounds (Int.natAbs_pos.mpr (Rat.num_ne_zero.mpr hx)) x.den_pos

theorem Format.significand_le (hx : x ≠ 0) : f.significand x ≤ 2 ^ f.precision := by
  obtain ⟨n, d, hd, hs, hn⟩ := f.significand_quotient x
  have hunit : (0 : ℚ) < 2 ^ f.unit x := by positivity
  have hbound : |x| ≤ 2 ^ f.precision * 2 ^ f.unit x := by
    have hle : binaryExponent x.num.natAbs x.den + 1 ≤ f.precision + f.unit x := by
      have : binaryExponent x.num.natAbs x.den + 1 - f.precision ≤ f.unit x := le_max_left _ _
      omega
    calc |x| ≤ 2 ^ (binaryExponent x.num.natAbs x.den + 1) := (exponent_bounds hx).2.le
      _ ≤ (2 : ℚ) ^ (f.precision + f.unit x) := zpow_le_zpow_right₀ one_le_two hle
      _ = 2 ^ f.precision * 2 ^ f.unit x := by rw [zpow_add₀ two_ne_zero, zpow_natCast]
  rw [hs]
  refine roundQuotient_le hd ?_
  have hquotient : (n : ℚ) ≤ 2 ^ f.precision * d := by
    refine le_of_mul_le_mul_right ?_ hunit
    calc (n : ℚ) * 2 ^ f.unit x = |x| * d := hn
      _ ≤ 2 ^ f.precision * 2 ^ f.unit x * d := by gcongr
      _ = 2 ^ f.precision * d * 2 ^ f.unit x := by ring
  exact_mod_cast hquotient

theorem Format.significand_of_multiple {m : Nat} (h : |x| = m * 2 ^ f.unit x) : f.significand x = m := by
  obtain ⟨n, d, hd, hs, hn⟩ := f.significand_quotient x
  have hunit : (2 : ℚ) ^ f.unit x ≠ 0 := by positivity
  have hmul : (n : ℚ) = m * d := by
    refine mul_right_cancel₀ hunit ?_
    rw [hn, h]
    ring
  rw [hs]
  exact roundQuotient_of_multiple hd (by exact_mod_cast hmul)

/-! ## Numbers of the format -/

theorem Format.holds_zero (f : Format) : f.Holds (.finite 0) :=
  ⟨0, f.lowest, by simp, by simp, le_rfl, by simpa using zpow_pos two_pos f.ceiling⟩

theorem Format.holds_neg (h : f.Holds (.finite x)) : f.Holds (.finite (-x)) := by
  obtain ⟨m, e, hx, hm, he, hc⟩ := h
  exact ⟨-m, e, by rw [hx]; push_cast; ring, by rwa [abs_neg], he, by rwa [abs_neg]⟩

/-- A significand that is rounded up to one bit more than the precision is a power of two, and moves to the next exponent. -/
theorem Format.holds_of_le {s : Nat} {u : Int} (hp : 0 < f.precision) (hs : s ≤ 2 ^ f.precision) (hu : f.lowest ≤ u)
    (hc : (s : ℚ) * 2 ^ u < 2 ^ f.ceiling) : f.Holds (.finite (s * 2 ^ u)) := by
  have habs : |(s : ℚ) * 2 ^ u| < 2 ^ f.ceiling := by rwa [abs_of_nonneg (by positivity)]
  obtain rfl | hlt := hs.eq_or_lt
  · obtain ⟨p, hp⟩ : ∃ p, f.precision = p + 1 := ⟨f.precision - 1, by omega⟩
    refine ⟨2 ^ p, u + 1, ?_, ?_, by omega, habs⟩
    · rw [hp, zpow_add₀ two_ne_zero]
      push_cast
      ring
    · rw [hp, abs_of_pos (by positivity)]
      exact pow_lt_pow_right₀ one_lt_two (Nat.lt_succ_self p)
  · exact ⟨s, u, by norm_cast, by rw [Nat.abs_cast]; exact_mod_cast hlt, hu, habs⟩

theorem signedZero_holds (f : Format) (negative : Bool) : f.Holds (signedZero negative) := by
  cases negative with
  | true => trivial
  | false => exact f.holds_zero

theorem round_holds (hp : 0 < f.precision) (x : Rat) : f.Holds (round f x) := by
  by_cases hx : x = 0
  · rw [round, if_pos (Rat.num_eq_zero.mpr hx)]
    exact f.holds_zero
  · rw [round_eq hx]
    split
    · exact signedZero_holds f _
    · split
      · trivial
      · rename_i hc
        have h := f.holds_of_le hp (f.significand_le hx) (le_max_right _ _) (not_le.mp hc)
        split
        · exact f.holds_neg h
        · exact h

/-! ## Numbers that are kept -/

theorem Format.unit_le {m e : Int} (hx : x ≠ 0) (h : x = m * 2 ^ e) (hm : |m| < 2 ^ f.precision) (he : f.lowest ≤ e) :
    f.unit x ≤ e := by
  have hlt : (2 : ℚ) ^ binaryExponent x.num.natAbs x.den < 2 ^ (f.precision + e) := by
    have hmq : |(m : ℚ)| < 2 ^ f.precision := by exact_mod_cast hm
    calc (2 : ℚ) ^ binaryExponent x.num.natAbs x.den ≤ |x| := (exponent_bounds hx).1
      _ = |(m : ℚ)| * 2 ^ e := by rw [h, abs_mul, abs_of_pos (zpow_pos (two_pos : (0 : ℚ) < 2) e)]
      _ < 2 ^ f.precision * 2 ^ e := by gcongr
      _ = 2 ^ (f.precision + e) := by rw [zpow_add₀ two_ne_zero, zpow_natCast]
  have hexp := (zpow_lt_zpow_iff_right₀ one_lt_two).mp hlt
  exact max_le (by omega) he

/-- A number of the format is a whole number of units, so that nothing is lost. -/
theorem round_of_holds (h : f.Holds (.finite x)) : round f x = .finite x := by
  obtain ⟨m, e, hxm, hm, he, hc⟩ := h
  by_cases hx : x = 0
  · rw [round, if_pos (Rat.num_eq_zero.mpr hx), hx]
  · -- the unit may be finer than the exponent the number is given with, and then the significand grows
    obtain ⟨k, hk⟩ := Int.eq_ofNat_of_zero_le (sub_nonneg.mpr (f.unit_le hx hxm hm he))
    have hunits : |x| = (m.natAbs * 2 ^ k : Nat) * 2 ^ f.unit x := by
      have he : e = k + f.unit x := by omega
      calc |x| = |(m : ℚ) * 2 ^ e| := congrArg abs hxm
        _ = |(m : ℚ)| * 2 ^ e := by rw [abs_mul, abs_of_pos (zpow_pos (two_pos : (0 : ℚ) < 2) e)]
        _ = |(m : ℚ)| * 2 ^ k * 2 ^ f.unit x := by rw [he, zpow_add₀ two_ne_zero, zpow_natCast, mul_assoc]
        _ = (m.natAbs * 2 ^ k : Nat) * 2 ^ f.unit x := by rw [Nat.cast_mul, Nat.cast_natAbs, Int.cast_abs]; norm_num
    have hs := f.significand_of_multiple hunits
    have hmagnitude : (f.significand x : ℚ) * 2 ^ f.unit x = |x| := by rw [hs, hunits]
    have hne : f.significand x ≠ 0 := by
      intro hzero
      rw [hzero, Nat.cast_zero, zero_mul] at hmagnitude
      exact hx (abs_eq_zero.mp hmagnitude.symm)
    rw [round_eq hx, if_neg hne, hmagnitude, if_neg (not_le.mpr hc)]
    split
    · rename_i hneg
      rw [abs_of_neg hneg, neg_neg]
    · rename_i hneg
      rw [abs_of_nonneg (not_lt.mp hneg)]

end

/-! ## Binary numbers -/

namespace Binary

variable {f : Format}

theorem roundTo_holds (hp : 0 < f.precision) (x : Binary) : f.Holds (x.roundTo f) := by
  cases x with
  | finite q => exact round_holds hp q
  | _ => trivial

theorem roundTo_of_holds {x : Binary} (h : f.Holds x) : x.roundTo f = x := by
  cases x with
  | finite q => exact round_of_holds h
  | _ => rfl

theorem roundTo_roundTo (hp : 0 < f.precision) (x : Binary) : (x.roundTo f).roundTo f = x.roundTo f :=
  roundTo_of_holds (roundTo_holds hp x)

end Binary

end Spmd
