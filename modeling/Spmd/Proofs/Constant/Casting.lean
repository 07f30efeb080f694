import Mathlib.Data.Int.ModEq
import Mathlib.Data.Rat.Floor
import Spmd.Proofs.Constant.Outcome
import Spmd.Proofs.Machine.Scalar

/-!
# Casting constants

Folding a cast changes no value without saying so: a number becomes the integer next to it on the side of zero or is a
problem to report, an integer keeps its bits, and a truth value tells whether the value was zero (`cast_folding_exact`).
-/

namespace Spmd

/-! ## Truncation -/

def towardZero (q : Rat) : Int := if 0 ≤ q then ⌊q⌋ else ⌈q⌉

theorem tdiv_eq_towardZero (q : Rat) : q.num.tdiv q.den = towardZero q := by
  unfold towardZero
  split
  · rename_i h
    rw [Int.tdiv_eq_ediv_of_nonneg (Rat.num_nonneg.mpr h), Rat.floor_def']
  · rename_i h
    have hn : 0 ≤ -q.num := Int.neg_nonneg.mpr (Rat.num_neg.mpr (not_le.mp h)).le
    rw [← Int.neg_neg q.num, Int.neg_tdiv, Int.tdiv_eq_ediv_of_nonneg hn, Rat.ceil_def']

theorem Binary.truncate_eq {x : Binary} {q : Rat} (h : x.rational? = some q) : x.truncate? = some (towardZero q) := by
  rw [truncate?, h, Option.map_some, tdiv_eq_towardZero]

/-- The problem that a number is for an integer kind which has no integer for it. -/
inductive Binary.Escapes (k : Kind) : Binary → FoldProblem → Prop
  | nan : Escapes k .nan (.notANumber k)
  | infinite (negative : Bool) : Escapes k (.infinite negative) (.outOfRange (.infinite negative) k)
  | beyond {x : Binary} {q : Rat} (hq : x.rational? = some q) (hk : k.holds (towardZero q) = false) :
    Escapes k x (.outOfRange x k)

section
variable {k : Kind} {x : Binary}

theorem narrowingProblem_of_rational {q : Rat} (hq : x.rational? = some q) :
    narrowingProblem? k x = if k.holds (towardZero q) then none else some (.outOfRange x k) := by
  have hx : x ≠ .nan := by
    rintro rfl
    cases hq
  rw [narrowingProblem?, if_neg hx, Binary.truncate_eq hq]

theorem Binary.cases_rational (x : Binary) : x = .nan ∨ (∃ negative, x = .infinite negative) ∨ ∃ q, x.rational? = some q := by
  cases x with
  | nan => exact .inl rfl
  | infinite negative => exact .inr (.inl ⟨negative, rfl⟩)
  | negativeZero => exact .inr (.inr ⟨0, rfl⟩)
  | finite q => exact .inr (.inr ⟨q, rfl⟩)

theorem narrowingProblem_eq {p : FoldProblem} : narrowingProblem? k x = some p ↔ x.Escapes k p := by
  constructor
  · intro h
    obtain rfl | ⟨negative, rfl⟩ | ⟨q, hq⟩ := x.cases_rational
    · cases h
      exact .nan
    · cases h
      exact .infinite negative
    · rw [narrowingProblem_of_rational hq] at h
      split at h
      · cases h
      · rename_i hk
        cases h
        exact .beyond hq (Bool.eq_false_iff.mpr hk)
  · intro h
    cases h with
    | nan => rfl
    | infinite => rfl
    | beyond hq hk => rw [narrowingProblem_of_rational hq, if_neg (by simp [hk])]

theorem narrowingProblem_none : narrowingProblem? k x = none ↔ ∃ q, x.rational? = some q ∧ k.holds (towardZero q) = true := by
  constructor
  · intro h
    obtain rfl | ⟨negative, rfl⟩ | ⟨q, hq⟩ := x.cases_rational
    · cases h
    · cases h
    · rw [narrowingProblem_of_rational hq] at h
      split at h
      · exact ⟨q, hq, ‹_›⟩
      · cases h
  · rintro ⟨q, hq, hk⟩
    rw [narrowingProblem_of_rational hq, if_pos hk]

end

/-! ## Lanes -/

theorem Kind.span_eq (k : Kind) : (k.span : Int) = 2 ^ k.bits := by simp [span]

theorem Kind.wrap_congruent (k : Kind) (n : Int) : k.wrap n ≡ n [ZMOD 2 ^ k.bits] := by
  rw [Int.ModEq, ← span_eq, wrap]
  split
  · exact Int.emod_emod_of_dvd n (dvd_refl _)
  · exact Int.bmod_emod

namespace Scalar

variable {k : Kind}

theorem ofNumberPart_toInt (negative : Bool) (n : Int) : (Scalar.real (ofNumberPart negative n)).toInt = n := by
  unfold ofNumberPart
  split
  · subst_vars
    cases negative <;> rfl
  · simp [toInt, Binary.truncate?, Binary.rational?]

theorem toKind_rational {x : Binary} {q : Rat} (hk : k.isInteger = true) (hq : x.rational? = some q) :
    (Scalar.real x).toKind k = .int (k.wrap (towardZero q)) := by
  have hx : (Scalar.real x).toInt = towardZero q := by rw [toInt, Binary.truncate_eq hq, Option.getD_some]
  have htruncated : (Scalar.real (truncated x)).toInt = towardZero q := by
    rw [truncated, Binary.truncate_eq hq]
    exact ofNumberPart_toInt _ _
  obtain ⟨hb, hf⟩ := Kind.isInteger_spec hk
  have hb : k ≠ .bool := by simpa using hb
  -- a wide kind wraps the integer that is read off the number, the others what is left of the number when it is cut
  cases hw : k.isWide with
  | true =>
    simp only [toKind, store, coerce, hb, hf, hw, if_true, if_false, Bool.false_eq_true, hx]
    rw [toInt, Kind.wrap_wrap]
  | false => simp only [toKind, store, coerce, hb, hf, hw, if_false, Bool.false_eq_true, htruncated]

theorem toKind_real {x : Binary} {q : Rat} (hk : k.isInteger = true) (hq : x.rational? = some q)
    (hh : k.holds (towardZero q) = true) : (Scalar.real x).toKind k = .int (towardZero q) := by
  rw [toKind_rational hk hq, Kind.wrap_of_holds hh]

theorem toBool_eq_false {s : Scalar} :
    s.toBool = false ↔ s = .bool false ∨ s = .int 0 ∨ s = .real (.finite 0) ∨ s = .real .negativeZero := by
  cases s with
  | bool b => simp [toBool]
  | int n => simp [toBool]
  | real x => cases x <;> simp [toBool, Binary.rational?]

theorem toKind_congruent {s : Scalar} {j : Kind} (hk : k.isInteger = true) (hs : s.Fits j) (hj : j.isFloat = false) :
    ∃ m, s.toKind k = .int m ∧ k.holds m = true ∧ m ≡ s.toInt [ZMOD 2 ^ k.bits] := by
  cases s with
  | bool b => exact ⟨_, toKind_bool hk b, Kind.holds_wrap k _, k.wrap_congruent _⟩
  | int n => exact ⟨_, toKind_int hk n, Kind.holds_wrap k n, k.wrap_congruent n⟩
  | real x => exact absurd (show j.isFloat = true from hs) (by simp [hj])

end Scalar

/-! ## Constants -/

/-- The constant `v` of a kind comes from `c` by a cast: lane for lane the relation holds, and a varying result has an
element for every lane. -/
structure Constant.CastsTo (width : Nat) (c : Constant) (k : Kind) (varying : Bool) (R : Scalar → Scalar → Prop)
    (v : Constant) : Prop extends Sound width v where
  kind_eq : v.kind = k
  count_of : v.count = if varying then width else c.count
  lane_of : ∀ i < width, ∃ s x, c.lane i = .ok s ∧ v.lane i = .ok x ∧ R s x

section
variable {width : Nat} {c v : Constant} {k : Kind} {varying : Bool}

theorem Constant.CastsTo.mono {R R' : Scalar → Scalar → Prop} (h : c.CastsTo width k varying R v)
    (hR : ∀ s ∈ c.lanes, ∀ x, R s x → R' s x) : c.CastsTo width k varying R' v where
  toSound := h.toSound
  kind_eq := h.kind_eq
  count_of := h.count_of
  lane_of i hi := by
    obtain ⟨s, x, hs, hx, hr⟩ := h.lane_of i hi
    exact ⟨s, x, hs, hx, hR s (List.mem_of_getElem? (lane_eq_ok.mp hs)) x hr⟩

theorem foldCast_casts (hc : c.Sound width) (h : foldCast c k varying = .value v) :
    c.CastsTo width k varying (fun s x => x = s.toKind k) v := by
  obtain ⟨hcount, hs, hkind, hlanes⟩ := foldCast_value hc h
  refine ⟨hs, hkind, ?_, fun i hi => ?_⟩
  · cases varying with
    | false => exact hcount rfl
    | true =>
      unfold foldCast at h
      dsimp only at h
      split at h
      · cases h
      · cases h
        exact Constant.broadcast_length (Constant.convert_sound k hc)
  · obtain ⟨x, hx, hv⟩ := hlanes i hi
    exact ⟨x, _, hx, hv, rfl⟩

/-- Only a number that becomes an integer can be a problem, and it is one as soon as one lane escapes. -/
theorem foldCast_narrowing (hc : c.kind.isFloat = true) (hk : k.isInteger = true) (varying : Bool) :
    ((∃ v, foldCast c k varying = .value v) ↔ ∀ s ∈ c.lanes, narrowingProblem? k s.toReal = none) ∧
      (¬(∃ v, foldCast c k varying = .value v) →
        ∃ p, foldCast c k varying = .problem p ∧ ∃ s ∈ c.lanes, narrowingProblem? k s.toReal = some p) := by
  unfold foldCast
  rw [if_pos ⟨hc, hk⟩]
  cases h : c.lanes.findSome? fun s => narrowingProblem? k s.toReal with
  | none =>
    rw [List.findSome?_eq_none_iff] at h
    exact ⟨⟨fun _ => h, fun _ => ⟨_, rfl⟩⟩, fun hno => absurd ⟨_, rfl⟩ hno⟩
  | some p =>
    obtain ⟨s, hs, hp⟩ := List.exists_of_findSome?_eq_some h
    refine ⟨⟨fun ⟨v, hv⟩ => (by cases hv), fun hall => ?_⟩, fun _ => ⟨p, rfl, s, hs, hp⟩⟩
    cases (hall s hs).symm.trans hp

theorem foldCast_total (h : ¬(c.kind.isFloat = true ∧ k.isInteger = true)) (varying : Bool) :
    ∃ v, foldCast c k varying = .value v := by
  unfold foldCast
  rw [if_neg h]
  exact ⟨_, rfl⟩

end

/-! ## Exactness -/

section
variable {width : Nat} {c : Constant} {k : Kind}

theorem Constant.Sound.real_of_mem (hc : c.Sound width) (hf : c.kind.isFloat = true) {s : Scalar} (hs : s ∈ c.lanes) :
    ∃ x, s = .real x := by
  obtain ⟨hk, -⟩ | ⟨hk, -⟩ | ⟨-, x, -, hx, -⟩ := Scalar.fits_pair (hc.fits s hs) (hc.fits s hs)
  · rw [hk] at hf
    cases hf
  · rw [(Kind.isInteger_spec hk).2] at hf
    cases hf
  · exact ⟨x, hx⟩

theorem narrowing_lane {s : Scalar} (hx : ∃ x, s = .real x) :
    narrowingProblem? k s.toReal = none ↔
      ∃ x q, s = .real x ∧ x.rational? = some q ∧ k.holds (towardZero q) = true := by
  obtain ⟨x, rfl⟩ := hx
  refine narrowingProblem_none.trans ⟨fun ⟨q, hq, hh⟩ => ⟨x, q, rfl, hq, hh⟩, ?_⟩
  rintro ⟨y, q, hy, hq, hh⟩
  cases hy
  exact ⟨q, hq, hh⟩

theorem foldCast_number (hc : c.Sound width) (hf : c.kind.isFloat = true) (hk : k.isInteger = true) (varying : Bool) :
    ((∃ v, foldCast c k varying = .value v) ↔
        ∀ s ∈ c.lanes, ∃ x q, s = .real x ∧ x.rational? = some q ∧ k.holds (towardZero q) = true) ∧
      (∀ v, foldCast c k varying = .value v →
        c.CastsTo width k varying (fun s n => ∃ x q, s = .real x ∧ x.rational? = some q ∧ n = .int (towardZero q)) v) ∧
      ((¬∃ v, foldCast c k varying = .value v) →
        ∃ p, foldCast c k varying = .problem p ∧ ∃ x, .real x ∈ c.lanes ∧ x.Escapes k p) := by
  obtain ⟨hvalue, hproblem⟩ := foldCast_narrowing hf hk varying
  have hexact : (∃ v, foldCast c k varying = .value v) ↔
      ∀ s ∈ c.lanes, ∃ x q, s = .real x ∧ x.rational? = some q ∧ k.holds (towardZero q) = true :=
    hvalue.trans (forall₂_congr fun s hs => narrowing_lane (hc.real_of_mem hf hs))
  refine ⟨hexact, fun v hv => (foldCast_casts hc hv).mono ?_, fun hno => ?_⟩
  · rintro s hs n rfl
    obtain ⟨x, q, rfl, hq, hh⟩ := hexact.mp ⟨v, hv⟩ s hs
    exact ⟨x, q, rfl, hq, Scalar.toKind_real hk hq hh⟩
  · obtain ⟨p, hp, s, hs, hsp⟩ := hproblem hno
    obtain ⟨x, rfl⟩ := hc.real_of_mem hf hs
    exact ⟨p, hp, x, hs, narrowingProblem_eq.mp hsp⟩

theorem foldCast_integer (hc : c.Sound width) (hf : c.kind.isFloat = false) (hk : k.isInteger = true) (varying : Bool) :
    ∃ v, foldCast c k varying = .value v ∧
      c.CastsTo width k varying
        (fun s n => ∃ m, n = .int m ∧ k.holds m = true ∧ m ≡ s.toInt [ZMOD 2 ^ k.bits]) v := by
  obtain ⟨v, hv⟩ := foldCast_total (c := c) (k := k) (by simp [hf]) varying
  refine ⟨v, hv, (foldCast_casts hc hv).mono ?_⟩
  rintro s hs n rfl
  exact Scalar.toKind_congruent hk (hc.fits s hs) hf

theorem foldCast_bool (hc : c.Sound width) (varying : Bool) :
    ∃ v, foldCast c .bool varying = .value v ∧
      c.CastsTo width .bool varying
        (fun s t => ∃ b, t = .bool b ∧
          (b = false ↔ s = .bool false ∨ s = .int 0 ∨ s = .real (.finite 0) ∨ s = .real .negativeZero)) v := by
  obtain ⟨v, hv⟩ := foldCast_total (c := c) (k := .bool) (by simp [Kind.isInteger]) varying
  refine ⟨v, hv, (foldCast_casts hc hv).mono ?_⟩
  rintro s - t rfl
  exact ⟨s.toBool, rfl, Scalar.toBool_eq_false⟩

/-- A cast folds unless it brings to an integer kind a number that this has no integer for. -/
theorem foldCast_outcome (hc : c.Sound width) (k : Kind) (varying : Bool) :
    ((∃ v, foldCast c k varying = .value v) ∧
        (c.kind.isFloat = true → k.isInteger = true → ∀ x p, .real x ∈ c.lanes → ¬x.Escapes k p)) ∨
      ∃ p, foldCast c k varying = .problem p ∧ c.kind.isFloat = true ∧ k.isInteger = true ∧
        ∃ x, .real x ∈ c.lanes ∧ x.Escapes k p := by
  by_cases hnarrow : c.kind.isFloat = true ∧ k.isInteger = true
  · obtain ⟨hf, hk⟩ := hnarrow
    by_cases hvalue : ∃ v, foldCast c k varying = .value v
    · refine .inl ⟨hvalue, fun _ _ x p hx he => ?_⟩
      have hnone := (foldCast_narrowing hf hk varying).1.mp hvalue _ hx
      cases hnone.symm.trans (narrowingProblem_eq.mpr he)
    · obtain ⟨p, hp, hx⟩ := (foldCast_number hc hf hk varying).2.2 hvalue
      exact .inr ⟨p, hp, hf, hk, hx⟩
  · exact .inl ⟨foldCast_total hnarrow varying, fun hf hk => absurd ⟨hf, hk⟩ hnarrow⟩

theorem cast_folding_exact (hc : c.Sound width) (k : Kind) (varying : Bool) :
    (c.kind.isFloat = true → k.isInteger = true →
      ((∃ v, foldCast c k varying = .value v) ↔
        ∀ s ∈ c.lanes, ∃ x q, s = .real x ∧ x.rational? = some q ∧ k.holds (towardZero q) = true) ∧
      (∀ v, foldCast c k varying = .value v →
        c.CastsTo width k varying (fun s n => ∃ x q, s = .real x ∧ x.rational? = some q ∧ n = .int (towardZero q)) v) ∧
      ((¬∃ v, foldCast c k varying = .value v) →
        ∃ p, foldCast c k varying = .problem p ∧ ∃ x, .real x ∈ c.lanes ∧ x.Escapes k p)) ∧
    (c.kind.isFloat = false → k.isInteger = true →
      ∃ v, foldCast c k varying = .value v ∧
        c.CastsTo width k varying
          (fun s n => ∃ m, n = .int m ∧ k.holds m = true ∧ m ≡ s.toInt [ZMOD 2 ^ k.bits]) v) ∧
    ∃ v, foldCast c .bool varying = .value v ∧
      c.CastsTo width .bool varying
        (fun s t => ∃ b, t = .bool b ∧
          (b = false ↔ s = .bool false ∨ s = .int 0 ∨ s = .real (.finite 0) ∨ s = .real .negativeZero)) v :=
  ⟨fun hf hk => foldCast_number hc hf hk varying, fun hf hk => foldCast_integer hc hf hk varying,
    foldCast_bool hc varying⟩

/-- A fraction is cut off, so that a number between the greatest integer of a kind and the next still has one. -/
theorem cast_folding_cuts_fractions :
    let c : Constant := ⟨.double, 2, [.real (.finite (-1 / 2)), .real (.finite (511 / 2))]⟩
    c.Sound 2 ∧ ∃ v, foldCast c .uint8 true = .value v ∧ v.lane 0 = .ok (.int 0) ∧ v.lane 1 = .ok (.int 255) := by
  intro c
  have hc : c.Sound 2 := by decide
  obtain ⟨hvalue, hlanes, -⟩ := (cast_folding_exact hc .uint8 true).1 rfl rfl
  have hzero : towardZero (-1 / 2) = 0 := by norm_num [towardZero]
  have hlast : towardZero (511 / 2) = 255 := by norm_num [towardZero]
  have hall : ∀ s ∈ c.lanes, ∃ x q, s = .real x ∧ x.rational? = some q ∧ Kind.uint8.holds (towardZero q) = true := by
    intro s hs
    rcases List.mem_cons.mp hs with rfl | hs
    · exact ⟨_, _, rfl, rfl, by rw [hzero]; decide⟩
    · exact ⟨_, _, List.mem_singleton.mp hs, rfl, by rw [hlast]; decide⟩
  obtain ⟨v, hv⟩ := hvalue.mpr hall
  obtain ⟨s, n, hs, hn, x, q, rfl, hq, rfl⟩ := (hlanes v hv).lane_of 0 (by decide)
  obtain ⟨s', n', hs', hn', x', q', rfl, hq', rfl⟩ := (hlanes v hv).lane_of 1 (by decide)
  cases hs
  cases hs'
  cases hq
  cases hq'
  exact ⟨hc, v, hv, by rw [hn, hzero], by rw [hn', hlast]⟩

end

end Spmd
