import Spmd.Expr.Basic
import Spmd.Proofs.Ty.Equality

/-!
# Sound constants

A constant is sound when it has one element or one for each lane, all of them scalars that its kind keeps. A sound
constant of the kind of a type makes a literal of that type (`Literal.make_ok`).
-/

namespace Spmd

/-! ## Scalars that a kind keeps -/

/-- Whether a scalar is of the sort that a kind keeps: an integer kind keeps the integers in its range. -/
def Scalar.Fits (k : Kind) : Scalar → Prop
  | .bool _ => k = .bool
  | .int n => k.isInteger = true ∧ k.holds n = true
  | .real _ => k.isFloat = true

instance Scalar.decidableFits (k : Kind) : (s : Scalar) → Decidable (s.Fits k)
  | .bool _ => inferInstanceAs (Decidable (k = .bool))
  | .int n => inferInstanceAs (Decidable (k.isInteger = true ∧ k.holds n = true))
  | .real _ => inferInstanceAs (Decidable (k.isFloat = true))

theorem Kind.holds_wrap (k : Kind) (n : Int) : k.holds (k.wrap n) = true := by
  cases k <;>
    simp [holds, wrap, least, greatest, span, bits, isUnsigned, Int.bmod_def] <;> omega

theorem Scalar.toKind_fits (k : Kind) (s : Scalar) : (s.toKind k).Fits k := by
  by_cases hb : k = .bool
  · subst hb; rfl
  · by_cases hf : k.isFloat = true
    · simp [toKind, store, hb, hf, Fits]
    · have hi : k.isInteger = true := by simp [Kind.isInteger, hb, hf]
      simp only [toKind, store, hb, hf, if_false, Fits]
      exact ⟨hi, Kind.holds_wrap k _⟩

/-! ## Lanes -/

namespace Constant

theorem lane_eq_ok {c : Constant} {i : Nat} {s : Scalar} :
    c.lane i = .ok s ↔ c.lanes[if c.lanes.length = 1 then 0 else i]? = some s := by
  unfold lane get count
  cases c.lanes[if c.lanes.length = 1 then 0 else i]? <;> simp

theorem lane_of_single {c : Constant} (h : c.lanes.length = 1) (i j : Nat) : c.lane i = c.lane j := by
  unfold lane count
  rw [if_pos h, if_pos h]

structure Sound (width : Nat) (c : Constant) : Prop where
  width_eq : c.width = width
  count_eq : c.lanes.length = 1 ∨ c.lanes.length = width
  fits : ∀ s ∈ c.lanes, s.Fits c.kind

instance (width : Nat) (c : Constant) : Decidable (c.Sound width) :=
  decidable_of_iff (c.width = width ∧ (c.lanes.length = 1 ∨ c.lanes.length = width) ∧ ∀ s ∈ c.lanes, s.Fits c.kind)
    ⟨fun ⟨hw, hc, hf⟩ => ⟨hw, hc, hf⟩, fun h => ⟨h.width_eq, h.count_eq, h.fits⟩⟩

/-- A sound constant that can be the value of a scalar type. -/
structure Serves (width : Nat) (s : ScalarTy) (c : Constant) : Prop extends Sound width c where
  kind_eq : c.kind = s.element.kind
  single : s.qualifiers.variability = .uniform → c.lanes.length = 1

/-- The value of a literal: a varying one has an element in every lane. -/
structure Suits (width : Nat) (s : ScalarTy) (c : Constant) : Prop extends Serves width s c where
  full : s.qualifiers.variability = .varying → c.lanes.length = width

variable {width : Nat} {c : Constant}

theorem Sound.lane (h : c.Sound width) {i : Nat} (hi : i < width) :
    ∃ s, c.lane i = .ok s ∧ s.Fits c.kind := by
  have hl : (if c.lanes.length = 1 then 0 else i) < c.lanes.length := by
    split
    · omega
    · rcases h.count_eq with hc | hc <;> omega
  exact ⟨_, lane_eq_ok.mpr (List.getElem?_eq_getElem hl), h.fits _ (List.getElem_mem hl)⟩

theorem Suits.of_alike {s u : ScalarTy} (h : c.Suits width s) (he : u.element.bare = s.element.bare)
    (hv : u.qualifiers.variability = s.qualifiers.variability) : c.Suits width u where
  toSound := h.toSound
  kind_eq := by rw [h.kind_eq, ← Element.bare_kind u.element, he, Element.bare_kind]
  single := by rw [hv]; exact h.single
  full := by rw [hv]; exact h.full

/-! ## Making constants -/

theorem create_ok (width : Nat) (k : Kind) (values : List Scalar) (h : values.length = 1 ∨ values.length = width) :
    ∃ c, create width k values = .ok c ∧ c.Sound width ∧ c.kind = k ∧ c.lanes = values.map (·.toKind k) := by
  have hn : ¬(values.length ≠ 1 ∧ values.length ≠ width) := by omega
  refine ⟨⟨k, width, values.map (·.toKind k)⟩, by rw [create, if_neg hn], ?_, rfl, rfl⟩
  refine ⟨rfl, by simpa using h, fun s hs => ?_⟩
  obtain ⟨x, -, rfl⟩ := List.mem_map.mp hs
  exact Scalar.toKind_fits k x

theorem convert_sound (k : Kind) (h : c.Sound width) : (c.convert k).Sound width where
  width_eq := h.width_eq
  count_eq := by simpa [convert] using h.count_eq
  fits s hs := by
    obtain ⟨x, -, rfl⟩ := List.mem_map.mp hs
    exact Scalar.toKind_fits k x

theorem convert_lane {k : Kind} {i : Nat} {s : Scalar} (h : c.lane i = .ok s) :
    (c.convert k).lane i = .ok (s.toKind k) := by
  rw [lane_eq_ok] at h ⊢
  simp only [convert, List.length_map, List.getElem?_map, h, Option.map_some]

theorem broadcast_sound (h : c.Sound width) : c.broadcast.Sound width := by
  unfold broadcast
  split
  · exact h
  · refine ⟨h.width_eq, .inr (by simp [h.width_eq]), fun s hs => ?_⟩
    rename_i hw
    have hc : c.lanes.length = 1 := by
      rcases h.count_eq with hc | hc
      · exact hc
      · exact absurd (hc.trans h.width_eq.symm) hw
    rw [List.eq_of_mem_replicate hs]
    match hl : c.lanes, hc with
    | [x], _ => exact h.fits x (by simp [hl])

@[simp] theorem broadcast_kind (c : Constant) : c.broadcast.kind = c.kind := by
  unfold broadcast; split <;> rfl

theorem broadcast_length (h : c.Sound width) : c.broadcast.lanes.length = width := by
  unfold broadcast
  split
  · rename_i hc; exact hc.trans h.width_eq
  · simp [h.width_eq]

theorem broadcast_lane (h : c.Sound width) {i : Nat} (hi : i < width) : c.broadcast.lane i = c.lane i := by
  unfold broadcast
  split
  · rfl
  · rename_i hw
    have hc : c.lanes.length = 1 := by
      rcases h.count_eq with hc | hc
      · exact hc
      · exact absurd (hc.trans h.width_eq.symm) hw
    obtain ⟨s, hs, -⟩ := h.lane hi
    rw [hs]
    rw [lane_eq_ok, if_pos hc] at hs
    rw [lane_eq_ok]
    have hh : c.lanes.headD default = s := by
      rw [List.headD_eq_head?_getD, List.head?_eq_getElem?, hs, Option.getD_some]
    simp only [List.length_replicate, hh, h.width_eq]
    rw [List.getElem?_replicate, if_pos]
    split <;> omega

end Constant

/-! ## Literals -/

theorem Literal.make_ok {width : Nat} {s : ScalarTy} {c : Constant} (h : c.Serves width s) :
    ∃ v, Literal.make (.scalar s) c = .ok ⟨(Ty.scalar s).asConst, v⟩ ∧ v.Suits width s ∧
      ∀ i < width, v.lane i = c.lane i := by
  unfold Literal.make
  dsimp only
  rw [if_neg (by simp [h.kind_eq])]
  by_cases hv : s.qualifiers.variability = .varying
  · rw [if_pos hv]
    refine ⟨c.broadcast, rfl, ?_, fun i hi => Constant.broadcast_lane h.toSound hi⟩
    exact ⟨⟨Constant.broadcast_sound h.toSound, by rw [Constant.broadcast_kind, h.kind_eq], by simp [hv]⟩,
      fun _ => Constant.broadcast_length h.toSound⟩
  · have hu : s.qualifiers.variability = .uniform := by
      cases hq : s.qualifiers.variability
      · rfl
      · exact absurd hq hv
    rw [if_neg hv, if_neg (by simp [Constant.count, h.single hu])]
    exact ⟨c, rfl, ⟨h, by simp [hu]⟩, fun _ _ => rfl⟩

theorem Literal.ofScalars_ok (width : Nat) (s : ScalarTy) (values : List Scalar)
    (h : values.length = 1 ∨ (s.qualifiers.variability = .varying ∧ values.length = width)) :
    ∃ v, Literal.ofScalars width (.scalar s) values = .ok ⟨(Ty.scalar s).asConst, v⟩ ∧ v.Suits width s := by
  obtain ⟨c, hc, hs, hk, hl⟩ := Constant.create_ok width s.element.kind values (h.imp id And.right)
  have hserves : c.Serves width s := by
    refine ⟨hs, hk, fun hu => ?_⟩
    rw [hl, List.length_map]
    rcases h with h | h
    · exact h
    · rw [hu] at h; cases h.1
  obtain ⟨v, hv, hsuits, -⟩ := Literal.make_ok hserves
  refine ⟨v, ?_, hsuits⟩
  simp only [Literal.ofScalars, Constant.ofType, Ty.constantKind, bind, Except.bind, hc]
  exact hv

theorem Literal.ofScalars_full {width : Nat} {s : ScalarTy} {xs : List Scalar}
    (h : s.qualifiers.variability = .uniform ∧ xs.length = 1 ∨ s.qualifiers.variability = .varying ∧ xs.length = width) :
    ofScalars width (.scalar s) xs =
      .ok ⟨(Ty.scalar s).asConst, ⟨s.element.kind, width, xs.map (·.toKind s.element.kind)⟩⟩ := by
  have hcreate : Constant.create width s.element.kind xs = .ok ⟨s.element.kind, width, xs.map (·.toKind s.element.kind)⟩ := by
    rw [Constant.create, if_neg (by omega)]
  change Constant.create width s.element.kind xs >>= make (.scalar s) = _
  rw [hcreate]
  change make (.scalar s) ⟨s.element.kind, width, xs.map (·.toKind s.element.kind)⟩ = _
  unfold make
  rcases h with ⟨hv, hlength⟩ | ⟨hv, hlength⟩
  · simp [hv, Constant.count, hlength]
  · simp [hv, Constant.broadcast, Constant.count, hlength]

end Spmd
