import Spmd.Constant.Folding
import Spmd.Proofs.Constant.Sound
import Spmd.Proofs.Except

/-!
# Folding sound constants

Folding sound constants never faults, and what it gives is sound again. A folded constant holds, in every lane, what
the operator gives for the operands of that lane (`Constant.Lanewise`).
-/

namespace Spmd

/-! ## Lists of results -/

theorem Folded.all_eq_value {α : Type} {fs : List (Folded α)} {xs : List α} (h : Folded.all fs = .value xs) :
    List.Forall₂ (fun f x => f = .value x) fs xs := by
  induction fs generalizing xs with
  | nil => cases h; exact .nil
  | cons f fs ih =>
    cases f with
    | value x =>
      simp only [Folded.all] at h
      split at h <;> cases h
      rename_i hrest
      exact .cons rfl (ih hrest)
    | problem => cases h
    | unfoldable => cases h

namespace Constant

/-- A sound constant of which every lane holds a scalar that the relation allows there, brought to the kind. -/
structure Lanewise (width : Nat) (k : Kind) (R : Nat → Scalar → Prop) (c : Constant) : Prop extends
    Sound width c where
  kind_eq : c.kind = k
  lane_eq : ∀ i < width, ∃ x, R i x ∧ c.lane i = .ok (x.toKind k)

end Constant

variable {width : Nat}

theorem collect_ok (k : Kind) {results : List (Folded Scalar)}
    (hn : results.length = 1 ∨ results.length = width) :
    ∃ f, collect width k results = .ok f ∧ ∀ c, f = .value c →
      c.Sound width ∧ c.kind = k ∧ c.lanes.length = results.length ∧
        ∀ (i : Nat) (r : Folded Scalar), results[i]? = some r → ∃ x, r = .value x ∧ c.lanes[i]? = some (x.toKind k) := by
  unfold collect
  cases ha : Folded.all results with
  | problem p => exact ⟨_, rfl, fun c h => by cases h⟩
  | unfoldable => exact ⟨_, rfl, fun c h => by cases h⟩
  | value xs =>
    have hf := Folded.all_eq_value ha
    have hlen := hf.length_eq
    obtain ⟨c, hc, hs, hk, hl⟩ := Constant.create_ok width k xs (by omega)
    refine ⟨.value c, by simp only [hc]; rfl, fun c' h => ?_⟩
    cases h
    refine ⟨hs, hk, by rw [hl, List.length_map, hlen], fun i r hr => ?_⟩
    obtain ⟨x, hx, rfl⟩ := Forall₂.getElem? hf hr
    exact ⟨x, rfl, by rw [hl, List.getElem?_map, hx]; rfl⟩

/-! ## Binary operators -/

section
variable {l r : Constant} (hw : 0 < width) (hl : l.Sound width) (hr : r.Sound width)
include hw hl hr

theorem count_le_width : max l.lanes.length r.lanes.length ≤ width := by
  have hcl := hl.count_eq
  have hcr := hr.count_eq
  omega

theorem lanePairs_ok :
    ∃ pairs, lanePairs l r = .ok pairs ∧ pairs.length = max l.lanes.length r.lanes.length ∧
      ∀ i < pairs.length, ∃ a b, pairs[i]? = some (a, b) ∧ l.lane i = .ok a ∧ r.lane i = .ok b := by
  have hall : ∀ i ∈ List.range (max l.count r.count), ∃ p : Scalar × Scalar,
      (do .ok (← l.lane i, ← r.lane i) : Except Fault (Scalar × Scalar)) = .ok p := by
    intro i hi
    have hlt : i < width := Nat.lt_of_lt_of_le (List.mem_range.mp hi) (count_le_width hw hl hr)
    obtain ⟨a, ha, -⟩ := hl.lane hlt
    obtain ⟨b, hb, -⟩ := hr.lane hlt
    exact ⟨(a, b), by rw [ha, hb]; rfl⟩
  obtain ⟨pairs, hp, hf⟩ := mapM_ok hall
  have hlen : pairs.length = max l.lanes.length r.lanes.length := by
    rw [← hf.length_eq, List.length_range]; rfl
  refine ⟨pairs, hp, hlen, fun i hi => ?_⟩
  have hx : (List.range (max l.count r.count))[i]? = some i := by
    rw [List.getElem?_range (by rw [hlen] at hi; exact hi)]
  obtain ⟨⟨a, b⟩, hab, h⟩ := Forall₂.getElem? hf hx
  refine ⟨a, b, hab, ?_⟩
  cases hla : l.lane i <;> cases hrb : r.lane i <;> rw [hla, hrb] at h <;> cases h
  exact ⟨rfl, rfl⟩

/-- A lane of the result comes from the operands of that lane, also where one element stands for all lanes. -/
theorem lanePairs_lane {pairs : List (Scalar × Scalar)}
    (hn : pairs.length = max l.lanes.length r.lanes.length) {i : Nat} (hi : i < width) :
    ∃ j < pairs.length, j = (if pairs.length = 1 then 0 else i) ∧ l.lane j = l.lane i ∧ r.lane j = r.lane i := by
  have hcl := hl.count_eq
  have hcr := hr.count_eq
  by_cases h1 : pairs.length = 1
  · refine ⟨0, by omega, by rw [if_pos h1], ?_, ?_⟩
    · exact Constant.lane_of_single (by omega) 0 i
    · exact Constant.lane_of_single (by omega) 0 i
  · exact ⟨i, by omega, by rw [if_neg h1], rfl, rfl⟩

/-- Folding a binary operator never faults. A folded result is sound, has one element where both operands have one,
and holds in every lane what the operator gives for that lane. -/
theorem foldBinary_ok (op : BinaryOp) (k : Kind) :
    ∃ f, foldBinary (some op) k l r = .ok f ∧ ∀ c, f = .value c →
      l.kind = k ∧ r.kind = k ∧ c.lanes.length = max l.lanes.length r.lanes.length ∧
        c.Lanewise width (op.resultKind k) fun i x =>
          ∃ a b, l.lane i = .ok a ∧ r.lane i = .ok b ∧ foldLane op k a b = .value x := by
  unfold foldBinary
  split
  · exact ⟨_, rfl, fun c h => by cases h⟩
  · rename_i hk
    simp only [not_or, not_not] at hk
    obtain ⟨pairs, hp, hn, hpairs⟩ := lanePairs_ok hw hl hr
    have hlen : (pairs.map fun p => foldLane op k p.1 p.2).length = 1 ∨
        (pairs.map fun p => foldLane op k p.1 p.2).length = width := by
      have hcl := hl.count_eq
      have hcr := hr.count_eq
      rw [List.length_map, hn]
      omega
    obtain ⟨f, hf, hc⟩ := collect_ok (op.resultKind k) hlen
    refine ⟨f, by simp only [hp, bind, Except.bind]; rw [hl.width_eq]; exact hf, fun c h => ?_⟩
    obtain ⟨hs, hkind, hcount, hlanes⟩ := hc c h
    rw [List.length_map] at hcount
    refine ⟨hk.1, hk.2.1, hcount.trans hn, ⟨hs, hkind, fun i hi => ?_⟩⟩
    obtain ⟨j, hj, hji, hlj, hrj⟩ := lanePairs_lane hw hl hr hn hi
    obtain ⟨a, b, hab, ha, hb⟩ := hpairs j hj
    obtain ⟨x, hx, hcx⟩ := hlanes j (foldLane op k a b) (by rw [List.getElem?_map, hab]; rfl)
    refine ⟨x, ⟨a, b, hlj ▸ ha, hrj ▸ hb, hx⟩, Constant.lane_eq_ok.mpr ?_⟩
    rw [hcount, ← hji]
    exact hcx

end

/-! ## Unary operators and casts -/

section
variable {c : Constant} (hc : c.Sound width)
include hc

theorem foldUnary_ok (op : UnaryOp) :
    ∃ f, foldUnary op c = .ok f ∧ ∀ v, f = .value v → v.lanes.length = c.lanes.length ∧
      v.Lanewise width c.kind fun i x => ∃ a, c.lane i = .ok a ∧ foldUnaryLane op a = .value x := by
  have hlen : (c.lanes.map (foldUnaryLane op)).length = 1 ∨ (c.lanes.map (foldUnaryLane op)).length = width := by
    rw [List.length_map]; exact hc.count_eq
  obtain ⟨f, hf, hv⟩ := collect_ok c.kind hlen
  refine ⟨f, by rw [foldUnary, hc.width_eq]; exact hf, fun v h => ?_⟩
  obtain ⟨hs, hkind, hcount, hlanes⟩ := hv v h
  rw [List.length_map] at hcount
  refine ⟨hcount, hs, hkind, fun i hi => ?_⟩
  obtain ⟨a, ha, -⟩ := hc.lane hi
  have hget := Constant.lane_eq_ok.mp ha
  obtain ⟨x, hx, hvx⟩ := hlanes _ (foldUnaryLane op a) (by rw [List.getElem?_map, hget]; rfl)
  exact ⟨x, ⟨a, ha, hx⟩, Constant.lane_eq_ok.mpr (by rw [hcount]; exact hvx)⟩

theorem foldCast_value {k : Kind} {varying : Bool} {v : Constant} (h : foldCast c k varying = .value v) :
    (varying = false → v.lanes.length = c.lanes.length) ∧ v.Lanewise width k fun i x => c.lane i = .ok x := by
  have hconv : (c.convert k).Lanewise width k fun i x => c.lane i = .ok x := by
    refine ⟨Constant.convert_sound k hc, rfl, fun i hi => ?_⟩
    obtain ⟨x, hx, -⟩ := hc.lane hi
    exact ⟨x, hx, Constant.convert_lane hx⟩
  unfold foldCast at h
  dsimp only at h
  split at h
  · cases h
  · cases varying with
    | false =>
      cases h
      exact ⟨fun _ => by simp [Constant.convert], hconv⟩
    | true =>
      cases h
      refine ⟨fun hvarying => Bool.noConfusion hvarying, Constant.broadcast_sound hconv.toSound, Constant.broadcast_kind _, ?_⟩
      intro i hi
      simp only [if_true]
      rw [Constant.broadcast_lane hconv.toSound hi]
      exact hconv.lane_eq i hi

end

/-! ## Selections -/

/-- Reading the elements of a constant as a kind never faults, unless truth values are read as numbers. -/
theorem extract_ok {c : Constant} (hc : c.Sound width) {k : Kind} (hk : c.kind = .bool → k = .bool) (full : Bool) :
    ∃ elements, c.extract k full = .ok elements ∧
      elements.length = (if full then width else c.lanes.length) ∧
        ∀ i < elements.length, ∃ a, c.lane i = .ok a ∧ elements[i]? = some ((a.coerce k).read k) := by
  have hall : ∀ i ∈ List.range (if full then c.width else c.count), ∃ t,
      (do .ok (((← c.lane i).coerce k).read k) : Except Fault Scalar) = .ok t := by
    intro i hi
    have hlane : (if c.lanes.length = 1 then 0 else i) < c.lanes.length := by
      have hcount := hc.count_eq
      have hlt := List.mem_range.mp hi
      rw [hc.width_eq, Constant.count] at hlt
      split at hlt <;> split <;> omega
    exact ⟨_, by rw [Constant.lane_eq_ok.mpr (List.getElem?_eq_getElem hlane)]; rfl⟩
  obtain ⟨elements, he, hf⟩ := mapM_ok hall
  have hlen : elements.length = (if full then width else c.lanes.length) := by
    rw [← hf.length_eq, List.length_range, hc.width_eq]; rfl
  refine ⟨elements, by rw [Constant.extract, if_neg fun h => h.2 (hk h.1)]; exact he, hlen, ?_⟩
  intro i hi
  have hx : (List.range (if full then c.width else c.count))[i]? = some i := by
    rw [List.getElem?_range (by rw [hlen] at hi; rw [hc.width_eq]; exact hi)]
  obtain ⟨t, hti, h⟩ := Forall₂.getElem? hf hx
  cases ha : c.lane i with
  | error f => rw [ha] at h; cases h
  | ok a => rw [ha] at h; cases h; exact ⟨a, rfl, hti⟩

theorem extract_bool_ok {c : Constant} (hc : c.Sound width) (full : Bool) :
    ∃ tests, c.extract .bool full = .ok tests ∧
      tests.length = (if full then width else c.lanes.length) ∧
        ∀ i < tests.length, ∃ a, c.lane i = .ok a ∧ tests[i]? = some (.bool a.toBool) :=
  extract_ok hc (fun _ => rfl) full

section
variable {test a b : Constant} (hw : 0 < width) (ht : test.Sound width) (ha : a.Sound width) (hb : b.Sound width)
include ha hb

/-- Choosing by a list of truth values never faults, and looks each lane up at the position of its truth value. -/
theorem chosen_ok {tests : List Scalar} (hn : tests.length ≤ width) :
    ∃ chosen, (tests.zipIdx.mapM fun (t, i) => if t = Scalar.bool true then a.lane i else b.lane i) = .ok chosen ∧
      chosen.length = tests.length ∧ ∀ (i : Nat) (t : Scalar), tests[i]? = some t →
        ∃ x, chosen[i]? = some x ∧ (if t = .bool true then a.lane i else b.lane i) = .ok x := by
  have hall : ∀ p ∈ tests.zipIdx, ∃ x, (if p.1 = .bool true then a.lane p.2 else b.lane p.2) = .ok x := by
    intro p hp
    have hi : p.2 < width := by
      have hmem := List.mem_zipIdx' hp
      omega
    obtain ⟨x, hx, -⟩ := ha.lane hi
    obtain ⟨y, hy, -⟩ := hb.lane hi
    split
    · exact ⟨x, hx⟩
    · exact ⟨y, hy⟩
  obtain ⟨chosen, hchosen, hf⟩ := mapM_ok hall
  refine ⟨chosen, hchosen, by rw [← hf.length_eq, List.length_zipIdx], fun i t hi => ?_⟩
  exact Forall₂.getElem? hf (x := (t, i)) (by rw [List.getElem?_zipIdx, hi, Nat.zero_add]; rfl)

include ht hw

theorem foldSelect_ok :
    ∃ f, foldSelect test a b = .ok f ∧ ∀ c, f = .value c →
      (test.lanes.length = 1 → a.lanes.length = 1 → b.lanes.length = 1 → c.lanes.length = 1) ∧
        c.Lanewise width a.kind fun i x =>
          ∃ t, test.lane i = .ok t ∧ (if t.toBool then a.lane i else b.lane i) = .ok x := by
  unfold foldSelect
  split
  · exact ⟨_, rfl, nofun⟩
  · generalize hfull : (!test.isUniform || !a.isUniform || !b.isUniform) = full
    obtain ⟨tests, htests, hlen, hlanes⟩ := extract_bool_ok ht full
    have hone : full = false → test.lanes.length = 1 ∧ a.lanes.length = 1 ∧ b.lanes.length = 1 := by
      rintro rfl
      simpa [Constant.isUniform, Constant.count, and_assoc] using hfull
    have hcount : tests.length = 1 ∨ tests.length = width := by
      cases full with
      | false => left; rw [hlen]; exact (hone rfl).1
      | true => right; exact hlen
    have hne : tests.isEmpty = false := by
      rw [List.isEmpty_eq_false_iff, ← List.length_pos_iff]
      omega
    obtain ⟨chosen, hchosen, hn, hget⟩ := chosen_ok ha hb (show tests.length ≤ width by omega)
    obtain ⟨c, hc, hs, hk, hcl⟩ := Constant.create_ok width a.kind chosen (by omega)
    have hclen : c.lanes.length = tests.length := by rw [hcl, List.length_map, hn]
    refine ⟨.value c, ?_, fun c' h => ?_⟩
    · rw [bind_ok htests, if_neg (by simp [hne]), ht.width_eq]
      exact (bind_ok hchosen).trans (bind_ok hc)
    · cases h
      refine ⟨fun h1 h2 h3 => ?_, hs, hk, fun i hi => ?_⟩
      · rw [hclen, hlen, ← hfull]
        simp [Constant.isUniform, Constant.count, h1, h2, h3]
      · -- One test for all lanes is only possible where the operands have one element, or the target one lane.
        have hlane : ∃ j < tests.length, j = (if tests.length = 1 then 0 else i) ∧
            test.lane j = test.lane i ∧ a.lane j = a.lane i ∧ b.lane j = b.lane i := by
          by_cases h1 : tests.length = 1
          · refine ⟨0, by omega, by rw [if_pos h1], ?_⟩
            cases full with
            | false =>
              obtain ⟨ht1, ha1, hb1⟩ := hone rfl
              exact ⟨Constant.lane_of_single ht1 0 i, Constant.lane_of_single ha1 0 i, Constant.lane_of_single hb1 0 i⟩
            | true =>
              rw [hlen, if_pos rfl] at h1
              obtain rfl : i = 0 := by omega
              exact ⟨rfl, rfl, rfl⟩
          · exact ⟨i, by omega, by rw [if_neg h1], rfl, rfl, rfl⟩
        obtain ⟨j, hj, hji, htj, haj, hbj⟩ := hlane
        obtain ⟨t, htl, htest⟩ := hlanes j hj
        obtain ⟨x, hx, hsel⟩ := hget j _ htest
        refine ⟨x, ⟨t, htj ▸ htl, ?_⟩, Constant.lane_eq_ok.mpr ?_⟩
        · rw [← haj, ← hbj]
          simpa using hsel
        · rw [hclen, ← hji, hcl, List.getElem?_map, hx]
          rfl

end

end Spmd
