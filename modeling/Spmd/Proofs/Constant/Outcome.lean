import Spmd.Proofs.Constant.Folding

/-!
# Outcomes of folding

Folding two sound constants of one kind gives a constant, a problem or nothing. Which of them it is depends on the
operator, on the kind and on what the lanes of the right operand hold (`foldBinary_outcome`): the lanes of one fold can
fail in one way only, so that it does not matter which lane fails first.
-/

namespace Spmd

/-! ## What an operator applies to -/

def ArithOp.appliesTo (op : ArithOp) (k : Kind) : Bool :=
  match op with
  | .add | .sub | .mul | .div => k != .bool
  | .mod | .shl | .shr => k.isInteger
  | .and | .or | .xor => !k.isFloat

def ValueOp.appliesTo (op : ValueOp) (k : Kind) : Bool :=
  match op with
  | .neg => k != .bool
  | .complement => k.isInteger
  | .not => k == .bool

namespace BinaryOp

def appliesTo (op : BinaryOp) (k : Kind) : Bool :=
  match op with
  | .arith op => op.appliesTo k
  | .compare _ => true
  | .logic _ => k == .bool
  | .comma => false

/-- The problem that an integer zero on the right makes. -/
def zeroProblem? : BinaryOp → Option FoldProblem
  | .arith .div => some .divisionByZero
  | .arith .mod => some .modulusByZero
  | _ => none

def shifts : BinaryOp → Bool
  | .arith .shl | .arith .shr => true
  | _ => false

/-- What folding comes to where the lanes of the right operand hold the scalars of `Holds`. -/
structure Outcome {α : Type} (op : BinaryOp) (k : Kind) (Holds : Scalar → Prop) (f : Folded α) : Prop where
  problem : ∀ p, f = .problem p ↔ op.zeroProblem? = some p ∧ Holds (.int 0)
  unfoldable : f = .unfoldable ↔
    op.appliesTo k = false ∨ op.shifts = true ∧ ∃ n, Holds (.int n) ∧ ¬(0 ≤ n ∧ n < k.bits)

end BinaryOp

namespace BinaryOp.Outcome

variable {α β : Type} {op : BinaryOp} {k : Kind} {Holds : Scalar → Prop} {f : Folded α} {x : α} {m : Int} {p : FoldProblem}

theorem map (g : α → β) (h : op.Outcome k Holds f) : op.Outcome k Holds (f.map g) where
  problem p := by
    rw [← h.problem p]
    cases f <;> simp [Folded.map]
  unfoldable := by
    rw [← h.unfoldable]
    cases f <;> simp [Folded.map]

theorem of_mismatch (ha : op.appliesTo k = false) (hz : op.zeroProblem? = none ∨ ¬Holds (.int 0)) :
    op.Outcome k Holds (.unfoldable : Folded α) :=
  ⟨by rcases hz with hz | hz <;> simp [hz], by simp [ha]⟩

theorem of_total (ha : op.appliesTo k = true) (hz : op.zeroProblem? = none ∨ ¬Holds (.int 0)) (hs : op.shifts = false) :
    op.Outcome k Holds (.value x) :=
  ⟨by rcases hz with hz | hz <;> simp [hz], by simp [ha, hs]⟩

theorem of_division (ha : op.appliesTo k = true) (hz : op.zeroProblem? = some p) (hs : op.shifts = false) :
    op.Outcome k (Scalar.int m = ·) (if m = 0 then .problem p else .value x) := by
  split <;> exact ⟨by simp_all, by simp [ha, hs]⟩

theorem of_shift (ha : op.appliesTo k = true) (hz : op.zeroProblem? = none) (hs : op.shifts = true) :
    op.Outcome k (Scalar.int m = ·) (if (0 ≤ m && m < k.bits : Bool) then .value x else .unfoldable) := by
  split <;> exact ⟨by simp [hz], by simp_all⟩

end BinaryOp.Outcome

/-! ## One lane -/

/-- Two scalars that a kind keeps are of one sort. -/
theorem Scalar.fits_pair {k : Kind} {a b : Scalar} (ha : a.Fits k) (hb : b.Fits k) :
    (k = .bool ∧ ∃ p q, a = .bool p ∧ b = .bool q) ∨
      (k.isInteger = true ∧ ∃ n m, a = .int n ∧ b = .int m ∧ k.holds n = true ∧ k.holds m = true) ∨
      (k.isFloat = true ∧ ∃ x y, a = .real x ∧ b = .real y) := by
  cases a with
  | bool p =>
    cases (show k = .bool from ha)
    cases b with
    | bool q => exact .inl ⟨rfl, p, q, rfl, rfl⟩
    | int m => cases hb.1
    | real y => cases (show Kind.bool.isFloat = true from hb)
  | int n =>
    obtain ⟨hk, hn⟩ : k.isInteger = true ∧ k.holds n = true := ha
    cases b with
    | bool q =>
      cases (show k = .bool from hb)
      cases hk
    | int m => exact .inr (.inl ⟨hk, n, m, rfl, rfl, hn, hb.2⟩)
    | real y => simp [Kind.isInteger, show k.isFloat = true from hb] at hk
  | real x =>
    have hk : k.isFloat = true := ha
    cases b with
    | bool q =>
      cases (show k = .bool from hb)
      cases hk
    | int m =>
      obtain ⟨hi, -⟩ : k.isInteger = true ∧ k.holds m = true := hb
      simp [Kind.isInteger, hk] at hi
    | real y => exact .inr (.inr ⟨hk, x, y, rfl, rfl⟩)

section
variable {k : Kind} {a b : Scalar}

open BinaryOp.Outcome

theorem Kind.isInteger_spec (h : k.isInteger = true) : (k != .bool) = true ∧ k.isFloat = false := by
  simpa [isInteger] using h

theorem Kind.isFloat_spec (h : k.isFloat = true) : (k != .bool) = true ∧ k.isInteger = false := by
  cases k with
  | float | double => exact ⟨rfl, rfl⟩
  | _ => cases h

theorem ArithOp.onBools_outcome (op : ArithOp) (p q : Bool) :
    (BinaryOp.arith op).Outcome .bool (.bool q = ·) (op.onBools p q) := by
  cases op with
  | and | or | xor => exact of_total rfl (.inl rfl) rfl
  | _ => exact of_mismatch rfl (.inr nofun)

theorem ArithOp.onInts_outcome (hk : k.isInteger = true) (op : ArithOp) (n m : Int) :
    (BinaryOp.arith op).Outcome k (.int m = ·) (op.onInts k n m) := by
  obtain ⟨hb, hf⟩ := Kind.isInteger_spec hk
  cases op with
  | add | sub | mul => exact of_total hb (.inl rfl) rfl
  | div => exact of_division hb rfl rfl
  | mod => exact of_division hk rfl rfl
  | and | or | xor => exact of_total (by simp [BinaryOp.appliesTo, appliesTo, hf]) (.inl rfl) rfl
  | shl | shr => exact of_shift hk rfl rfl

theorem ArithOp.onReals_outcome (hk : k.isFloat = true) (op : ArithOp) (x y : Binary) :
    (BinaryOp.arith op).Outcome k (.real y = ·) (op.onReals x y) := by
  obtain ⟨hb, hi⟩ := Kind.isFloat_spec hk
  cases op with
  | add | sub | mul | div => exact of_total hb (.inr nofun) rfl
  | mod | shl | shr => exact of_mismatch hi (.inr nofun)
  | and | or | xor => exact of_mismatch (by simp [BinaryOp.appliesTo, appliesTo, hk]) (.inr nofun)

theorem foldLane_outcome {op : BinaryOp} (ha : a.Fits k) (hb : b.Fits k) :
    op.Outcome k (b = ·) (foldLane op k a b) := by
  obtain ⟨rfl, p, q, rfl, rfl⟩ | ⟨hk, n, m, rfl, rfl, -, -⟩ | ⟨hk, x, y, rfl, rfl⟩ := Scalar.fits_pair ha hb
  · cases op with
    | arith op => exact (op.onBools_outcome p q).map _
    | compare op => exact of_total rfl (.inl rfl) rfl
    | logic op => exact of_total rfl (.inl rfl) rfl
    | comma => exact of_mismatch rfl (.inl rfl)
  · have hb := (Kind.isInteger_spec hk).1
    cases op with
    | arith op => exact (op.onInts_outcome hk n m).map _
    | compare op => exact of_total rfl (.inl rfl) rfl
    | logic op => exact of_mismatch (by simpa [BinaryOp.appliesTo] using hb) (.inl rfl)
    | comma => exact of_mismatch rfl (.inl rfl)
  · have hb := (Kind.isFloat_spec hk).1
    cases op with
    | arith op => exact (op.onReals_outcome hk x y).map _
    | compare op => exact of_total rfl (.inl rfl) rfl
    | logic op => exact of_mismatch (by simpa [BinaryOp.appliesTo] using hb) (.inl rfl)
    | comma => exact of_mismatch rfl (.inl rfl)

end

/-! ## All lanes -/

namespace Folded

variable {α : Type} {fs : List (Folded α)}

theorem all_cases (fs : List (Folded α)) :
    (∃ xs, all fs = .value xs) ∨ (∃ p, all fs = .problem p ∧ .problem p ∈ fs) ∨
      all fs = .unfoldable ∧ .unfoldable ∈ fs := by
  induction fs with
  | nil => exact .inl ⟨[], rfl⟩
  | cons f fs ih =>
    cases f with
    | problem p => exact .inr (.inl ⟨p, rfl, List.mem_cons_self⟩)
    | unfoldable => exact .inr (.inr ⟨rfl, List.mem_cons_self⟩)
    | value x =>
      obtain ⟨xs, h⟩ | ⟨p, h, hp⟩ | ⟨h, hu⟩ := ih
      · exact .inl ⟨x :: xs, by rw [all, h]⟩
      · exact .inr (.inl ⟨p, by rw [all, h], List.mem_cons_of_mem _ hp⟩)
      · exact .inr (.inr ⟨by rw [all, h], List.mem_cons_of_mem _ hu⟩)

theorem value_of_mem {xs : List α} (h : all fs = .value xs) {f : Folded α} (hf : f ∈ fs) : ∃ x, f = .value x := by
  obtain ⟨x, -, hx⟩ := Forall₂.exists_of_mem (all_eq_value h).flip hf
  exact ⟨x, hx⟩

/-- Where no two outcomes disagree on how they fail, any of them that fails decides. -/
theorem all_of_agree (hp : ∀ p q, .problem p ∈ fs → .problem q ∈ fs → p = q)
    (hu : ∀ p, .problem p ∈ fs → .unfoldable ∉ fs) :
    (∀ p, all fs = .problem p ↔ .problem p ∈ fs) ∧ (all fs = .unfoldable ↔ .unfoldable ∈ fs) := by
  obtain ⟨xs, h⟩ | ⟨q, h, hq⟩ | ⟨h, hm⟩ := all_cases fs
  · refine ⟨fun p => ⟨by simp [h], fun hm => ?_⟩, by simp [h], fun hm => ?_⟩
    · obtain ⟨x, hx⟩ := value_of_mem h hm
      cases hx
    · obtain ⟨x, hx⟩ := value_of_mem h hm
      cases hx
  · refine ⟨fun p => ⟨fun hall => ?_, fun hm => ?_⟩, by simp [h], fun hm => (hu q hq hm).elim⟩
    · cases h.symm.trans hall
      exact hq
    · rw [h, hp p q hm hq]
  · exact ⟨fun p => ⟨by simp [h], fun hp => (hu p hp hm).elim⟩, fun _ => hm, fun _ => h⟩

end Folded

namespace BinaryOp

variable {op : BinaryOp} {k : Kind}

theorem shifts_of_zeroProblem {p : FoldProblem} (h : op.zeroProblem? = some p) : op.shifts = false := by
  cases op with
  | arith op => cases op <;> first | rfl | cases h
  | _ => rfl

theorem Outcome.applies {α : Type} {Holds : Scalar → Prop} {p : FoldProblem}
    (h : op.Outcome k Holds (.problem p : Folded α)) : op.appliesTo k = true := by
  cases ha : op.appliesTo k with
  | true => rfl
  | false => cases h.unfoldable.mpr (.inl ha)

/-- A problem in one lane is the outcome of the fold whichever lane comes first, since no other lane is then
unfoldable. -/
theorem Outcome.all {α β : Type} {xs : List β} {f : β → Folded α} {b : β → Scalar} {Holds : Scalar → Prop} (hne : xs ≠ [])
    (h : ∀ x ∈ xs, op.Outcome k (b x = ·) (f x)) (hb : ∀ s, Holds s ↔ ∃ x ∈ xs, b x = s) :
    op.Outcome k Holds (Folded.all (xs.map f)) := by
  have hp : ∀ p, .problem p ∈ xs.map f ↔ op.zeroProblem? = some p ∧ Holds (.int 0) := by
    intro p
    rw [List.mem_map, hb]
    constructor
    · rintro ⟨x, hx, hfx⟩
      obtain ⟨hz, hbx⟩ := ((h x hx).problem p).mp hfx
      exact ⟨hz, x, hx, hbx⟩
    · rintro ⟨hz, x, hx, hbx⟩
      exact ⟨x, hx, ((h x hx).problem p).mpr ⟨hz, hbx⟩⟩
  have hu : .unfoldable ∈ xs.map f ↔
      op.appliesTo k = false ∨ op.shifts = true ∧ ∃ n : Int, Holds (.int n) ∧ ¬(0 ≤ n ∧ n < k.bits) := by
    rw [List.mem_map]
    constructor
    · rintro ⟨x, hx, hfx⟩
      refine ((h x hx).unfoldable.mp hfx).imp_right ?_
      rintro ⟨hs, n, hbx, hn⟩
      exact ⟨hs, n, (hb _).mpr ⟨x, hx, hbx⟩, hn⟩
    · rintro (ha | ⟨hs, n, hn, hout⟩)
      -- an operator that does not apply stops every lane, and there is one
      · obtain ⟨x, hx⟩ := List.exists_mem_of_ne_nil xs hne
        exact ⟨x, hx, (h x hx).unfoldable.mpr (.inl ha)⟩
      · obtain ⟨x, hx, hbx⟩ := (hb _).mp hn
        exact ⟨x, hx, (h x hx).unfoldable.mpr (.inr ⟨hs, n, hbx, hout⟩)⟩
  obtain ⟨hall, hallu⟩ : (∀ p, Folded.all (xs.map f) = .problem p ↔ .problem p ∈ xs.map f) ∧
      (Folded.all (xs.map f) = .unfoldable ↔ .unfoldable ∈ xs.map f) := by
    refine Folded.all_of_agree (fun p q hfp hfq => ?_) fun p hfp hfu => ?_
    · exact Option.some.inj (((hp p).mp hfp).1.symm.trans ((hp q).mp hfq).1)
    · obtain ⟨x, hx, hfx⟩ := List.mem_map.mp hfp
      have ho := h x hx
      rw [hfx] at ho
      obtain ha | ⟨hs, -⟩ := hu.mp hfu
      · exact Bool.noConfusion (ha.symm.trans ho.applies)
      · exact Bool.noConfusion (hs.symm.trans (shifts_of_zeroProblem ((hp p).mp hfp).1))
  exact ⟨fun p => (hall p).trans (hp p), hallu.trans hu⟩

end BinaryOp

/-! ## Constants -/

section
variable {width : Nat} {k : Kind} {op : BinaryOp} {l r : Constant}

theorem Constant.Sound.lane_fits {c : Constant} (hc : c.Sound width) {i : Nat} {s : Scalar} (h : c.lane i = .ok s) :
    s.Fits c.kind :=
  hc.fits s (List.mem_of_getElem? (Constant.lane_eq_ok.mp h))

theorem Constant.Sound.mem_lanes {c : Constant} (hw : 0 < width) (hc : c.Sound width) {s : Scalar} :
    s ∈ c.lanes ↔ ∃ i < width, c.lane i = .ok s := by
  constructor
  · intro hs
    obtain ⟨i, hi, hget⟩ := List.getElem_of_mem hs
    have hcount := hc.count_eq
    have hindex : (if c.lanes.length = 1 then 0 else i) = i := by split <;> omega
    refine ⟨i, by omega, Constant.lane_eq_ok.mpr ?_⟩
    rw [hindex]
    exact List.getElem?_eq_some_iff.mpr ⟨hi, hget⟩
  · rintro ⟨i, -, hs⟩
    exact List.mem_of_getElem? (Constant.lane_eq_ok.mp hs)

/-- Collecting the results fails as the results do. -/
theorem collect_map {results : List (Folded Scalar)} {f : Folded Constant} (h : collect width k results = .ok f) :
    ∃ g : List Scalar → Constant, f = (Folded.all results).map g := by
  unfold collect at h
  split at h
  · rename_i xs hall
    obtain ⟨c, -, hc⟩ := bind_eq_ok h
    cases hc
    exact ⟨fun _ => c, by rw [hall]; rfl⟩
  · rename_i p hall
    cases h
    exact ⟨fun _ => default, by rw [hall]; rfl⟩
  · rename_i hall
    cases h
    exact ⟨fun _ => default, by rw [hall]; rfl⟩

/-- The lanes that are paired up are those of the target, once where both operands have a single element. -/
theorem lanePairs_mem (hw : 0 < width) (hl : l.Sound width) (hr : r.Sound width) {pairs : List (Scalar × Scalar)}
    (h : lanePairs l r = .ok pairs) (a b : Scalar) :
    (a, b) ∈ pairs ↔ ∃ i < width, l.lane i = .ok a ∧ r.lane i = .ok b := by
  obtain ⟨pairs', h', hn, hpairs⟩ := lanePairs_ok hw hl hr
  cases h.symm.trans h'
  have hle := count_le_width hw hl hr
  constructor
  · intro hmem
    obtain ⟨i, hi, hget⟩ := List.getElem_of_mem hmem
    obtain ⟨a', b', hab, ha, hb⟩ := hpairs i hi
    rw [List.getElem?_eq_getElem hi, hget] at hab
    cases hab
    exact ⟨i, by omega, ha, hb⟩
  · rintro ⟨i, hi, ha, hb⟩
    obtain ⟨j, hj, -, hlj, hrj⟩ := lanePairs_lane hw hl hr hn hi
    obtain ⟨a', b', hab, ha', hb'⟩ := hpairs j hj
    cases (hlj.trans ha).symm.trans ha'
    cases (hrj.trans hb).symm.trans hb'
    exact List.mem_of_getElem? hab

/-- Which outcome folding has is decided by the lanes of the right operand. -/
theorem foldBinary_outcome (hw : 0 < width) (hl : l.Sound width) (hr : r.Sound width) (hlk : l.kind = k) (hrk : r.kind = k)
    {f : Folded Constant} (hf : foldBinary (some op) k l r = .ok f) :
    op.Outcome k (fun s => ∃ i < width, r.lane i = .ok s) f := by
  by_cases hop : op = .comma
  · subst hop
    rw [foldBinary, if_pos (.inr (.inr rfl))] at hf
    cases hf
    exact .of_mismatch rfl (.inl rfl)
  · rw [foldBinary, if_neg (by simp [hlk, hrk, hop])] at hf
    obtain ⟨pairs, hp, hf⟩ := bind_eq_ok hf
    obtain ⟨g, rfl⟩ := collect_map hf
    have hmem := lanePairs_mem hw hl hr hp
    have hne : pairs ≠ [] := by
      intro hnil
      obtain ⟨a, ha, -⟩ := hl.lane hw
      obtain ⟨b, hb, -⟩ := hr.lane hw
      have h0 := (hmem a b).mpr ⟨0, hw, ha, hb⟩
      rw [hnil] at h0
      cases h0
    have hlanes : ∀ p ∈ pairs, op.Outcome k (p.2 = ·) (foldLane op k p.1 p.2) := by
      rintro ⟨a, b⟩ hab
      obtain ⟨i, hi, ha, hb⟩ := (hmem a b).mp hab
      exact foldLane_outcome (hlk ▸ hl.lane_fits ha) (hrk ▸ hr.lane_fits hb)
    have hright : ∀ s, (∃ i < width, r.lane i = .ok s) ↔ ∃ p ∈ pairs, p.2 = s := by
      intro s
      constructor
      · rintro ⟨i, hi, hs⟩
        obtain ⟨a, ha, -⟩ := hl.lane hi
        exact ⟨(a, s), (hmem a s).mpr ⟨i, hi, ha, hs⟩, rfl⟩
      · rintro ⟨⟨a, b⟩, hab, rfl⟩
        obtain ⟨i, hi, -, hb⟩ := (hmem a b).mp hab
        exact ⟨i, hi, hb⟩
    -- no two lanes disagree on how they fail, so that it does not matter which one is found first
    exact (BinaryOp.Outcome.all hne hlanes hright).map g

/-! ## Unary operators -/

theorem foldUnaryLane_outcome {op : ValueOp} {a : Scalar} (ha : a.Fits k) :
    (∀ p, foldUnaryLane (.value op) a ≠ .problem p) ∧
      (foldUnaryLane (.value op) a = .unfoldable ↔ op.appliesTo k = false) := by
  obtain ⟨rfl, p, -, rfl, -⟩ | ⟨hk, n, -, rfl, -⟩ | ⟨hk, x, -, rfl, -⟩ := Scalar.fits_pair ha ha
  · cases op <;> simp [foldUnaryLane, ValueOp.appliesTo, Kind.isInteger]
  · obtain ⟨hb, hf⟩ := Kind.isInteger_spec hk
    cases op <;> simp_all [foldUnaryLane, ValueOp.appliesTo]
  · obtain ⟨hb, hi⟩ := Kind.isFloat_spec hk
    cases op <;> simp_all [foldUnaryLane, ValueOp.appliesTo]

theorem foldUnary_outcome {op : ValueOp} {c : Constant} (hw : 0 < width) (hc : c.Sound width) {f : Folded Constant}
    (hf : foldUnary (.value op) c = .ok f) :
    (∀ p, f ≠ .problem p) ∧ (f = .unfoldable ↔ op.appliesTo c.kind = false) := by
  obtain ⟨g, rfl⟩ := collect_map hf
  have hone : ∀ r ∈ c.lanes.map (foldUnaryLane (.value op)),
      (∀ p, r ≠ .problem p) ∧ (r = .unfoldable ↔ op.appliesTo c.kind = false) := by
    intro r hr
    obtain ⟨a, ha, rfl⟩ := List.mem_map.mp hr
    exact foldUnaryLane_outcome (hc.fits a ha)
  obtain ⟨xs, h⟩ | ⟨p, -, hp⟩ | ⟨h, hu⟩ := Folded.all_cases (c.lanes.map (foldUnaryLane (.value op)))
  · obtain ⟨a, ha, -⟩ := hc.lane hw
    have hmem : foldUnaryLane (.value op) a ∈ c.lanes.map (foldUnaryLane (.value op)) :=
      List.mem_map_of_mem (List.mem_of_getElem? (Constant.lane_eq_ok.mp ha))
    obtain ⟨x, hx⟩ := Folded.value_of_mem h hmem
    have hu := (hone _ hmem).2
    rw [hx] at hu
    rw [h]
    exact ⟨by simp [Folded.map], by simpa [Folded.map] using hu⟩
  · exact ((hone _ hp).1 p rfl).elim
  · rw [h]
    exact ⟨by simp [Folded.map], by simpa [Folded.map] using (hone _ hu).2⟩

/-! ## Selections -/

theorem foldSelect_outcome {test a b : Constant} (hw : 0 < width) (ht : test.Sound width) (hk : a.kind = b.kind)
    {f : Folded Constant} (hf : foldSelect test a b = .ok f) : ∃ v, f = .value v := by
  rw [foldSelect, if_neg (not_not.mpr hk)] at hf
  obtain ⟨tests, htests, hf⟩ := bind_eq_ok hf
  obtain ⟨tests', htests', hlen, -⟩ := extract_bool_ok ht (!test.isUniform || !a.isUniform || !b.isUniform)
  cases htests.symm.trans htests'
  have hne : tests.isEmpty = false := by
    have hcount := ht.count_eq
    rw [List.isEmpty_eq_false_iff, ← List.length_pos_iff, hlen]
    split <;> omega
  rw [hne, if_neg Bool.false_ne_true] at hf
  obtain ⟨chosen, -, hf⟩ := bind_eq_ok hf
  obtain ⟨v, -, hf⟩ := bind_eq_ok hf
  cases hf
  exact ⟨v, rfl⟩

end

end Spmd
