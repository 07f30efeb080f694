import Spmd.Proofs.Ty.Obstacle

/-!
# Common types again

The common type of two operands has no top-level `const`. Two operands that have been brought to it have it as their common
type again, and so have one operand and the common type itself.
-/

namespace Spmd

/-! ## Kinds and elements -/

theorem Kind.join_join (a b : Kind) : a.join (a.join b) = a.join b := by
  unfold Kind.join
  split
  · rfl
  · exact ite_self _

theorem Element.join_join {a b c : Element} (h : c.bare = (a.join b).bare) : (a.join c).bare = (a.join b).bare := by
  cases a with
  | basic k =>
    have hk : c.kind = k.join b.kind := by
      rw [← Element.bare_kind, h]
      cases b <;> rfl
    have hj : ∀ e : Element, (Element.basic k).join e = .basic (k.join e.kind) := fun e => by cases e <;> rfl
    rw [hj, hj, hk, Kind.join_join]
  | enumeration s es =>
    cases b with
    | basic k =>
      cases c with
      | basic k' =>
        cases h
        exact congrArg (fun k => (Element.basic k).bare) (Kind.join_join .uint32 k)
      | enumeration => cases h
    | enumeration t fs =>
      simp only [join] at h ⊢
      split at h
      · cases c with
        | basic => cases h
        | enumeration u gs =>
          cases h
          simp only [if_true, if_pos ‹_›]
      · cases c with
        | basic k' =>
          cases h
          rw [if_neg ‹_›]
          rfl
        | enumeration => cases h

theorem Element.join_of_bare {a a' : Element} (h : a'.bare = a.bare) (b : Element) : (a'.join b).bare = (a.join b).bare := by
  cases a with
  | basic k =>
    cases a' with
    | basic k' =>
      cases h
      rfl
    | enumeration => cases h
  | enumeration s es =>
    cases a' with
    | basic => cases h
    | enumeration s' es' =>
      cases h
      cases b with
      | basic => rfl
      | enumeration t fs =>
        simp only [Element.join]
        split <;> rfl

theorem Element.join_self {a b : Element} (h : a.bare = b.bare) : (a.join b).bare = a.bare := by
  cases a with
  | basic k =>
    cases b with
    | basic l =>
      cases h
      exact congrArg (fun k => (Element.basic k).bare) (ite_self k)
    | enumeration => cases h
  | enumeration s es =>
    cases b with
    | basic => cases h
    | enumeration t fs =>
      cases h
      simp only [Element.join, if_true]

theorem Variability.join_self (v : Variability) : v.join v = v := by cases v <;> rfl

theorem Variability.join_join (v w : Variability) : v.join (v.join w) = v.join w := by
  cases v <;> rfl

theorem ScalarTy.join_self {a b : ScalarTy} (h : a.bare = b.bare) (ha : a.qualifiers.isConst = false) :
    (a.join b (a.qualifiers.variability.join b.qualifiers.variability)).bare = a.bare := by
  obtain ⟨e, ⟨v, c⟩, o⟩ := a
  obtain ⟨f, q, o'⟩ := b
  simp only [ScalarTy.bare, ScalarTy.mk.injEq, and_true] at h
  obtain ⟨he, rfl⟩ := h
  cases ha
  simp only [ScalarTy.join, ScalarTy.bare, Element.join_self he, Variability.join_self]

theorem ScalarTy.join_join {a b c : ScalarTy} {v : Variability} (h : c.element.bare = (a.element.join b.element).bare) :
    (a.join c v).bare = (a.join b v).bare := by
  simp only [ScalarTy.join, ScalarTy.bare, Element.join_join h]

namespace Ty

variable {a b t u : Ty}

/-! ## Values -/

theorem rvalue_bare (h : t.isReference = false) : t.rvalue.bare = t.core := by
  cases t with
  | reference => cases h
  | _ => rfl

theorem core_rvalue_bare (t : Ty) : t.rvalue.core = t.rvalue.bare := by
  cases t <;> exact withConst_withConst_bare false false _

theorem core_withVariability (v : Variability) (h : t.core = t.bare) :
    (t.withVariability v).core = (t.withVariability v).bare := by
  rw [core, asNonConst, withVariability_withConst, bare_withVariability, bare_withVariability]
  exact congrArg (withVariability v) h

theorem commonPointer_core {v : Variability} (ha : a.core = a.bare) (hb : b.core = b.bare)
    (h : commonPointer a b v = some t) : t.core = t.bare := by
  unfold commonPointer at h
  split at h
  · split at h
    · cases h; rfl
    · split at h
      · cases h; exact core_withVariability v ha
      · split at h
        · cases h; exact core_withVariability v hb
        · cases h
  · split at h
    · cases h; exact core_withVariability v ha
    · cases h
  · split at h
    · cases h; exact core_withVariability v hb
    · cases h
  · cases h

theorem commonVector_core {v : Variability} (h : commonVector a b v = .ok t) : t.core = t.bare := by
  unfold commonVector at h
  split at h
  · split at h
    · cases h; rfl
    · cases h
  all_goals cases h
  all_goals rfl

theorem common_core (h : common a b = .ok t) : t.core = t.bare := by
  have ha := core_rvalue_bare a
  have hb := core_rvalue_bare b
  unfold common at h
  dsimp only at h
  split at h
  · cases h; exact ha
  · split at h
    · split at h
      · rename_i hp; cases h; exact commonPointer_core ha hb hp
      · cases h
    · split at h
      · exact commonVector_core h
      · split at h
        · cases h; rfl
        · cases h
        · cases h
        · split at h
          · cases h; exact core_withVariability _ ha
          · cases h

theorem common_of_core (ht : t.core = t.bare) (hr : t.isReference = false) (ha : a.core = t.core) (hb : b.core = t.core) :
    common a b = .ok a.rvalue ∧ a.rvalue.bare = t.bare ∧ b.rvalue.bare = t.bare := by
  have har := rvalue_bare ((isReference_eq ha).trans hr)
  have hbr := rvalue_bare ((isReference_eq hb).trans hr)
  refine ⟨?_, by rw [har, ha, ht], by rw [hbr, hb, ht]⟩
  unfold common
  dsimp only
  rw [if_pos ((same_iff _ _).mpr (by rw [har, hbr, ha, hb]))]

theorem common_isList (h : common a b = .ok t) (hl : a.isList = true ∨ b.isList = true) : t.isList = true := by
  have hrvalue : ∀ {t : Ty}, t.isList = true → t.rvalue.isList = true := by
    intro t ht
    cases t with
    | list => rfl
    | _ => cases ht
  have hlist := hl.imp hrvalue hrvalue
  unfold common at h
  dsimp only at h
  generalize a.rvalue = x at h hlist
  generalize b.rvalue = y at h hlist
  -- the steps in which a common type is looked for; lists have one only if they are the same
  split at h
  · rename_i hsame
    cases h
    rcases hlist with hx | hy
    · exact hx
    · rwa [eq_of_bare isList_bare ((same_iff _ _).mp hsame)]
  · split at h
    · cases x with
      | list =>
        cases y with
        | pointer => cases h
        | _ => cases h
      | pointer =>
        cases y with
        | list => cases h
        | _ => rcases hlist with h' | h' <;> cases h'
      | _ =>
        cases y with
        | list => cases h
        | _ => rcases hlist with h' | h' <;> cases h'
    · split at h
      · cases x with
        | list => cases y <;> cases h
        | _ =>
          cases y with
          | list => cases h
          | _ => rcases hlist with h' | h' <;> cases h'
      · split at h
        · rcases hlist with h' | h' <;> cases h'
        · cases h
        · cases h
        · split at h
          · rename_i hsame
            cases h
            have hvariability : ∀ (t : Ty) (v : Variability), (t.withVariability v).isList = t.isList := by
              intro t v
              cases t <;> rfl
            have heq := eq_of_bare isList_bare ((same_iff _ _).mp hsame)
            rw [hvariability, hvariability] at heq
            rw [hvariability]
            rcases hlist with hx | hy
            · exact hx
            · rw [heq, hy]
          · cases h

theorem common_isReference {a b t : Ty} (hr : a.rvalue.isReference = false) (h : common a b = .ok t) :
    t.isReference = false := by
  unfold common at h
  dsimp only at h
  split at h
  · cases h
    exact hr
  · split at h
    · split at h
      · rename_i hp
        cases h
        exact isReference_of_pointer (commonPointer_isPointer hp)
      · cases h
    · split at h
      · have hv := commonVector_isVector h
        cases t with
        | reference => cases hv
        | _ => rfl
      · split at h
        · cases h; rfl
        · cases h
        · cases h
        · split at h
          · cases h
            rw [isReference_withVariability]
            exact hr
          · cases h

/-! ## Scalars and vectors -/

/-- A scalar type, or the type of vectors of a length. -/
def flat : Option Nat → ScalarTy → Ty
  | none, s => .scalar s
  | some n, s => .vector s n

theorem flat_bare (n : Option Nat) (s : ScalarTy) : (flat n s).bare = flat n s.bare := by cases n <;> rfl

theorem rvalue_flat (h : t.element?.isSome = true) : ∃ n s, t.rvalue = flat n s ∧ s.qualifiers.isConst = false := by
  cases t with
  | scalar s => exact ⟨none, _, rfl, rfl⟩
  | vector s n o => exact ⟨some n, _, rfl, rfl⟩
  | _ => cases h

/-- The common type of scalars and vectors has the length of either, and two lengths have to agree. -/
theorem common_flat {m n : Option Nat} {s r : ScalarTy} (ha : a.rvalue = flat m s) (hb : b.rvalue = flat n r)
    (hs : s.qualifiers.isConst = false) : (∃ d, common a b = .error d) ∧ ¬ (m = none ∨ n = none ∨ m = n) ∨
      (m = none ∨ n = none ∨ m = n) ∧ ∃ w, common a b = .ok w ∧
        w.bare = (flat (m.or n) (s.join r (s.qualifiers.variability.join r.qualifiers.variability))).bare := by
  unfold common
  dsimp only
  rw [ha, hb]
  by_cases hsame : (flat m s).same (flat n r) = true
  · rw [if_pos hsame]
    obtain ⟨rfl, hsr⟩ : m = n ∧ s.bare = r.bare := by
      have hbare := (same_iff _ _).mp hsame
      cases m <;> cases n <;> simp_all [flat, bare]
    refine .inr ⟨.inr (.inr rfl), _, rfl, ?_⟩
    rw [Option.or_self, flat_bare, flat_bare, ScalarTy.join_self hsr hs]
  · rw [if_neg hsame]
    cases m with
    | none =>
      cases n with
      | none => exact .inr ⟨.inl rfl, _, rfl, rfl⟩
      | some n => exact .inr ⟨.inl rfl, _, rfl, rfl⟩
    | some m =>
      cases n with
      | none => exact .inr ⟨.inr (.inl rfl), _, rfl, rfl⟩
      | some n =>
        by_cases hmn : m = n
        · subst hmn
          refine .inr ⟨.inr (.inr rfl), _, ?_, rfl⟩
          simp only [flat, commonVector, isPointer, isVector, Bool.or_self, Bool.false_eq_true, if_false, if_true]
          rfl
        · refine .inl ⟨⟨.vectorCounts (flat (some m) s) (flat (some n) r), ?_⟩, by simp [hmn]⟩
          simp only [flat, commonVector, isPointer, isVector, Bool.or_self, Bool.false_eq_true, if_false, if_true, if_neg hmn]

theorem element_core (t : Ty) : t.core.element?.isSome = t.element?.isSome := by cases t <;> rfl

theorem flat_inj {m n : Option Nat} {s r : ScalarTy} (h : flat m s = flat n r) : m = n ∧ s = r := by
  cases m <;> cases n <;> cases h <;> exact ⟨rfl, rfl⟩

/-- An operand and the common type that it has with another operand have this common type. -/
theorem common_absorbs {a' : Ty} (ha' : a'.bare = a.bare) (ha : a.element?.isSome = true) (hb : b.element?.isSome = true)
    (h : common a b = .ok t) (hu : u.core = t.core) : ∃ w, common a' u = .ok w ∧ w.bare = t.bare := by
  obtain ⟨m, s, hm, hs⟩ := rvalue_flat ha
  obtain ⟨n, r, hn, -⟩ := rvalue_flat hb
  rcases common_flat hm hn hs with ⟨⟨d, hd⟩, -⟩ | ⟨hmn, w, hw, hbare⟩
  · rw [hd] at h
    cases h
  obtain rfl : w = t := by
    rw [hw] at h
    cases h
    rfl
  generalize hj : s.join r (s.qualifiers.variability.join r.qualifiers.variability) = j at hbare
  have hcore : u.core = flat (m.or n) j.bare := by rw [hu, common_core hw, hbare, flat_bare]
  have hue : u.element?.isSome = true := by
    rw [← element_core, hcore]
    cases m.or n <;> rfl
  have not_reference : ∀ {t : Ty}, t.element?.isSome = true → t.isReference = false := by
    intro t ht
    cases t with
    | reference => cases ht
    | _ => rfl
  -- scalars and vectors all, so that lengths and elements can be compared apart
  obtain ⟨k, x, hk, -⟩ := rvalue_flat hue
  have hx := rvalue_bare (not_reference hue)
  rw [hk, flat_bare, hcore] at hx
  obtain ⟨rfl, hxj⟩ := flat_inj hx
  have hae : a'.element?.isSome = true := by rw [← element_core, core_of_bare ha', element_core, ha]
  obtain ⟨m', s', hm', hs'⟩ := rvalue_flat hae
  obtain ⟨rfl, hss⟩ : m' = m ∧ s'.bare = s.bare := by
    have hbares := (rvalue_bare (not_reference hae)).trans ((core_of_bare ha').trans (rvalue_bare (not_reference ha)).symm)
    rw [hm', hm, flat_bare, flat_bare] at hbares
    exact flat_inj hbares
  have hel : x.element.bare = (s.element.join r.element).bare := by
    have he := congrArg ScalarTy.element hxj
    subst hj
    exact he
  have hv : x.qualifiers.variability = s.qualifiers.variability.join r.qualifiers.variability := by
    have hq := congrArg (fun s => s.qualifiers.variability) hxj
    subst hj
    exact hq
  have hsv : s'.qualifiers.variability = s.qualifiers.variability := congrArg (fun s => s.qualifiers.variability) hss
  have hjoin : ∀ v, (s'.join x v).bare = (s.join x v).bare := fun v =>
    congrArg (fun e => (⟨e, ⟨v, false⟩, none⟩ : ScalarTy)) (Element.join_of_bare (congrArg ScalarTy.element hss) x.element)
  rcases common_flat hm' hk hs' with ⟨-, hno⟩ | ⟨-, w', hw', hbare'⟩
  · refine absurd ?_ hno
    rcases hmn with rfl | rfl | rfl
    · exact .inl rfl
    · exact .inr (.inr (Option.or_none).symm)
    · exact .inr (.inr (Option.or_self).symm)
  · refine ⟨w', hw', ?_⟩
    have hmor : m'.or (m'.or n) = m'.or n := by cases m' <;> rfl
    rw [hbare', hbare, flat_bare, flat_bare, hmor, hsv, hv, Variability.join_join, hjoin, ScalarTy.join_join hel, hj]

end Ty

end Spmd
