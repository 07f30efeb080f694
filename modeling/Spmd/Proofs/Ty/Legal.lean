import Spmd.Fault
import Spmd.Proofs.Ty.Equality
import Spmd.Ty.Conversion

/-!
# Legal types

No array holds `void` and no reference refers to a reference. Types are built within these limits, and every
operation on types keeps them. What a program states is no type of an initializer list, either (`Ty.Stated`).
-/

namespace Spmd.Ty

mutual
def Legal : Ty → Prop
  | .void _ => True
  | .scalar _ => True
  | .pointer p _ _ => p.Legal
  | .array e _ _ => e.isVoid = false ∧ e.Legal
  | .vector .. => True
  | .struct _ ms _ _ => MembersLegal ms
  | .reference t _ => t.isReference = false ∧ t.Legal
  | .function r ps _ _ => r.Legal ∧ AllLegal ps
  | .list es => AllLegal es
def MembersLegal : List (String × Ty) → Prop
  | [] => True
  | m :: ms => m.2.Legal ∧ MembersLegal ms
def AllLegal : List Ty → Prop
  | [] => True
  | t :: ts => t.Legal ∧ AllLegal ts
end

theorem allLegal_iff (ts : List Ty) : AllLegal ts ↔ ∀ t ∈ ts, t.Legal := by
  induction ts with
  | nil => simp [AllLegal]
  | cons t ts ih => simp [AllLegal, ih]

theorem membersLegal_iff (ms : List (String × Ty)) : MembersLegal ms ↔ ∀ m ∈ ms, m.2.Legal := by
  induction ms with
  | nil => simp [MembersLegal]
  | cons m ms ih => simp [MembersLegal, ih]

theorem legal_basic (k : Kind) (v : Variability) : (basic k v).Legal := by simp [basic, Legal]

/-! ## Qualifiers -/

theorem isVoid_withVariability (v : Variability) (t : Ty) :
    (t.withVariability v).isVoid = t.isVoid := by cases t <;> rfl

theorem isReference_withVariability (v : Variability) (t : Ty) :
    (t.withVariability v).isReference = t.isReference := by cases t <;> rfl

theorem isVoid_withConst (c : Bool) (t : Ty) : (t.withConst c).isVoid = t.isVoid := by cases t <;> rfl

theorem isReference_withConst (c : Bool) (t : Ty) :
    (t.withConst c).isReference = t.isReference := by cases t <;> rfl

mutual
theorem Legal.withVariability (v : Variability) : ∀ {t : Ty}, t.Legal → (t.withVariability v).Legal
  | .void _, _ => trivial
  | .scalar _, _ => trivial
  | .pointer .., h => h
  | .array e _ _, h => ⟨by rw [isVoid_withVariability]; exact h.1, h.2.withVariability v⟩
  | .vector .., _ => trivial
  | .struct .., h => h
  | .reference t _, h => ⟨by rw [isReference_withVariability]; exact h.1, h.2.withVariability v⟩
  | .function .., h => h
  | .list _, h => AllLegal.withVariability v h
theorem AllLegal.withVariability (v : Variability) :
    ∀ {ts : List Ty}, AllLegal ts → AllLegal (allWithVariability v ts)
  | [], _ => trivial
  | _ :: _, h => ⟨h.1.withVariability v, AllLegal.withVariability v h.2⟩
end

theorem Legal.withConst (c : Bool) : ∀ {t : Ty}, t.Legal → (t.withConst c).Legal
  | .void _, _ => trivial
  | .scalar _, _ => trivial
  | .pointer .., h => h
  | .array e _ _, h => ⟨by rw [isVoid_withConst]; exact h.1, h.2.withConst c⟩
  | .vector .., _ => trivial
  | .struct .., h => h
  | .reference t _, h => ⟨by rw [isReference_withConst]; exact h.1, h.2.withConst c⟩
  | .function .., h => h
  | .list _, h => h

/-! ## Types that can be stated -/

mutual
/-- A legal type that a program can state: no part of it is the type of an initializer list. -/
def Stated : Ty → Prop
  | .void _ => True
  | .scalar _ => True
  | .pointer p _ _ => p.Stated
  | .array e _ _ => e.isVoid = false ∧ e.Stated
  | .vector .. => True
  | .struct _ ms _ _ => MembersStated ms
  | .reference t _ => t.isReference = false ∧ t.Stated
  | .function r ps _ _ => r.Stated ∧ AllStated ps
  | .list _ => False
def MembersStated : List (String × Ty) → Prop
  | [] => True
  | m :: ms => m.2.Stated ∧ MembersStated ms
def AllStated : List Ty → Prop
  | [] => True
  | t :: ts => t.Stated ∧ AllStated ts
end

theorem allStated_iff (ts : List Ty) : AllStated ts ↔ ∀ t ∈ ts, t.Stated := by
  induction ts with
  | nil => simp [AllStated]
  | cons t ts ih => simp [AllStated, ih]

theorem membersStated_iff (ms : List (String × Ty)) : MembersStated ms ↔ ∀ m ∈ ms, m.2.Stated := by
  induction ms with
  | nil => simp [MembersStated]
  | cons m ms ih => simp [MembersStated, ih]

mutual
theorem Stated.legal : ∀ {t : Ty}, t.Stated → t.Legal
  | .void _, _ => trivial
  | .scalar _, _ => trivial
  | .pointer p _ _, h => Stated.legal (t := p) h
  | .array _ _ _, h => ⟨h.1, h.2.legal⟩
  | .vector .., _ => trivial
  | .struct _ _ _ _, h => MembersStated.legal h
  | .reference _ _, h => ⟨h.1, h.2.legal⟩
  | .function _ _ _ _, h => ⟨h.1.legal, AllStated.legal h.2⟩
theorem MembersStated.legal : ∀ {ms : List (String × Ty)}, MembersStated ms → MembersLegal ms
  | [], _ => trivial
  | _ :: _, h => ⟨h.1.legal, MembersStated.legal h.2⟩
theorem AllStated.legal : ∀ {ts : List Ty}, AllStated ts → AllLegal ts
  | [], _ => trivial
  | _ :: _, h => ⟨h.1.legal, AllStated.legal h.2⟩
end

theorem Stated.withVariability (v : Variability) : ∀ {t : Ty}, t.Stated → (t.withVariability v).Stated
  | .void _, _ => trivial
  | .scalar _, _ => trivial
  | .pointer .., h => h
  | .array e _ _, h => ⟨by rw [isVoid_withVariability]; exact h.1, h.2.withVariability v⟩
  | .vector .., _ => trivial
  | .struct .., h => h
  | .reference t _, h => ⟨by rw [isReference_withVariability]; exact h.1, h.2.withVariability v⟩
  | .function .., h => h

theorem Stated.withConst (c : Bool) : ∀ {t : Ty}, t.Stated → (t.withConst c).Stated
  | .void _, _ => trivial
  | .scalar _, _ => trivial
  | .pointer .., h => h
  | .array e _ _, h => ⟨by rw [isVoid_withConst]; exact h.1, h.2.withConst c⟩
  | .vector .., _ => trivial
  | .struct .., h => h
  | .reference t _, h => ⟨by rw [isReference_withConst]; exact h.1, h.2.withConst c⟩
  | .function .., h => h

/-! ## Parts -/

theorem Legal.stored {t : Ty} (h : t.Legal) : t.stored.Legal := by
  cases t with
  | reference => exact h.2
  | _ => exact h

theorem Legal.rvalue {t : Ty} (h : t.Legal) : t.rvalue.Legal := by
  cases t with
  | reference => exact h.2.withConst false
  | _ => exact h.withConst false

theorem rvalue_isReference {t : Ty} (h : t.Legal) : t.rvalue.isReference = false := by
  cases t with
  | reference => exact (isReference_withConst false _).trans h.1
  | _ => rfl

theorem Legal.memberType (q : Qualifiers) {t : Ty} (h : t.Legal) : (memberType q t).Legal := by
  unfold Ty.memberType
  dsimp only
  have hv : (if q.variability = .varying then t.asVarying else t).Legal := by
    split
    · exact h.withVariability _
    · exact h
  by_cases hc : q.isConst = true
  · rw [if_pos hc]; exact hv.withConst _
  · rw [if_neg hc]; exact hv

theorem Stated.memberType (q : Qualifiers) {t : Ty} (h : t.Stated) : (memberType q t).Stated := by
  unfold Ty.memberType
  dsimp only
  have hv : (if q.variability = .varying then t.asVarying else t).Stated := by
    split
    · exact h.withVariability _
    · exact h
  by_cases hc : q.isConst = true
  · rw [if_pos hc]; exact hv.withConst _
  · rw [if_neg hc]; exact hv

theorem Legal.elementAt {t u : Ty} {i : Nat} (h : t.Legal) (hu : t.elementAt? i = some u) : u.Legal := by
  cases t with
  | array e n o =>
    simp only [elementAt?, Option.ite_none_right_eq_some, Option.some.injEq] at hu
    exact hu.2 ▸ h.2
  | vector s n o =>
    simp only [elementAt?, Option.ite_none_right_eq_some, Option.some.injEq] at hu
    exact hu.2 ▸ trivial
  | struct s ms q o =>
    simp only [elementAt?, Option.map_eq_some_iff] at hu
    obtain ⟨m, hm, rfl⟩ := hu
    exact ((membersLegal_iff ms).mp h m (List.mem_of_getElem? hm)).memberType q
  | list es => exact (allLegal_iff es).mp h u (List.mem_of_getElem? hu)
  | _ => cases hu

theorem rvalue_isPointer (t : Ty) : t.rvalue.isPointer = t.stored.isPointer :=
  (core_isPointer _).symm.trans ((congrArg isPointer (core_rvalue t)).trans (core_isPointer _))

theorem rvalue_isArray (t : Ty) : t.rvalue.isArray = t.stored.isArray :=
  (core_isArray _).symm.trans ((congrArg isArray (core_rvalue t)).trans (core_isArray _))

theorem legal_boolLike (t : Ty) : t.boolLike.Legal := by
  cases t <;> trivial

/-! ## Common types -/

theorem legal_commonPointer {a b t : Ty} {v : Variability} (ha : a.Legal) (hb : b.Legal)
    (h : commonPointer a b v = some t) : t.Legal := by
  unfold commonPointer at h
  split at h
  · split at h
    · cases h
      split
      · exact ha
      · exact hb
    · split at h
      · cases h; exact ha.withVariability v
      · split at h
        · cases h; exact hb.withVariability v
        · cases h
  · split at h
    · cases h; exact ha.withVariability v
    · cases h
  · split at h
    · cases h; exact hb.withVariability v
    · cases h
  · cases h

theorem legal_commonVector {a b t : Ty} {v : Variability} (h : commonVector a b v = .ok t) : t.Legal := by
  unfold commonVector at h
  split at h
  · split at h
    · cases h; trivial
    · cases h
  all_goals cases h
  all_goals trivial

theorem legal_common {a b t : Ty} (ha : a.Legal) (hb : b.Legal) (h : common a b = .ok t) : t.Legal := by
  have ha := ha.rvalue
  have hb := hb.rvalue
  unfold common at h
  dsimp only at h
  split at h
  · cases h; exact ha
  · split at h
    · split at h
      · rename_i hp; cases h; exact legal_commonPointer ha hb hp
      · cases h
    · split at h
      · exact legal_commonVector h
      · split at h
        · cases h; trivial
        · cases h
        · cases h
        · split at h
          · cases h; exact ha.withVariability _
          · cases h

end Spmd.Ty
