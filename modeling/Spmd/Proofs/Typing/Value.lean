import Spmd.Proofs.Typing.Call
import Spmd.Typing.Value

/-!
# The contracts of checking lists, casts, sizes and allocations
-/

namespace Spmd.Check

open Spmd.Expr

variable {T : Target} (node : Node)

/-! ## Lists and casts -/

theorem checkList_delivers {items : List Expr} (hitems : ∀ e ∈ items, Operand T e ∧ ∃ t, e.type? = some t) :
    Delivers T (checkList node items) (Operand T) := by
  obtain ⟨ts, hts, hmap⟩ := typesOf_ok fun e he => (hitems e he).2
  unfold checkList
  simp only [hts, lift_ok, pure_bind]
  exact Delivers.some (.list rfl hmap fun e he => (hitems e he).1)

theorem checkCast_delivers {e : Expr} (he : Operand T e) {target : Ty} (ht : target.Legal) :
    Delivers T (checkCast node target e) (Operand T) := by
  have value : ∀ {source : Ty}, e.type? = some source → Delivers T (do
      let source ← e.type
      let possible ← if becomesNull e source target then pure true
        else canConvert node.place "type cast" true source target
      return (if possible then some (.cast (.typed node.place target) target e false) else none)) (Operand T) := by
    intro source hs
    simp only [type_ok hs, lift_ok, pure_bind]
    split
    · rename_i hnull
      rw [if_pos trivial]
      have hp : target.isPointer = true := (Bool.and_eq_true_iff.mp (Bool.and_eq_true_iff.mp hnull).1).1
      refine Delivers.some (.checked (cast_checked (he.toChecked hs) hs ht _ true false fun hn => ?_) rfl)
      rw [hp] at hn
      cases hn
    · refine canConvert_delivers (fun ho => Delivers.some (.checked ?_ rfl)) rfl
      exact cast_checked (he.toChecked hs) hs ht _ _ false fun _ => ho
  cases he with
  | name known =>
    unfold checkCast
    dsimp only
    rw [convert]
    exact Delivers.mono (convertFunction_delivers known ht _) fun _ h => h.1
  | list type_eq types below => exact value type_eq
  | checked checked closed =>
    obtain ⟨source, hs, -⟩ := checked.typed
    unfold checkCast
    dsimp only
    split
    · cases closed
    · exact value hs

/-! ## Sizes -/

theorem sized_legal (T : Target) : T.sizeType.Legal := by
  obtain ⟨s, hs⟩ := Ty.sizeType_scalar T
  rw [hs]
  trivial

theorem checkSizeOf_delivers {e : Expr} (he : Operand T e) {t : Ty} (hs : e.type? = some t) :
    Delivers T (checkSizeOf node e) (Operand T) := by
  unfold checkSizeOf
  simp only [type_ok hs, lift_ok, pure_bind]
  split
  · exact Delivers.reject _ _
  · refine Delivers.target ?_
    refine Delivers.some (.checked (Checked.one ⟨⟨_, rfl, sized_legal _⟩, trivial, trivial⟩ rfl (he.toChecked hs)) rfl)

theorem checkSizeOfType_delivers (measured : Ty) : Delivers T (checkSizeOfType node measured) (Operand T) := by
  unfold checkSizeOfType
  split
  · exact Delivers.reject _ _
  · refine Delivers.target ?_
    exact Delivers.some (.checked (Checked.leaf ⟨⟨_, rfl, sized_legal _⟩, trivial, trivial⟩ rfl) rfl)

/-! ## Allocations -/

theorem allocationCount_delivers {e : Expr} (he : Operand T e) {t : Ty} (hs : e.type? = some t) (varying : Bool) :
    Delivers T (allocationCount node e varying) (Checked T) := by
  unfold allocationCount
  simp only [type_ok hs, lift_ok, pure_bind]
  split
  · exact Delivers.reject _ _
  · exact Delivers.mono (convert_delivers he _ (Ty.legal_basic _ _)) fun _ h => h.1

theorem checkNew_delivers {allocated : Ty} (ht : allocated.Legal) {count init : Option Expr} (varying : Bool)
    (hcount : ∀ n, count = some n → Operand T n ∧ ∃ t, n.type? = some t)
    (hinit : ∀ e, init = some e → Operand T e) : Delivers T (checkNew node allocated count init varying) (Operand T) := by
  have hnew : ∀ {n e : Option Expr}, (∀ c ∈ n, Checked T c) → (∀ c ∈ e, Checked T c) →
      Operand T (newOf node allocated varying n e) := by
    intro n e hn he
    refine .checked (.node ⟨⟨_, rfl, ht⟩, trivial, trivial⟩ fun c hm => ?_) rfl
    simp only [newOf, children, List.mem_append, Option.mem_toList] at hm
    rcases hm with hm | hm
    · exact hn c hm
    · exact he c hm
  have hnone : ∀ c ∈ (none : Option Expr), Checked T c := fun c hc => by cases hc
  unfold checkNew
  split
  · exact Delivers.reject _ _
  · rename_i c
    obtain ⟨hc, t, hs⟩ := hcount c rfl
    refine Delivers.map (allocationCount_delivers node hc hs varying) fun c' hc' => hnew (fun d hd => ?_) hnone
    cases hd
    exact hc'
  · rename_i e
    refine Delivers.map (convert_delivers (hinit e rfl) _ ht) fun e' he' => hnew hnone fun d hd => ?_
    cases hd
    exact he'.1
  · exact Delivers.some (hnew hnone hnone)

end Spmd.Check
