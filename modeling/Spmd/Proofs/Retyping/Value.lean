import Spmd.Proofs.Retyping.Access
import Spmd.Proofs.Retyping.Filling

/-!
# Lists, casts, sizes and allocations again

A list waits for a type as before, a cast is a cast that was written out, and an allocation converts its count and its
initializer to types of its own.
-/

namespace Spmd.Check

open Spmd.Expr

variable {T : Target} (node : Node)

/-! ## Lists and casts -/

theorem checkList_durable {items : List Expr} (hitems : ∀ e ∈ items, Durable T e ∧ ∃ t, e.type? = some t) :
    Yields T (checkList node items) (Durable T) := by
  obtain ⟨ts, hts, hmap⟩ := typesOf_ok fun e he => (hitems e he).2
  unfold checkList
  simp only [hts, lift_ok, pure_bind]
  exact Yields.some (.list rfl hmap fun e he => (hitems e he).1)

theorem checkCast_durable {e : Expr} (he : Durable T e) {target : Ty} (ht : target.Legal) :
    Yields T (checkCast node target e) (Durable T) := by
  have value : ∀ {source : Ty}, e.type? = some source → e.isFunctionName = false → Yields T (do
      let source ← e.type
      let possible ← if becomesNull e source target then pure true
        else canConvert node.place "type cast" true source target
      return (if possible then some (.cast (.typed node.place target) target e false) else none)) (Durable T) := by
    intro source hs hn
    have hcast : becomesNull e source target = true ∨ Ty.obstacle true source target = none →
        Durable T (.cast (.typed node.place target) target e false) := by
      intro h
      refine .closed (cast_checked (he.operand.toChecked hs) hs ht _ true false fun hp => h.resolve_left fun hnull => ?_) rfl
        (cast_lasts hs (he.lasts hs) node hn h)
      rw [becomesNull, hp, Bool.false_and, Bool.false_and] at hnull
      cases hnull
    simp only [type_ok hs, lift_ok, pure_bind]
    split
    · rename_i hnull
      exact Yields.some (hcast (.inl hnull))
    · exact canConvert_yields (fun ho => Yields.some (hcast (.inr ho))) Yields.none
  cases he with
  | name fresh =>
    unfold checkCast
    dsimp only
    rw [convert]
    exact Yields.mono (convertFunction_converted fresh ht _) fun _ h => h.2
  | list type_eq types below => exact value type_eq rfl
  | closed checked closed lasts =>
    obtain ⟨source, hs, -⟩ := checked.typed
    unfold checkCast
    dsimp only
    split
    · cases closed
    · rename_i hf
      refine value hs ?_
      cases e with
      | function f => exact absurd rfl (hf f)
      | _ => rfl

/-! ## Sizes -/

theorem checkSizeOf_endures {e : Expr} (he : Durable T e) {t : Ty} (hs : e.type? = some t) :
    Yields T (checkSizeOf node e) (Endures T) := by
  unfold checkSizeOf
  simp only [type_ok hs, lift_ok, pure_bind]
  split
  · exact Yields.reject _ _
  · rename_i hvoid
    refine Yields.target (Yields.some ⟨rfl, fun hrep => ?_⟩)
    rw [Fixed, check]
    refine Again.bind ((he.lasts hs (hrep.child (by simp [children]))).needed (he.operand.toChecked hs)) fun e' he' => ?_
    show Again T (checkSizeOf _ e') _
    unfold checkSizeOf
    refine Quiet.type he' hs fun t' _ hout => ?_
    rw [Ty.eq_of_bare Ty.isVoid_bare (Ty.bare_of_outline hout), if_neg hvoid]
    refine Quiet.target (Again.some ?_)
    simp only [outline, Node.outline, Node.typed, he']

theorem checkSizeOfType_endures (measured : Ty) : Yields T (checkSizeOfType node measured) (Endures T) := by
  unfold checkSizeOfType
  split
  · exact Yields.reject _ _
  · rename_i hvoid
    refine Yields.target (Yields.some ⟨rfl, fun _ => ?_⟩)
    rw [Fixed, check]
    unfold checkSizeOfType
    rw [if_neg hvoid]
    exact Quiet.target (Again.some rfl)

/-! ## Allocations -/

section
variable {e : Expr} {allocated : Ty} {count init count' init' : Option Expr} {varying : Bool}

/-- How many items an allocation is for, as a check leaves it. -/
def Counted (T : Target) (varying : Bool) (e : Expr) : Prop :=
  ∃ s, Converted T (.basic .int32 (if varying then .varying else .uniform)) s e

theorem allocationCount_counted (he : Durable T e) {t : Ty} (hs : e.type? = some t) :
    Yields T (allocationCount node e varying) (Counted T varying) := by
  unfold allocationCount
  simp only [type_ok hs, lift_ok, pure_bind]
  split
  · exact Yields.reject _ _
  · exact convert_converted he (Ty.legal_basic _ _) (fun _ _ _ => rfl) _

theorem allocationCount_again {e' : Expr} (h : Counted T varying e) (he : e'.outline = e.outline) :
    Again T (allocationCount node e' varying) e := by
  obtain ⟨s, hc⟩ := h
  unfold allocationCount
  refine Quiet.type he hc.type_eq fun s' _ hout => ?_
  dsimp only
  rw [(integer_of_core (hc.core_of_bare hout rfl) rfl).1, Bool.not_true, if_neg Bool.false_ne_true]
  exact hc.again he rfl

theorem newOf_outline {place place' : Option Location} {t : Ty} (hc : count'.map outline = count.map outline)
    (hi : init'.map outline = init.map outline) : (newOf (.typed place t) allocated varying count' init').outline =
      (newOf (.typed place' t) allocated varying count init).outline := by
  simp only [newOf, outline, Node.outline, Node.typed, outlineOf_eq, hc, hi]

theorem checkNew_endures (ht : allocated.Legal) (hv : allocated.isVoid = false)
    (hcount : ∀ n, count = some n → Durable T n ∧ ∃ t, n.type? = some t) (hinit : ∀ e, init = some e → Durable T e) :
    Yields T (checkNew node allocated count init varying) (Endures T) := by
  unfold checkNew
  split
  · exact Yields.reject _ _
  · rename_i n
    obtain ⟨hn, t, hs⟩ := hcount n rfl
    refine Yields.bind (allocationCount_counted node hn hs) (fun n hn => Yields.some ⟨rfl, fun hrep => ?_⟩) Yields.none
    have hfixed := hn.choose_spec.fixed (hrep.child (by simp [newOf, children]))
    show Fixed T (newOf node allocated varying (some n) none)
    rw [Fixed, newOf, check, if_neg (by rw [hv]; exact Bool.false_ne_true)]
    simp only [pure_bind]
    refine Again.bind hfixed fun n' hn' => ?_
    unfold checkNew
    exact Again.bind (allocationCount_again _ hn hn') fun n'' hn'' => Again.some (newOf_outline (congrArg some hn'') rfl)
  · rename_i e
    refine Yields.bind (convert_reaches (hinit e rfl) ht _) (fun e hreach => Yields.some ⟨rfl, fun hrep => ?_⟩) Yields.none
    show Fixed T (newOf node allocated varying none (some e))
    rw [Fixed, newOf, check, if_neg (by rw [hv]; exact Bool.false_ne_true)]
    simp only [pure_bind]
    refine Quiet.result (hreach (hrep.child (by simp [newOf, children]))) fun d hd => ?_
    exact Again.bind (hd.converts _ rfl _) fun e' he' => Again.some (newOf_outline rfl (congrArg some he'))
  · refine Yields.some ⟨rfl, fun _ => ?_⟩
    rw [Fixed, newOf, check, if_neg (by rw [hv]; exact Bool.false_ne_true)]
    exact Again.some (newOf_outline rfl rfl)

end

end Spmd.Check
