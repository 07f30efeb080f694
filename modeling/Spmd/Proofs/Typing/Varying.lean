import Spmd.Proofs.Typing.Acceptance
import Spmd.Proofs.Typing.Reports

/-!
# Varying values stay varying

No conversion makes a uniform value of a varying one, with a cast or without (`Check.varying_stays`). Arrays are left out, since
an array of varying elements decays to a uniform pointer.
-/

namespace Spmd

namespace Check

open Spmd.Expr

variable {T : Target} {e : Expr} {source target : Ty}

/-- A varying type that is no array, and no reference to one. -/
structure Lane (t : Ty) : Prop where
  legal : t.Legal
  varying : t.isVarying = true
  single : t.stored.isArray = false

theorem Lane.stays {explicit : Bool} (h : Lane source) (ho : Ty.obstacle explicit source target = none) :
    target.isVarying = true :=
  (Ty.obstacle_varying h.legal ho h.varying).resolve_right fun hdecays => by
    rw [h.single] at hdecays
    cases hdecays.1

theorem Lane.same (h : Lane source) (hsame : source.same target = true) : target.isVarying = true :=
  h.stays (show Ty.obstacle false source target = none from Ty.obstacle_of_same hsame)

theorem Lane.referent {referent : Ty} {o : Origin} (h : Lane (.reference referent o)) : Lane referent :=
  ⟨h.legal.2, h.varying, by rw [Ty.stored_of_not_reference h.legal.1]; exact h.single⟩

/-- A conversion to a varying type, with a varying result. -/
def StaysVaried (target : Ty) (e : Expr) : Prop := target.isVarying = true ∧ e.isVarying = true

section
variable (h : Lane source) (hs : e.type? = some source)
include h hs

theorem ReadAs.varies {c : Expr} (hc : ReadAs e source target c) : StaysVaried target c := by
  have ht := h.stays hc.possible
  cases hc with
  | kept => exact ⟨ht, (isVarying_eq hs).trans h.varying⟩
  | cast => exact ⟨ht, ht⟩

theorem convertValue_varies (context : String) : Yields T (convertValue e target context) (StaysVaried target) := by
  refine Yields.mono (convertValue_yields hs) fun c hc => ?_
  cases hc with
  | same same => exact ⟨h.same same, (isVarying_eq hs).trans h.varying⟩
  | null null =>
    have ht : target.isVarying = true := by
      simp only [becomesNull, h.varying, Bool.true_and, Bool.and_eq_true, Bool.not_eq_true', Ty.isUniform] at null
      unfold Ty.isVarying
      revert null
      cases target.variability <;> simp
    exact ⟨ht, ht⟩
  | binds _ bound =>
    have ht := h.stays bound.possible
    cases bound with
    | kept => exact ⟨ht, (isVarying_eq hs).trans h.varying⟩
    | bound => exact ⟨ht, h.varying⟩
  | dereferences source_eq _ same =>
    subst source_eq
    exact ⟨h.referent.same same, h.varying⟩
  | readsThrough source_eq _ read =>
    subst source_eq
    exact read.varies h.referent rfl
  | reads _ _ _ read => exact read.varies h hs

end

theorem convertFunction_varies {f : FunctionName} (h : Lane source) (hs : f.node.type = some source) (context : String) :
    Yields T (convertFunction f target context) (StaysVaried target) := by
  refine Yields.mono (convertFunction_yields (pickOverload_type hs target)) fun c hc => ?_
  have ht := h.stays hc.possible
  cases hc with
  | kept picked => exact ⟨ht, (isVarying_eq (e := .function _) picked).trans h.varying⟩
  | cast => exact ⟨ht, ht⟩

theorem convert_varies (h : Lane source) (hs : e.type? = some source) (context : String) :
    Yields T (convert e target context) (StaysVaried target) := by
  cases e with
  | function f =>
    rw [convert]
    exact convertFunction_varies h hs context
  | list node items =>
    have hvalue : Yields T (convertValue (.list node items) target context) (StaysVaried target) :=
      convertValue_varies h hs context
    rw [convert]
    simp only [type_ok (e := .list node items) hs, lift_ok, pure_bind]
    split
    · exact hvalue
    split
    · exact hvalue
    have hitems : ∀ xs, Yields T (convertItems items xs context) fun _ => True := fun xs =>
      Gives.mono ((convertItems_once (fun c _ t => convert_once c t context) xs).gives T) fun _ _ _ _ => trivial
    refine ifConverts_yields fun ho => Yields.bind (hitems _) (fun _ _ => ?_) Yields.none
    refine Gives.lift fun t ht => Yields.some ⟨h.stays ho, ?_⟩
    exact (filledType_isVarying ht).trans (h.stays ho)
  | _ =>
    rw [convert_closed rfl]
    exact convertValue_varies h hs context

/-- No conversion of a varying value ends in a uniform type: there is none to a uniform type, with a cast or without, and what
has been converted is varying. -/
theorem varying_stays (hl : source.Legal) (hv : source.isVarying = true) (ha : source.stored.isArray = false) (target : Ty) :
    (target.isUniform = true → ∀ explicit, Ty.converts explicit source target = false) ∧
      ∀ e, e.type? = some source → ∀ (context : String) s e' s', (convert e target context).run s = (.ok (some e'), s') →
        target.isUniform = false ∧ ∃ u, e'.type? = some u ∧ u.isVarying = true := by
  have hlane : Lane source := ⟨hl, hv, ha⟩
  have huniform : target.isVarying = true → target.isUniform = false := by
    intro h
    rw [Ty.isUniform, eq_of_beq h]
    rfl
  refine ⟨fun hu explicit => ?_, fun e hs context s e' s' hrun => ?_⟩
  · cases ho : Ty.obstacle explicit source target with
    | some o => rw [Ty.converts, ho, Option.isNone_some]
    | none =>
      rw [huniform (hlane.stays ho)] at hu
      cases hu
  · obtain ⟨ht, he⟩ := (convert_varies (T := s.target) hlane hs context s rfl _ _ hrun).1 e' rfl
    cases hu : e'.type? with
    | none =>
      rw [Expr.isVarying, hu] at he
      cases he
    | some u => exact ⟨huniform ht, u, rfl, (isVarying_eq hu).symm.trans he⟩

/-- A variable of varying `int32` becomes a varying `int64`, and a reference to it no `int32`. -/
theorem varying_stays_widening :
    let lane : Ty := .basic .int32 .varying
    (∀ explicit, Ty.converts explicit (.reference lane) .int32 = false) ∧
      ∃ e' s', (convert (localNamed "v" lane) (.basic .int64 .varying) "assignment").run { target := .standard } =
        (.ok (some e'), s') ∧ ∃ u, e'.type? = some u ∧ u.isVarying = true := by
  intro lane
  have hreference := varying_stays (show (Ty.reference lane).Legal from ⟨rfl, trivial⟩) rfl rfl .int32
  have hlane := varying_stays (show lane.Legal from trivial) rfl rfl (.basic .int64 .varying)
  exact ⟨hreference.1 rfl, _, _, rfl, (hlane.2 (localNamed "v" lane) rfl "assignment" { target := .standard } _ _ rfl).2⟩

end Check

end Spmd
