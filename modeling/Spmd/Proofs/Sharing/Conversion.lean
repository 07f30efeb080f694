import Spmd.Proofs.Sharing.Names
import Spmd.Proofs.Typing.Conversion

/-!
# Conversion looks at nothing but the target

Converting an expression does the same in every session, and leaves nothing open but lawful names (`Check.convert_leaves`).
-/

namespace Spmd.Check

open Spmd.Expr

/-- A check that does the same in every session with the target and leaves nothing open but lawful names. -/
def Leaves (T : Target) (P : Option Nat → FunctionName → Prop) (k : Option Nat) (m : Check (Option Expr)) : Prop :=
  Secluded (onNames T P) m fun o => ∀ e ∈ o, Waiting P k e

/-- An expression in which only lawful names are left open, and which is no name without a function. -/
structure Finished (P : Option Nat → FunctionName → Prop) (k : Option Nat) (e : Expr) : Prop where
  waiting : Waiting P k e
  resolved : ∀ g, e = .function g → g.isResolved = true

/-- A check whose result is never a name without a function. -/
def Finishes (T : Target) (P : Option Nat → FunctionName → Prop) (k : Option Nat) (m : Check (Option Expr)) : Prop :=
  Secluded (onNames T P) m fun o => ∀ e ∈ o, Finished P k e

/-- A check whose result leaves nothing open. -/
def Closes (T : Target) (P : Option Nat → FunctionName → Prop) (m : Check (Option Expr)) : Prop :=
  Secluded (onNames T P) m fun o => ∀ e ∈ o, e.awaitsTarget = false

variable {T : Target} {B : Bounds} {P : Option Nat → FunctionName → Prop} {k : Option Nat} {f : FunctionName} {e : Expr}
  {context : String}

theorem Finished.closed (h : e.awaitsTarget = false) : Finished P k e :=
  ⟨.closed h, fun _ hg => by subst hg; cases h⟩

theorem Finishes.leaves {m : Check (Option Expr)} (h : Finishes T P k m) : Leaves T P k m :=
  Secluded.mono h fun _ ho e he => (ho e he).waiting

theorem Closes.finishes {m : Check (Option Expr)} (h : Closes T P m) : Finishes T P k m :=
  Secluded.mono h fun _ ho e he => .closed (ho e he)

theorem Leaves.closed (h : e.awaitsTarget = false) : Leaves T P k (return some e) := Secluded.some (.closed h)

/-! ## Types -/

theorem canConvert_secluded (place : Option Location) (explicit : Bool) (source target : Ty) :
    Secluded B (canConvert place context explicit source target) fun _ => True := by
  unfold canConvert
  split
  · exact Secluded.pure trivial
  · exact Secluded.bind (report_secluded _ _) fun _ _ => Secluded.pure trivial

theorem commonType_secluded (place : Option Location) (left right : Ty) :
    Secluded B (commonType place context left right) fun o => ∀ t ∈ o, True := by
  unfold commonType
  split
  · exact Secluded.some trivial
  · exact Secluded.reject _ _

theorem Leaves.ifPossible {place : Option Location} {explicit : Bool} {source target : Ty} {m : Check (Option Expr)}
    (h : Leaves T P k m) :
    Leaves T P k do if ← canConvert place context explicit source target then m else return none := by
  refine Secluded.bind (canConvert_secluded place explicit source target) fun possible _ => ?_
  split
  · exact h
  · exact Secluded.none

/-! ## References and names -/

theorem bindReference_leaves (h : Waiting P none e) (target : Ty) : Leaves T P none (bindReference e target context) := by
  unfold bindReference
  refine Secluded.read fun source _ => ?_
  split
  · exact Leaves.ifPossible (Secluded.some h)
  · refine Secluded.read fun assignable _ => ?_
    split
    · exact Leaves.ifPossible (Secluded.read fun _ _ => Leaves.closed rfl)
    · exact Secluded.reject _ _

theorem pickOverload_lawful (hP : Lawful P) (hf : P none f) {target : Ty} (ht : (pointedParameters? target).isSome = true) :
    Secluded (onNames T P) (pickOverload f target) fun o => ∀ g ∈ o, P none g ∧ g.choice.chosen.isSome = true := by
  obtain ⟨ps, hps⟩ := Option.isSome_iff_exists.mp ht
  unfold pickOverload
  rw [hps]
  refine Secluded.bind (resolve_lawful hP hf nofun) fun r hr => ?_
  dsimp only
  split
  · rename_i hfound
    exact Secluded.some (hr hfound)
  · exact Secluded.none

theorem convertFunction_closes (hP : Lawful P) (hf : P none f) {target : Ty}
    (ht : (pointedParameters? target).isSome = true) : Closes T P (convertFunction f target context) := by
  have hpointer : target.isPointer = true := by
    cases target with
    | pointer => rfl
    | _ => cases ht
  unfold convertFunction
  refine Secluded.needs (pickOverload_lawful hP hf ht) (fun g hg => ?_) Secluded.none
  obtain ⟨hg, hchosen⟩ := hg
  obtain ⟨s, hs⟩ := Option.isSome_iff_exists.mp hchosen
  obtain ⟨hsettled, sig, hsig⟩ := (hP.known hg hs).settled (g.settleType_choice ▸ hs)
  dsimp only
  split
  · exact Secluded.reject _ _
  · refine Secluded.read fun source hsource => Secluded.bind (canConvert_secluded _ _ _ _) fun possible _ => ?_
    have hnode : g.node.type = some source := type?_of_ok hsource
    have htype : source = s.type := by
      have hs := hsettled.type_eq
      rw [FunctionName.settleType_of_type hnode, hnode] at hs
      exact Option.some.inj hs
    split
    · rw [htype, signature_not_pointer hsig hpointer]
      exact Secluded.some rfl
    · exact Secluded.none

theorem convertFunction_finishes (hf : P k f) {target : Ty}
    (ht : pointedParameters? target = none) : Finishes T P k (convertFunction f target context) := by
  unfold convertFunction pickOverload
  rw [ht]
  simp only [pure_bind]
  split
  · exact Secluded.reject _ _
  · rename_i hresolved
    refine Secluded.read fun source _ => Secluded.bind (canConvert_secluded _ _ _ _) fun possible _ => ?_
    split
    · refine Secluded.some ?_
      split
      · exact ⟨.name hf, fun _ hn => by cases hn; simpa using hresolved⟩
      · exact .closed rfl
    · exact Secluded.none

/-! ## Values -/

theorem warnOfNarrowing_secluded (place : Option Location) (c : Constant) (source target : Ty) :
    Secluded B (warnOfNarrowing place c source target context) fun _ => True := by
  unfold warnOfNarrowing
  split
  · dsimp only
    split
    · exact warn_secluded _ _
    · exact Secluded.pure trivial
  · exact Secluded.pure trivial

theorem convertRead_leaves (h : Waiting P none e) (source target : Ty) : Leaves T P none (convertRead e source target context) := by
  unfold convertRead
  refine Leaves.ifPossible ?_
  split
  · exact Secluded.some h
  · split
    · exact Secluded.bind (warnOfNarrowing_secluded _ _ _ _) fun _ _ => Leaves.closed rfl
    · exact Leaves.closed rfl

theorem convertValue_leaves (h : Waiting P none e) (target : Ty) : Leaves T P none (convertValue e target context) := by
  unfold convertValue
  refine Secluded.read fun source _ => ?_
  split
  · exact Secluded.some h
  · split
    · exact Leaves.closed rfl
    · split
      · exact bindReference_leaves h target
      · split
        · dsimp only
          split
          · exact Leaves.closed rfl
          · exact convertRead_leaves (.closed rfl) _ _
        · exact convertRead_leaves h _ _

/-! ## Lists -/

theorem convertItems_leaves : ∀ {es : List Expr} {ts : List (Option Ty)},
    (∀ e ∈ es, ∀ t, Leaves T P none (convert e t context)) →
    Secluded (onNames T P) (convertItems es ts context) fun o => ∀ es ∈ o, ∀ e ∈ es, Waiting P none e
  | [], ts, _ => by
    rw [convertItems.eq_2]
    exact Secluded.some fun _ he => by cases he
  | e :: es, [], _ => Secluded.none
  | e :: es, none :: ts, _ => Secluded.none
  | e :: es, some t :: ts, h => by
    rw [convertItems]
    refine Secluded.needs (h e List.mem_cons_self t) (fun e' he' => ?_) Secluded.none
    refine Secluded.needs (convertItems_leaves fun c hc => h c (List.mem_cons_of_mem _ hc)) (fun es' hes' => ?_) Secluded.none
    exact Secluded.some (List.forall_mem_cons.mpr ⟨he', hes'⟩)

theorem convert_leaves (hP : Lawful P) (h : Waiting P none e) (target : Ty) : Leaves T P none (convert e target context) := by
  induction e using Expr.induct generalizing target with
  | h e ih =>
  cases e with
  | function f =>
    cases h with
    | name lawful =>
      rw [convert]
      cases ht : pointedParameters? target with
      | none => exact (convertFunction_finishes lawful ht).leaves
      | some => exact (convertFunction_closes hP lawful (by rw [ht]; rfl)).finishes.leaves
    | closed closed => cases closed
  | list node items =>
    rw [convert]
    refine Secluded.read fun source _ => ?_
    split
    · exact convertValue_leaves h target
    · split
      · exact convertValue_leaves h target
      · cases h with
        | closed closed => cases closed
        | list below =>
          refine Leaves.ifPossible ?_
          refine Secluded.needs (convertItems_leaves fun c hc t => ih c hc (below c hc) t) (fun items' hitems' => ?_) Secluded.none
          exact Secluded.read fun _ _ => Secluded.some (.list hitems')
  | _ => exact convertValue_leaves h target

end Spmd.Check
