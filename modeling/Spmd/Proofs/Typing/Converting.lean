import Spmd.Proofs.Session.Result
import Spmd.Proofs.Typing.Conversion

/-!
# What a conversion gives

A conversion of a value gives the value itself, a null pointer, a bound reference, what is read through a reference, or a cast
(`Check.ConvertsTo`), and a conversion of a name gives the name or a cast of it (`Check.Renames`). What is known of the result of a
conversion follows from these cases.
-/

namespace Spmd.Check

open Spmd.Expr

variable {T : Target} {α : Type} {P : α → Prop} {place : Option Location} {context : String} {explicit : Bool} {source target : Ty}
  {e c : Expr}

/-! ## Steps -/

theorem canConvert_yields {k : Bool → Check (Option α)} (h : Ty.obstacle explicit source target = none → Yields T (k true) P)
    (hn : Yields T (k false) P) : Yields T (canConvert place context explicit source target >>= k) P := by
  unfold canConvert
  split
  · rename_i ho
    rw [pure_bind]
    exact h ho
  · rw [bind_assoc]
    refine Gives.bind (Meets.gives (report_meets place _)) fun _ _ => ?_
    rw [pure_bind]
    exact hn

theorem ifConverts_yields {k : Check (Option α)} (h : Ty.obstacle explicit source target = none → Yields T k P) :
    Yields T (canConvert place context explicit source target >>= fun b => if b = true then k else pure none) P :=
  canConvert_yields h Yields.none

/-! ## Values -/

/-- What a value is read as: nothing is left of a dropped `const`, all else is a cast. -/
inductive ReadAs (e : Expr) (source target : Ty) : Expr → Prop
  | kept (possible : Ty.obstacle false source target = none) (same : source.sameIgnoringConst target = true) :
      ReadAs e source target e
  | cast (possible : Ty.obstacle false source target = none) (differs : source.sameIgnoringConst target = false) :
      ReadAs e source target (.cast (.typed e.place target) target e false)

theorem ReadAs.possible (h : ReadAs e source target c) : Ty.obstacle false source target = none := by
  cases h with
  | kept possible => exact possible
  | cast possible => exact possible

theorem convertRead_yields (e : Expr) (source target : Ty) :
    Yields T (convertRead e source target context) (ReadAs e source target) := by
  unfold convertRead
  refine ifConverts_yields fun ho => ?_
  split
  · rename_i hsame
    exact Yields.some (.kept ho hsame)
  · rename_i hsame
    have hcast : Yields T (return some (.cast (.typed e.place target) target e false)) (ReadAs e source target) :=
      Yields.some (.cast ho (Bool.eq_false_iff.mpr hsame))
    dsimp only
    split
    · exact Gives.bind (Meets.gives (warnOfNarrowing_meets _ _ _ _ _)) fun _ _ => hcast
    · exact hcast

/-- What a reference is bound to: another reference as it is, or storage that is not behind one. -/
inductive BindsTo (e : Expr) (source target : Ty) : Expr → Prop
  | kept (isReference : source.isReference = true) (possible : Ty.obstacle false source target = none) : BindsTo e source target e
  | bound (isValue : source.isReference = false) (assignable : e.isAssignable = .ok true)
      (possible : Ty.obstacle false source target = none) :
      BindsTo e source target (.reference (.typed e.place (.reference source)) e)

theorem BindsTo.possible (h : BindsTo e source target c) : Ty.obstacle false source target = none := by
  cases h with
  | kept _ possible => exact possible
  | bound _ _ possible => exact possible

theorem bindReference_yields (hs : e.type? = some source) :
    Yields T (bindReference e target context) (BindsTo e source target) := by
  unfold bindReference
  simp only [type_ok hs, lift_ok, pure_bind]
  split
  · rename_i hr
    exact ifConverts_yields fun ho => Yields.some (.kept hr ho)
  · rename_i hr
    rw [Bool.not_eq_true] at hr
    refine Gives.lift fun b hb => ?_
    split
    · rename_i hassignable
      subst hassignable
      simp only [Ty.referenceTo, hr, Bool.false_eq_true, if_false, lift_ok, pure_bind]
      exact ifConverts_yields fun ho => Yields.some (.bound hr hb ho)
    · exact Yields.reject _ _

/-- What a value is converted to: what has the type stays, what may become a null pointer does, and a reference is bound to storage
or read through. -/
inductive ConvertsTo (e : Expr) (source target : Ty) : Expr → Prop
  | same (same : source.same target = true) : ConvertsTo e source target e
  | null (null : becomesNull e source target = true) : ConvertsTo e source target (.null (.typed e.place target))
  | binds {c : Expr} (isReference : target.isReference = true) (bound : BindsTo e source target c) : ConvertsTo e source target c
  | dereferences {referent : Ty} {o : Origin} (source_eq : source = .reference referent o) (isValue : target.isReference = false)
      (same : referent.same target = true) : ConvertsTo e source target (.dereference (.typed e.place referent) e)
  | readsThrough {referent : Ty} {o : Origin} {c : Expr} (source_eq : source = .reference referent o)
      (isValue : target.isReference = false) (read : ReadAs (.dereference (.typed e.place referent) e) referent target c) :
      ConvertsTo e source target c
  | reads {c : Expr} (source_value : source.isReference = false) (isValue : target.isReference = false)
      (kept : becomesNull e source target = false) (read : ReadAs e source target c) : ConvertsTo e source target c

theorem convertValue_yields (hs : e.type? = some source) :
    Yields T (convertValue e target context) (ConvertsTo e source target) := by
  unfold convertValue
  simp only [type_ok hs, lift_ok, pure_bind]
  split
  · rename_i hsame
    exact Yields.some (.same hsame)
  split
  · rename_i hnull
    exact Yields.some (.null hnull)
  rename_i hnull
  rw [Bool.not_eq_true] at hnull
  split
  · rename_i hr
    exact Yields.mono (bindReference_yields hs) fun _ => .binds hr
  rename_i hr
  rw [Bool.not_eq_true] at hr
  cases source with
  | reference referent o =>
    dsimp only
    split
    · rename_i hsame
      exact Yields.some (.dereferences rfl hr hsame)
    · exact Yields.mono (convertRead_yields _ _ _) fun _ => .readsThrough rfl hr
  | _ => exact Yields.mono (convertRead_yields _ _ _) fun _ => .reads rfl hr hnull

/-! ## Function names -/

/-- What a name is converted to: itself if it has the type, and a cast otherwise. The name may have been picked. -/
inductive Renames (Q : FunctionName → Prop) (target : Ty) : Expr → Prop
  | kept {f : FunctionName} {source : Ty} (picked : Q f) (resolved : f.isResolved = true) (type_eq : f.node.type = some source)
      (possible : Ty.obstacle false source target = none) (same : source.same target = true) : Renames Q target (.function f)
  | cast {f : FunctionName} {source : Ty} (picked : Q f) (resolved : f.isResolved = true) (type_eq : f.node.type = some source)
      (possible : Ty.obstacle false source target = none) (differs : source.same target = false) :
      Renames Q target (.cast (.typed f.node.place target) target (.function f) false)

theorem resolve_type {f : FunctionName} (hs : f.node.type = some source) (arguments : List Argument) :
    Gives T (f.resolve arguments) fun r => r.2.node.type = some source := by
  unfold FunctionName.resolve
  split
  · exact Gives.pure hs
  · split
    · refine Gives.bind (Meets.gives (note_meets _)) fun _ _ => Gives.pure ?_
      show (FunctionName.settleType { f with choice := ⟨some _, true⟩ }).node.type = some source
      rw [FunctionName.settleType_of_type (f := { f with choice := ⟨some _, true⟩ }) hs]
      exact hs
    all_goals
      exact Gives.bind (Meets.gives (note_meets _)) fun _ _ => Gives.bind (Meets.gives (report_meets _ _)) fun _ _ => Gives.pure hs

theorem pickOverload_type {f : FunctionName} (hs : f.node.type = some source) (target : Ty) :
    Yields T (pickOverload f target) fun f' => f'.node.type = some source := by
  unfold pickOverload
  split
  · exact Yields.some hs
  · refine Gives.bind (resolve_type hs _) fun r hr => Gives.pure fun f' hf' => ?_
    split at hf' <;> cases hf'
    exact hr

/-- What a name of a known type is converted to has an overload of this type. -/
theorem Renames.possible (h : Renames (fun f => f.node.type = some source) target c) : Ty.obstacle false source target = none := by
  cases h with
  | kept picked _ type_eq possible => exact Option.some.inj (type_eq.symm.trans picked) ▸ possible
  | cast picked _ type_eq possible => exact Option.some.inj (type_eq.symm.trans picked) ▸ possible

theorem convertFunction_yields {Q : FunctionName → Prop} {f : FunctionName} (h : Yields T (pickOverload f target) Q) :
    Yields T (convertFunction f target context) (Renames Q target) := by
  unfold convertFunction
  refine Yields.bind h (fun f' hf' => ?_) Yields.none
  dsimp only
  split
  · exact Yields.reject _ _
  rename_i hresolved
  have hresolved : f'.isResolved = true := by simpa using hresolved
  refine Gives.lift fun source hs => ifConverts_yields fun ho => ?_
  have htype : f'.node.type = some source := type?_of_ok hs
  cases hsame : source.same target with
  | true => exact Yields.some (.kept hf' hresolved htype ho hsame)
  | false => exact Yields.some (.cast hf' hresolved htype ho hsame)

end Spmd.Check
