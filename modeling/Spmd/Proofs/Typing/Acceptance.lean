import Spmd.Proofs.Ty.Obstacle
import Spmd.Proofs.Typing.Call
import Spmd.Proofs.WellTyped.Conversion

/-!
# What is converted is accepted

Overload resolution accepts arguments by their types, and a conversion looks at the arguments themselves. Where all arguments
of a call can be converted, a candidate with these parameters takes them (`Check.convertArguments_takes`), unless one of them
is passed in a way that its type does not tell (`Expr.Passed`).
-/

namespace Spmd

/-! ## Arguments -/

namespace Expr

/-- An argument that is passed as its type says: it is no open name of functions, no null pointer that is given another type,
and no reference to a function or to `void` that is read. -/
structure Passed (a : Expr) (p : Ty) : Prop where
  named : ∀ f, a = .function f → f.isResolved = true
  null : a.isNull = true → ∀ t, a.type? = some t → t.acceptsNull p = true → t.converts false p = true
  read : ∀ t o, a.type? = some (.reference t o) → t.same p = true → p.isVoid = false ∧ p.isFunction = false

end Expr

namespace Check

open Spmd.Expr

variable {T : Target} {a : Expr} {t p : Ty}

/-- Whether overload resolution lets the argument pass for the parameter, by its type or as a null pointer. -/
def Accepted (a : Expr) (t p : Ty) : Prop := Argument.fits (Ty.converts false) ⟨t, a.isZeroConstant⟩ p = true

theorem accepted_of_obstacle (h : Ty.obstacle false t p = none) : Accepted a t p := by
  simp only [Accepted, Argument.fits, Ty.converts, h, Option.isNone_none, Bool.or_true]

theorem accepted_of_null (h : becomesNull a t p = true) (ht : a.type? = some t) (hp : Passed a p) : Accepted a t p := by
  simp only [becomesNull, Bool.and_eq_true, Bool.or_eq_true] at h
  obtain ⟨⟨hpointer, hnull⟩, hvarying⟩ := h
  have hnulls : t.acceptsNull p = true := by rw [Ty.acceptsNull, hpointer, hvarying]; rfl
  rcases hnull with hnull | hzero
  · exact accepted_of_obstacle (Option.isNone_iff_eq_none.mp (hp.null hnull t ht hnulls))
  · simp only [Accepted, Argument.fits, hzero, hnulls, Bool.and_true, Bool.true_or]

theorem convertValue_accepted (ht : a.type? = some t) (hp : Passed a p) (context : String) :
    Yields T (convertValue a p context) fun _ => Accepted a t p := by
  refine Yields.mono (convertValue_yields ht) fun c hc => ?_
  cases hc with
  | same same => exact accepted_of_obstacle (Ty.obstacle_of_same same)
  | null null => exact accepted_of_null null ht hp
  | binds _ bound => exact accepted_of_obstacle bound.possible
  | dereferences source_eq isValue same =>
    subst source_eq
    exact accepted_of_obstacle (Ty.obstacle_of_referent isValue (Ty.obstacle_of_same same) (hp.read _ _ ht))
  | readsThrough source_eq isValue read =>
    subst source_eq
    exact accepted_of_obstacle (Ty.obstacle_of_referent isValue read.possible (hp.read _ _ ht))
  | reads _ _ _ read => exact accepted_of_obstacle read.possible

theorem convertFunction_accepted {f : FunctionName} (ht : f.node.type = some t) (context : String) :
    Yields T (convertFunction f p context) fun _ => Ty.obstacle false t p = none :=
  Yields.mono (convertFunction_yields (pickOverload_type ht p)) fun _ => Renames.possible

theorem convert_accepted (ha : Operand T a) (ht : a.type? = some t) (hl : p.Legal) (hp : Passed a p) (context : String) :
    Yields T (convert a p context) fun _ => Accepted a t p := by
  by_cases ho : Ty.obstacle false t p = none
  · exact Yields.mono (convert_delivers ha context hl).yields fun _ _ => accepted_of_obstacle ho
  cases ha with
  | @name f known =>
    rw [convert]
    exact Yields.mono (convertFunction_accepted ht context) fun _ => accepted_of_obstacle
  | @list node items ts type_eq types below =>
    have hvalue := convertValue_accepted (T := T) ht hp context
    rw [convert]
    simp only [type_ok ht, lift_ok, pure_bind]
    split
    · exact hvalue
    · split
      · exact hvalue
      · exact ifConverts_yields fun h => absurd h ho
  | checked checked closed =>
    rw [convert]
    · exact convertValue_accepted ht hp context
    · rintro f rfl; cases closed
    · rintro n es rfl; cases closed

/-! ## Calls -/

/-- Where all arguments can be converted, overload resolution lets each of them pass. -/
theorem convertArguments_accepted {args : List Expr} : ∀ {ts ps : List Ty}, (∀ a ∈ args, Operand T a) →
    args.map type? = ts.map some → ps.length = args.length → (∀ p ∈ ps, p.Legal) → (∀ q ∈ args.zip ps, Passed q.1 q.2) →
    Yields T (convertArguments args ps) fun _ =>
      ((Argument.ofTypes ts (args.map isZeroConstant)).zip ps).all (fun q => q.1.fits (Ty.converts false) q.2) = true := by
  induction args with
  | nil =>
    intro ts ps _ hts _ _ _
    cases ts with
    | nil => exact Yields.some rfl
    | cons => cases hts
  | cons a as ih =>
    intro ts ps hargs hts hn hps hpassed
    cases ts with
    | nil => cases hts
    | cons t ts =>
      cases ps with
      | nil => cases hn
      | cons p ps =>
        rw [List.map_cons, List.map_cons, List.cons.injEq] at hts
        have hfirst := convert_accepted (hargs a List.mem_cons_self) hts.1 (hps p List.mem_cons_self)
          (hpassed (a, p) List.mem_cons_self) "function call argument"
        have hrest := ih (fun c hc => hargs c (List.mem_cons_of_mem _ hc)) hts.2 (by simpa using hn)
          (fun q hq => hps q (List.mem_cons_of_mem _ hq)) fun q hq => hpassed q (List.mem_cons_of_mem _ hq)
        rw [convertArguments]
        refine Yields.both hfirst hrest (fun _ _ h hs => Yields.some ?_) (fun _ => Yields.none) fun _ => Yields.none
        rw [List.map_cons, Argument.ofTypes, List.zip_cons_cons, List.all_cons, Bool.and_eq_true]
        exact ⟨h, hs⟩

/-- A candidate whose parameters all arguments can be converted to takes them. -/
theorem convertArguments_takes {args : List Expr} {ts : List Ty} {s : Symbol} {sig : Signature} (hargs : ∀ a ∈ args, Operand T a)
    (hts : args.map type? = ts.map some) (hs : s.signature? = some sig) (hn : sig.parameters.length = args.length)
    (hps : ∀ p ∈ sig.parameters, p.Legal) (hpassed : ∀ q ∈ args.zip sig.parameters, Passed q.1 q.2) :
    Yields T (convertArguments args sig.parameters) fun _ =>
      s.takes (Ty.converts false) (Argument.ofTypes ts (args.map isZeroConstant)) = true := by
  have hlen : ts.length = args.length := by simpa using (congrArg List.length hts).symm
  refine Yields.mono (convertArguments_accepted hargs hts hn hps hpassed) fun _ hall => ?_
  unfold Symbol.takes
  rw [hs]
  dsimp only
  rw [length_ofTypes, hlen, hn, Bool.and_eq_true]
  exact ⟨beq_self_eq_true _, hall⟩

end Check

end Spmd
