import Spmd.Proofs.Sharing.Form
import Spmd.Proofs.Typing.Visiting

/-!
# Checking looks at nothing but the target

Checking an expression does the same in every session with the target: it has the same result and reports the same
messages, and all it finds out is about function names in the expression (`Check.check_leaves`).
-/

namespace Spmd.Check

open Spmd.Expr

variable {T : Target} {P : Option Nat → FunctionName → Prop} {k : Option Nat} {node : Node}

/-! ## Children -/

theorem needed_finishes {m : Check (Option Expr)} (h : Leaves T P k m) : Finishes T P k (needed m) :=
  Secluded.bind h fun _ ho => resolved_finishes ho

theorem checkName_lawful (hP : Lawful P) {f : FunctionName} (hf : P k f) :
    Secluded (onNames T P) (check (.function f)) fun o => ∀ e ∈ o, e = .function f.settleType := by
  rw [check]
  exact Secluded.bind (note_lawful (hP.settle hf)) fun _ _ => Secluded.some rfl

/-! ## Expressions -/

/-- How the names of an operand are used: a callee with its arguments, and what a cast or a reference may leave a name in the way
that it is used itself. -/
def usedAs (k : Option Nat) : Expr → Role → Option Nat
  | _, .callee n => some n
  | .cast _ t _ _, _ => if (pointedParameters? t).isNone then k else none
  | .reference .., _ => k
  | _, _ => none

theorem usedAs_none {e c : Expr} {r : Role} (he : e.relays = false) (h : (r, c) ∈ operands e) : usedAs k e r = none := by
  cases r with
  | callee n =>
    obtain ⟨_, _, _, _, _, rfl, -⟩ := callee_mem h
    cases he
  | typed | plain =>
    cases e with
    | cast | reference => cases he
    | _ => rfl

theorem mem_uses_operand {e c : Expr} {r : Role} {u : Option Nat × FunctionName} (h : (r, c) ∈ operands e)
    (hu : u ∈ c.uses (usedAs k e r)) : u ∈ e.uses k := by
  cases e with
  | call node c' args launch count signature =>
    rw [uses, usesAll_eq]
    rcases List.mem_cons.mp h with h | h
    · cases h
      exact List.mem_append_left _ hu
    · obtain ⟨d, hd, heq⟩ := List.mem_map.mp h
      cases heq
      refine List.mem_append_right _ (List.mem_append.mpr ((List.mem_append.mp hd).imp (fun hd => ?_) fun hd => ?_))
      · exact List.mem_flatMap.mpr ⟨c, hd, hu⟩
      · rw [Option.mem_toList.mp hd]
        exact hu
  | cast | reference =>
    cases List.mem_singleton.mp h
    exact hu
  | _ => exact mem_uses_child rfl (mem_children h) (usedAs_none rfl h ▸ hu) k

/-- A name is left as it is, and all else is checked like its form. -/
theorem leaves_of_finishes (hP : Lawful P) {e : Expr} (h : ∀ u ∈ e.uses k, P u.1 u.2)
    (hform : (∀ f, e ≠ .function f) → Finishes T P k (check e)) : Leaves T P k (check e) := by
  by_cases hf : ∃ f, e = .function f
  · obtain ⟨f, rfl⟩ := hf
    refine Secluded.mono (checkName_lawful hP (h (k, f) List.mem_cons_self)) fun o ho e he => ?_
    rw [ho e he]
    exact .name (hP.settle (h (k, f) List.mem_cons_self))
  · exact (hform fun f he => hf ⟨f, he⟩).leaves

/-- What is known of a checked operand of an expression. -/
def Visited (P : Option Nat → FunctionName → Prop) (k : Option Nat) (e : Expr) : Role → Expr → Prop
  | .typed, c => Finished P (usedAs k e .typed) c
  | r, c => Waiting P (usedAs k e r) c

/-- Checking anything but a name never gives a name without a function. -/
theorem check_finishes (hP : Lawful P) {e : Expr} (h : ∀ u ∈ e.uses k, P u.1 u.2) (he : ∀ f, e ≠ .function f) :
    Finishes T P k (check e) := by
  induction e using Expr.induct generalizing k with
  | h e ih =>
  refine (Secluded.law (onNames T P)).check (P := Visited P k e) (fun o ho => ?_) fun m hm => ?_
  · obtain ⟨r, c⟩ := o
    have hused : ∀ u ∈ c.uses (usedAs k e r), P u.1 u.2 := fun u hu => h u (mem_uses_operand ho hu)
    have hc : Leaves T P (usedAs k e r) (check c) := leaves_of_finishes hP hused (ih c (mem_children ho) hused)
    cases r with
    | typed => exact needed_finishes hc
    | plain | callee => exact hc
  · cases hm with
    | unary hc => exact (checkUnary_closes hP hc.waiting _).finishes
    | step => exact (checkStep_closes _ _).finishes
    | binary hl hr => exact (checkBinary_closes hP hl.waiting hr.waiting _).finishes
    | set _ hv => exact (checkAssign_closes hP hv _).finishes
    | update hop _ hv => exact (checkAssign_closes hP hv.waiting _).finishes
    | select ht ha hb => exact (checkSelect_closes hP ht.waiting ha.waiting hb.waiting).finishes
    | list hes => exact Secluded.read fun _ _ => Secluded.some ⟨.list fun c hc => (hes c hc).waiting, fun _ hg => by cases hg⟩
    | @call _ _ args _ _ _ _ _ _ hc hlength hargs hcount =>
      refine (checkCall_closes hP (fun f hf => ?_) hargs hcount _).finishes
      subst hf
      cases hc with
      | name lawful => exact ⟨some args.length, lawful, fun _ hn => hlength.trans (Option.some.inj hn)⟩
      | closed closed => cases closed
    | index _ hi => exact (checkIndex_closes hP hi.waiting).finishes
    | member => exact (checkMember_closes _ _ _).finishes
    | cast hc => exact checkCast_finishes hP hc
    | reference hc => exact checkReference_finishes hc
    | dereference => exact (checkDereference_closes _).finishes
    | addressOf => exact (checkAddressOf_closes _).finishes
    | sizeOf => exact (checkSizeOf_closes _).finishes
    | new _ hcount hinit => exact (checkNew_closes hP (fun n hn => (hcount n hn).waiting) hinit _ _).finishes
    | void => exact Secluded.reject _ _
    | sizeOfType => exact (checkSizeOfType_closes _).finishes
    | function => exact absurd rfl (he _)
    | const | symbol | sync | null => exact Secluded.some (.closed rfl)

theorem check_leaves (hP : Lawful P) {e : Expr} (h : ∀ u ∈ e.uses k, P u.1 u.2) : Leaves T P k (check e) :=
  leaves_of_finishes hP h (check_finishes hP h)

/-- Checking an expression whose value is used does the same in every session, too. -/
theorem typecheck_leaves (hP : Lawful P) {e : Expr} (h : ∀ u ∈ e.uses none, P u.1 u.2) :
    Leaves T P none (typecheck e) :=
  (needed_finishes (check_leaves hP h)).leaves

end Spmd.Check
