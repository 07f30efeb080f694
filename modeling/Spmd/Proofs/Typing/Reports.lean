import Spmd.Proofs.Session.Terse
import Spmd.Proofs.Typing.Program

/-!
# Conversions report once

A conversion gives an expression of the wanted type and reports no error, or gives none and reports one error
(`check_converts`).
-/

namespace Spmd

namespace Check

open Spmd.Expr

variable {α : Type} {place : Option Location} {context : String} {explicit : Bool} {source target : Ty} {e : Expr}

/-! ## Function names -/

theorem resolve_terse (f : FunctionName) (arguments : List Argument) :
    Terse (fun r => r.1.isSome = true) (f.resolve arguments) := by
  have hnote : ∀ g : FunctionName, Adds g.note fun _ new => Log.errors new = [] := fun g =>
    Adds.mono (Meets.adds fun _ => note_meets g) fun _ _ ⟨_, _, hnew⟩ => by rw [hnew]; rfl
  unfold FunctionName.resolve
  split
  · exact Terse.pure _
  · split
    · exact Terse.after (hnote _) fun _ => Terse.pure _
    all_goals exact Terse.after (hnote _) fun _ => Terse.report _ _ Bool.false_ne_true

theorem pickOverload_once (f : FunctionName) (target : Ty) : ReportsOnce (pickOverload f target) := by
  unfold pickOverload
  split
  · exact Terse.pure _
  · refine Terse.bind (resolve_terse f _) (fun r hr => Terse.pure _) fun r hr => ⟨none, ?_, Bool.false_ne_true⟩
    dsimp only
    rw [if_neg hr]

/-! ## Types -/

theorem ifConverts_once {k : Check (Option α)} (h : ReportsOnce k) :
    ReportsOnce (canConvert place context explicit source target >>= fun b => if b = true then k else pure none) := by
  unfold canConvert
  split
  · exact h
  · exact Terse.report _ _ Bool.false_ne_true

theorem convertFunction_once (f : FunctionName) (target : Ty) (context : String) :
    ReportsOnce (convertFunction f target context) := by
  unfold convertFunction
  refine ReportsOnce.bind (pickOverload_once f target) (fun f' => ?_) rfl
  dsimp only
  split
  · exact ReportsOnce.reject _ _
  · exact Terse.read fun _ _ => ifConverts_once (Terse.pure _)

/-! ## Values -/

theorem bindReference_once (e : Expr) (target : Ty) (context : String) : ReportsOnce (bindReference e target context) := by
  unfold bindReference
  refine Terse.read fun source _ => ?_
  split
  · exact ifConverts_once (Terse.pure _)
  · refine Terse.read fun assignable _ => ?_
    split
    · exact ifConverts_once (Terse.read fun _ _ => Terse.pure _)
    · exact ReportsOnce.reject _ _

theorem convertRead_once (e : Expr) (source target : Ty) (context : String) :
    ReportsOnce (convertRead e source target context) := by
  unfold convertRead
  refine ifConverts_once ?_
  split
  · exact Terse.pure _
  · have hwarn : ∀ c, Adds (warnOfNarrowing e.place c source target context) fun _ new => Log.errors new = [] := fun c =>
      Adds.mono (Meets.adds fun _ => warnOfNarrowing_meets _ _ _ _ _) fun _ _ ⟨_, _, hnew⟩ => hnew
    dsimp only
    split
    · exact Terse.after (hwarn _) fun _ => Terse.pure _
    · exact Terse.pure _

theorem convertValue_once (e : Expr) (target : Ty) (context : String) : ReportsOnce (convertValue e target context) := by
  unfold convertValue
  refine Terse.read fun source _ => ?_
  split
  · exact Terse.pure _
  split
  · exact Terse.pure _
  split
  · exact bindReference_once e target context
  split
  · dsimp only
    split
    · exact Terse.pure _
    · exact convertRead_once _ _ target context
  · exact convertRead_once e _ target context

/-! ## Conversion -/

theorem convertItems_once {items : List Expr} (h : ∀ e ∈ items, ∀ target, ReportsOnce (convert e target context)) :
    ∀ targets, ReportsOnce (convertItems items targets context) := by
  induction items with
  | nil =>
    intro targets
    rw [convertItems]
    · exact Terse.pure _
  | cons e es ih =>
    intro targets
    have hrest := ih fun c hc => h c (List.mem_cons_of_mem _ hc)
    cases targets with
    | nil => exact Terse.pure _
    | cons x xs =>
      cases x with
      | none => exact Terse.pure _
      | some t =>
        rw [convertItems]
        refine ReportsOnce.bind (h e List.mem_cons_self t) (fun e' => ?_) rfl
        exact ReportsOnce.bind (hrest xs) (fun es' => Terse.pure _) rfl

/-- A conversion reports at most one error, and none beside a result. -/
theorem convert_once (e : Expr) (target : Ty) (context : String) : ReportsOnce (convert e target context) := by
  induction e using Expr.induct generalizing target with
  | h e ih =>
  cases e with
  | function f =>
    rw [convert]
    exact convertFunction_once f target context
  | list node items =>
    rw [convert]
    refine Terse.read fun source _ => ?_
    split
    · exact convertValue_once _ target context
    split
    · exact convertValue_once _ target context
    refine ifConverts_once (ReportsOnce.bind (convertItems_once (fun c hc t => ih c hc t) _) (fun es => ?_) rfl)
    exact Terse.read fun _ _ => Terse.pure _
  | _ =>
    rw [convert_closed rfl]
    exact convertValue_once _ target context

/-! ## Types of results -/

variable {T : Target}

/-- Converting an operand gives an expression of exactly the wanted type, or reports an error. -/
theorem convert_exact (he : Operand T e) (ht : target.Legal) (context : String) :
    Delivers T (convert e target context) fun e' => e'.HasType (e.filling target) := by
  have hsingle : (∀ n es, e ≠ .list n es) →
      Delivers T (convert e target context) fun e' => e'.HasType (e.filling target) := by
    intro hn
    rw [filling_not_list hn]
    exact Delivers.mono (convert_single_delivers he context ht hn) fun _ h => h.2
  cases he with
  | name known => exact hsingle nofun
  | checked checked closed =>
    refine hsingle ?_
    rintro n es rfl
    cases closed
  | @list node items ts type_eq types below =>
    cases hf : fillTargets? items.length target with
    | none =>
      have harray : target.isArray = false := by
        cases target with
        | array => cases hf
        | _ => rfl
      rw [filling_eq harray]
      exact Delivers.mono (convert_value_delivers (.list type_eq types below) context ht harray) fun _ h => h.2
    | some xs =>
      -- an array without a size takes on the number of items, which conversion keeps
      have hlength : ∀ {es : List Expr}, es.length = items.length →
          (Expr.list node es).filling target = (Expr.list node items).filling target := by
        intro es hes
        cases target with
        | array el n o => cases n <;> simp only [filling, hes]
        | _ => rfl
      rw [convert_list type_eq hf]
      refine ifConverts fun ho => ?_
      obtain ⟨us, hus, -, -⟩ := fillTargets_listed hf types ho (by cases target <;> first | rfl | cases hf)
      obtain ⟨hn, hall⟩ := fillTargets_ok hf hus ht
      refine Delivers.bind (convertItems_delivers (fun c hc t hl => convert_delivers (below c hc) context hl) hn hall)
        (fun es hes => ?_) rfl
      obtain ⟨t, hfill, -, hcore, -⟩ := filledType_ok es ht
      dsimp only
      rw [hfill, lift_ok, pure_bind]
      exact Delivers.some (hasType_iff.mpr ⟨t, rfl, (hcore node).trans (by rw [hlength hes.1])⟩)

/-- What a conversion to a type comes to: an expression of this type and no error, or no expression and one error. -/
def Converts (e : Expr) (target : Ty) : Option Expr → Log → Prop
  | some e', added => Log.errors added = [] ∧ e'.HasType (e.filling target)
  | none, added => (Log.errors added).length = 1

theorem convert_converts (he : Operand T e) (ht : target.Legal) (context : String) :
    Meets T (convert e target context) (Converts e target) := by
  refine Meets.mono (Meets.adds_and (convert_exact he ht context) (convert_once e target context)) fun o new h => ?_
  obtain ⟨hout, hle, -⟩ := h
  cases o with
  | some e' => exact hout
  | none => exact Nat.le_antisymm hle (List.length_pos_iff.mpr hout)

end Check

open Check

variable {target : Target} {file : String} {json : Option Json} {p : Program} {e : Expr}

/-- Whatever checking a node of a program gives converts to a type without an error and has it then, or is refused with one
error. An array without a size takes the length of a list. -/
theorem check_converts (hp : Program.read target file json = .ok p) (he : e ∈ p.expressions) :
    e.Everywhere fun n => ∀ s s' x, s.target = target → (check n).run s = (.ok (some x), s') →
      ∀ (t : Ty) (context : String), t.Legal → Meets target (convert x t context) (Converts x t) := by
  refine Expr.Everywhere.mono (fun n hn s s' x hs hx t context ht => ?_) (Program.prepared hp he).subtrees
  exact convert_converts ((check_delivers hn).yields s hs _ _ hx |>.1 x rfl) ht context

def pairJson : Json := .object [("list", .array [oneJson, oneJson])]

/-- The list of two ones, before and after it is checked. -/
def pairExpr (node : Node) : Expr := .list node [one, one]

def pairNode : Node := .typed none (.list [Ty.int32.asConst, Ty.int32.asConst])

theorem check_converts_pair : Meets .standard (convert (pairExpr pairNode) int32Array "initialization")
    (Converts (pairExpr pairNode) int32Array) := by
  obtain ⟨scope, hread⟩ : ∃ scope, Program.read .standard "program" (some (programJson [] pairJson)) =
      .ok ⟨scope, [pairExpr {}]⟩ := ⟨_, rfl⟩
  have hpair := (check_converts hread (List.mem_singleton_self _)).here { target := .standard } _ _ rfl rfl
  exact hpair int32Array "initialization" ⟨rfl, trivial⟩

end Spmd
