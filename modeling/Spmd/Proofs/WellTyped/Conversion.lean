import Spmd.Proofs.Except
import Spmd.Proofs.Expr.WellTyped
import Spmd.Proofs.Typing.Converting

/-!
# Conversion builds well-typed nodes

Whatever a conversion writes around an operand follows the rules of typing (`Check.convert_wellTyped`).
-/

namespace Spmd

namespace Expr

variable {e : Expr} {t : Ty}

theorem isStorage_of_address {a : Ty} (ha : e.addressType = .ok (some a)) : e.isStorage = .ok true := by
  rw [isStorage, ha]
  rfl

theorem isStorage_of_assignable (h : e.isAssignable = .ok true) : e.isStorage = .ok true := by
  obtain ⟨a, ha, hsome⟩ := map_eq_ok h
  obtain ⟨t, rfl⟩ := Option.isSome_iff_exists.mp hsome
  exact isStorage_of_address ha

end Expr

namespace Check

open Spmd.Expr

variable {T : Target} {α : Type} {P : α → Prop}

/-! ## Values -/

section
variable {e : Expr} (hw : Everywhere WellTyped e) {source target : Ty} (hs : e.type? = some source)
include hw hs

theorem cast_wellTyped {node : Node} {explicit : Bool} (hl : source.Legal)
    (ho : Ty.obstacle explicit source target = none) (reported : Bool) :
    Everywhere WellTyped (.cast node target e reported) := by
  refine .one ⟨source, hs, fun hr => ?_, fun hv => ?_⟩ rfl hw
  · exact Ty.obstacle_to_reference hr ho
  · exact Ty.obstacle_varying hl ho hv

theorem ReadAs.wellTyped {c : Expr} (h : ReadAs e source target c) (hl : source.Legal) : Everywhere WellTyped c := by
  cases h with
  | kept => exact hw
  | cast possible => exact cast_wellTyped hw hs hl possible false

theorem BindsTo.wellTyped {c : Expr} (h : BindsTo e source target c) : Everywhere WellTyped c := by
  cases h with
  | kept => exact hw
  | bound isValue assignable => exact .one ⟨source, hs, isValue, rfl, isStorage_of_assignable assignable⟩ rfl hw

theorem convertValue_wellTyped (hl : source.Legal) (context : String) :
    Yields T (convertValue e target context) (Everywhere WellTyped) := by
  refine Yields.mono (convertValue_yields hs) fun c hc => ?_
  cases hc with
  | same => exact hw
  | null hnull =>
    simp only [becomesNull, Bool.and_eq_true] at hnull
    exact .leaf ⟨target, rfl, hnull.1.1⟩ rfl
  | binds _ bound => exact bound.wellTyped hw hs
  | dereferences source_eq =>
    subst source_eq
    exact .one ⟨_, _, hs, rfl, rfl⟩ rfl hw
  | @readsThrough referent _ _ source_eq _ read =>
    subst source_eq
    have hread : Everywhere WellTyped (.dereference (.typed e.place referent) e) := .one ⟨_, _, hs, rfl, rfl⟩ rfl hw
    exact read.wellTyped hread rfl hl.2
  | reads _ _ _ read => exact read.wellTyped hw hs hl

end

/-! ## Function names -/

theorem function_wellTyped {f : FunctionName} (h : f.node.type = f.function?.map Symbol.type) :
    Everywhere WellTyped (.function f) := .leaf h rfl

theorem convertFunction_wellTyped {f : FunctionName} (hf : Known f) (target : Ty) (context : String) :
    Yields T (convertFunction f target context) (Everywhere WellTyped) := by
  have hname : ∀ {f' : FunctionName}, (f' = f ∨ ∃ s, Settled f' s ∧ s.type.same target = false) →
      Everywhere WellTyped (.function f') := by
    rintro f' (rfl | ⟨s, hset, -⟩)
    · exact function_wellTyped hf.type_eq
    · exact function_wellTyped hset.type_function
  refine Yields.mono (convertFunction_yields (pickOverload_delivers hf target).yields) fun c hc => ?_
  cases hc with
  | kept picked => exact hname picked
  | @cast _ source picked _ htype possible =>
    have hl : source.Legal := by
      rcases picked with rfl | ⟨s, hset, -⟩
      · exact (hf.checked (T := T) htype).legal htype
      · exact (hset.checked (T := T)).legal htype
    exact cast_wellTyped (hname picked) htype hl possible false

/-! ## Lists -/

theorem fillTargets_elementAt {length : Nat} {target : Ty} {targets : List (Option Ty)} {ts : List Ty} {t : Ty}
    (hf : fillTargets? length target = some targets) (hl : Ty.listTargets length target = .ok ts)
    (ht : filledType length target = .ok t) {i : Nat} (hi : i < length) : targets[i]? = some (t.elementAt? i) := by
  have hrange : ∀ u : Ty, ((List.range length).map u.elementAt?)[i]? = some (u.elementAt? i) := by
    intro u
    simp [hi]
  cases target with
  | array e n o =>
    cases hf
    have hcount : t.elementAt? i = some e := by
      cases n with
      | none =>
        simp only [filledType, Ty.arrayOf] at ht
        split at ht <;> cases ht
        simp [Ty.elementAt?, hi]
      | some n =>
        cases ht
        simp only [Ty.listTargets] at hl
        split at hl <;> cases hl
        rename_i hn
        simp only [Option.all_some, beq_iff_eq] at hn
        simp [Ty.elementAt?, hn, hi]
    simp [hcount, hi]
  | vector s n o => cases hf; cases ht; exact hrange _
  | struct s ms q o => cases hf; cases ht; exact hrange _
  | _ => cases hf

/-- A converted element fits the element it fills. -/
def Filled (e : Expr) (target : Option Ty) : Prop := ∃ t, target = some t ∧ e.Fits t

theorem convertItems_wellTyped {context : String} {items : List Expr}
    (h : ∀ e ∈ items, ∀ t : Ty, t.Legal → Yields T (convert e t context) fun e' => Everywhere WellTyped e' ∧ e'.Fits t) :
    ∀ {targets : List (Option Ty)}, (∀ x ∈ targets, ∃ t, x = some t ∧ t.Legal) →
      Yields T (convertItems items targets context) fun es =>
        (∀ e ∈ es, Everywhere WellTyped e) ∧ ∀ (i : Nat) e, es[i]? = some e → ∃ x, targets[i]? = some x ∧ Filled e x := by
  induction items with
  | nil =>
    intro targets _
    rw [convertItems]
    · exact Yields.some ⟨fun c hc => absurd hc List.not_mem_nil, fun i c hc => by simp at hc⟩
  | cons e es ih =>
    intro targets htargets
    cases targets with
    | nil => exact Yields.none
    | cons x xs =>
      obtain ⟨t, rfl, ht⟩ := htargets x List.mem_cons_self
      have hrest := ih (fun c hc => h c (List.mem_cons_of_mem _ hc)) fun y hy => htargets y (List.mem_cons_of_mem _ hy)
      rw [convertItems]
      refine Yields.bind (h e List.mem_cons_self t ht) (fun e' he' => ?_) Yields.none
      refine Yields.bind hrest (fun es' hes' => Yields.some ⟨fun c hc => ?_, fun i c hc => ?_⟩) Yields.none
      · rcases List.mem_cons.mp hc with rfl | hc
        · exact he'.1
        · exact hes'.1 c hc
      · cases i with
        | zero => cases hc; exact ⟨_, rfl, t, rfl, he'.2⟩
        | succ i => exact hes'.2 i c hc

/-! ## Conversion -/

/-- Converting an operand to a legal type gives a well-typed tree. -/
theorem convert_wellTyped {e : Expr} (he : Operand T e) (hw : Everywhere WellTyped e) (context : String) {target : Ty}
    (ht : target.Legal) : Yields T (convert e target context) (Everywhere WellTyped) := by
  induction he generalizing target with
  | name known =>
    rw [convert]
    exact convertFunction_wellTyped known target context
  | @list node items ts type_eq types below ih =>
    have hlist : (Expr.list node items).type? = some (.list ts) := type_eq
    have hlegal := (Operand.list type_eq types below : Operand T _).legal hlist
    have hvalue : Yields T (convertValue (.list node items) target context) (Everywhere WellTyped) :=
      convertValue_wellTyped hw hlist hlegal context
    rw [convert]
    simp only [type_ok hlist, lift_ok, pure_bind]
    split
    · exact hvalue
    · rename_i targets htargets
      split
      · exact hvalue
      · rename_i hsame
        refine ifConverts_yields fun ho => ?_
        obtain ⟨us, hus, -, -⟩ := fillTargets_listed htargets types ho (Bool.or_eq_false_iff.mp (Bool.not_eq_true _ ▸ hsame)).1
        obtain ⟨hn, hall⟩ := fillTargets_ok htargets hus ht
        -- each item is converted to the type of its position, and fits it afterwards
        have hitem : ∀ e ∈ items, ∀ t : Ty, t.Legal → Yields T (convert e t context) fun e' =>
            Everywhere WellTyped e' ∧ e'.Fits t := by
          intro c hc t hl
          have hfits := (convert_delivers (below c hc) context hl).yields
          exact Yields.mono (Yields.and (ih c hc (hw.child hc) hl) hfits) fun _ h => ⟨h.1, h.2.2⟩
        have hcount : Yields T (convertItems items targets context) fun es => es.length = items.length :=
          Yields.mono (convertItems_delivers (fun c hc t hl => convert_delivers (below c hc) context hl) hn hall).yields
            fun _ h => h.1
        refine Yields.bind (Yields.and hcount (convertItems_wellTyped hitem hall)) (fun es hes => ?_) Yields.none
        obtain ⟨hes, hwell, hfill⟩ := hes
        refine Gives.lift fun t hfilled => Yields.some (.node ⟨t, rfl, fun i c hc => ?_⟩ hwell)
        rw [hes] at hfilled
        obtain ⟨x, hx, u, rfl, hfits⟩ := hfill i c hc
        have hi : i < items.length := hes ▸ (List.getElem?_eq_some_iff.mp hc).1
        rw [fillTargets_elementAt htargets hus hfilled hi] at hx
        exact ⟨u, Option.some.inj hx, hfits⟩
  | @checked e checked closed =>
    obtain ⟨source, hs, hl⟩ := checked.typed
    rw [convert]
    · exact convertValue_wellTyped hw hs hl context
    · rintro f rfl; cases closed
    · rintro n es rfl; cases closed

end Check

end Spmd
