import Spmd.Proofs.Folded.Operator
import Spmd.Proofs.Retyping.Value

/-!
# Casts, lists and allocations of folded operands

A cast takes a folded operand where it took the operand, as references are bound to storage or to what stays `const`. A list has the
types of its items again.
-/

namespace Spmd

namespace Ty

/-- Binding a reference to `const` asks for nothing but the type. -/
theorem obstacle_to_const {explicit : Bool} {s u t : Ty} (ht : t.isReference = true) (hc : t.isConst = true)
    (hr : s.isReference = false) (h : u.core = s.core) (ho : obstacle explicit s t = none) : obstacle explicit u t = none := by
  cases t with
  | reference r o =>
    have hne : ∀ {z : Ty}, z.isReference = false → ¬ z.same (.reference r o) = true := fun hz hs => by
      rw [isReference_eq (core_eq_of_same hs)] at hz
      cases hz
    have hbinding : bindingObstacle s (.reference r o) = none → bindingObstacle u (.reference r o) = none := by
      intro hb
      have hcore : r.core = u.stored.core := (bindingObstacle_eq_none hb).trans (stored_core_eq h).symm
      have hconst : r.isConst = true := hc
      exact if_pos (Bool.and_eq_true_iff.mpr ⟨(sameIgnoringConst_iff _ _).mpr hcore, Bool.or_eq_true_iff.mpr (.inl hconst)⟩)
    unfold obstacle at ho ⊢
    rw [if_neg (hne hr)] at ho
    rw [if_neg (hne ((isReference_eq h).trans hr)), isVoid_eq h]
    split at ho
    · cases ho
    · rw [if_neg ‹_›]
      cases s with
      | reference => cases hr
      | function => cases ho
      | _ =>
        cases u with
        | reference | function => cases h
        | _ => exact hbinding ho
  | _ => cases ht

theorem obstacle_of_function {s t : Ty} (h : s.isFunction = true) : obstacle true s t = obstacle false s t := by
  cases s with
  | function =>
    unfold obstacle
    rfl
  | _ => cases h

end Ty

namespace Check

open Spmd.Expr

variable {T : Target} {n : Node} (n' : Node)

/-! ## Casts -/

section
variable {e : Expr} {s target : Ty}

theorem checkCast_value (he : e.isFunctionName = false) (hs : e.type? = some s) : checkCast n target e = (do
    let possible ← if becomesNull e s target then pure true else canConvert n.place "type cast" true s target
    return if possible then some (.cast (.typed n.place target) target e false) else none) := by
  unfold checkCast
  cases e with
  | function => cases he
  | _ => simp only [type_ok hs, lift_ok, pure_bind]

theorem checkCast_value_yields (he : e.isFunctionName = false) (hs : e.type? = some s) : Yields T (checkCast n target e) fun r =>
    r = .cast (.typed n.place target) target e false ∧ (becomesNull e s target = true ∨ Ty.obstacle true s target = none) := by
  rw [checkCast_value he hs]
  split
  · exact Yields.some ⟨rfl, .inl ‹_›⟩
  · exact canConvert_yields (fun ho => Yields.some ⟨rfl, .inr ho⟩) Yields.none

theorem checkCast_value_accepts (he : e.isFunctionName = false) (hs : e.type? = some s)
    (h : becomesNull e s target = true ∨ Ty.obstacle true s target = none) : Accepts T (checkCast n target e) fun r =>
      r = .cast (.typed n.place target) target e false := by
  rw [checkCast_value he hs]
  split
  · exact Accepts.some rfl
  · rw [canConvert_true (h.resolve_left ‹_›)]
    exact Accepts.some rfl

theorem checkCast_name (f : FunctionName) : checkCast n target (.function f) = convertFunction f target "type cast" := by
  unfold checkCast
  dsimp only
  rw [convert]

theorem checkCast_name_accepts {f : FunctionName} (hf : Known f) (hs : f.node.type = some s) (hfun : s.isFunction = true)
    (ho : Ty.obstacle false s target = none) (hout : s.same target = true → s.outline = target.outline) :
    Accepts T (checkCast n target (.function f)) (Expr.cast (.typed n'.place target) target e false).Resembles := by
  rw [checkCast_name]
  refine Accepts.mono (convertFunction_accepts hf hs hfun ho) fun r hr => ?_
  obtain ⟨f', hknown, hs', rfl⟩ := hr
  split
  · rename_i hsame
    exact .of_unplaced rfl (u := .function f') hs' (.name hknown hs' hfun) rfl (Ty.relaxed_of_outline (hout hsame)) rfl fun _ => rfl
  · exact .of_nodes rfl rfl rfl rfl rfl rfl rfl

end

theorem checkCast_kept {c d : Expr} {s target : Ty} (h : c.Redrawn d) (hs : d.type? = some s) (m : Node) (b : Bool) :
    Yields T (checkCast n target d) fun r => r.outline = (Expr.cast m target c b).outline → d.outline = c.outline := by
  by_cases hname : d.isFunctionName = true
  · have hlist : c.isList = false := by
      cases c with
      | list =>
        obtain ⟨_, _, _, rfl, -⟩ := h
        cases hname
      | _ => rfl
    cases d with
    | function f =>
      rw [checkCast_name]
      exact Yields.mono (convertFunction_casts hs) fun _ _ _ => (redrawn_iff hlist).mp h
    | _ => cases hname
  · refine Yields.mono (checkCast_value_yields (by simpa using hname) hs) fun r hr hout => ?_
    rw [hr.1] at hout
    simp only [outline, cast.injEq] at hout
    exact hout.2.2.1

section
variable {c d u : Expr} {s target : Ty} (h : Twins c d u) (hs : d.type? = some s)
include h hs

section
variable {m : Node} {b : Bool} (hout : d.outline = c.outline) (ht : (Expr.cast m target c b).TolerantNode)
include hout ht

/-- What is cast is cast again, and what is bound is storage or bound to `const`. -/
theorem Twins.obstacle {s' : Ty} (hs' : u.type? = some s') (hlist : s.isList = true → target.valued = true)
    (ho : Ty.obstacle true s target = none) : Ty.obstacle true s' target = none := by
  obtain ⟨t, ht', hrs, hexact⟩ := h.resembles.typed s hs
  obtain rfl : s' = t := Option.some.inj (hs'.symm.trans ht')
  by_cases hbinds : target.isReference = true ∧ s.isReference = false
  · obtain ⟨htr, hsr⟩ := hbinds
    have hsl : s.isList = false := by
      by_contra hl
      rw [Ty.not_reference_of_valued (hlist (by simpa using hl))] at htr
      cases htr
    rcases ht.1 htr with hstorage | hconst
    · exact Ty.obstacle_of_outline (hexact (denotesStorage_of_outline hout hstorage)) rfl ho
    · exact Ty.obstacle_to_const htr hconst hsr (Ty.core_of_relaxed hrs hsl) ho
  · refine Ty.obstacle_of_relaxed hrs hlist (fun htr => Ty.outline_of_reference hrs ?_) ho
    by_contra hsr
    exact hbinds ⟨htr, by simpa using hsr⟩

theorem Twins.name_cast {f : FunctionName} (hu : u = .function f) (ho : Ty.obstacle true s target = none) :
    Accepts T (checkCast n' target u) (Expr.cast (.typed n.place target) target d false).Resembles := by
  subst hu
  obtain ⟨s', hs', hrs⟩ := h.resembles.type hs
  have hs' : f.node.type = some s' := hs'
  obtain ⟨hknown, hfun⟩ := h.resembles.determined.name_known hs'
  have hsf : s.isFunction = true := by
    cases s' with
    | function => cases s <;> first | rfl | cases hrs
    | _ => cases hfun
  have hsame := Ty.outline_of_function hrs hsf
  obtain ⟨t, htype, htout⟩ := type_of_outline hout.symm hs
  refine checkCast_name_accepts n hknown hs' hfun ?_ fun htarget => ?_
  · exact Ty.obstacle_of_outline hsame rfl ((Ty.obstacle_of_function hsf).symm.trans ho)
  · have hbare := (Ty.same_iff _ _).mp htarget
    have hthere : s'.outline = t.outline := hsame.trans htout.symm
    have hcore : t.core = target.core := (Ty.core_of_bare (Ty.bare_of_outline hthere)).symm.trans (Ty.core_of_bare hbare)
    rw [hthere]
    exact Ty.outline_of_shape ((Ty.bare_of_outline hthere).symm.trans hbare) (ht.2 t htype hcore).1

end

theorem checkCast_follows {m : Node} {b : Bool} (hopen : target.valued = true ∨ c.isOpen = false)
    (ht : (Expr.cast m target c b).TolerantNode) : Yields T (checkCast n target d) fun r =>
      r.outline = (Expr.cast m target c b).outline → Accepts T (checkCast n' target u) r.Resembles := by
  obtain ⟨s', hs', hrs⟩ := h.resembles.type hs
  by_cases hname : d.isFunctionName = true
  · -- a name stands for itself
    obtain rfl : u = d := h.resembles.name_kept hname
    cases u with
    | function f =>
      have hs : f.node.type = some s := hs
      obtain ⟨hknown, hfun⟩ := h.resembles.determined.name_known hs
      rw [checkCast_name]
      refine Yields.mono (convertFunction_casts hs) fun r hr hout => ?_
      obtain ⟨ho, f', rfl⟩ := hr
      cases hsame : s.same target with
      | true =>
        rw [hsame, if_pos rfl] at hout
        cases hout
      | false =>
        rw [if_neg Bool.false_ne_true]
        exact checkCast_name_accepts f'.node hknown hs hfun ho fun hn => by rw [hsame] at hn; cases hn
    | _ => cases hname
  · rw [Bool.not_eq_true] at hname
    refine Yields.mono (checkCast_value_yields hname hs) fun r hr hout => ?_
    obtain ⟨rfl, hcast⟩ := hr
    have hdc : d.outline = c.outline := by
      simp only [outline, cast.injEq] at hout
      exact hout.2.2.1
    have same : ∀ r', r' = Expr.cast (.typed n'.place target) target u false →
        (Expr.cast (.typed n.place target) target d false).Resembles r' := fun r' hr' => by
      subst hr'
      exact .of_nodes rfl rfl rfl rfl rfl rfl rfl
    by_cases hnull : becomesNull d s target = true
    · have hspecial : d.isSpecial = true := by
        rw [becomesNull, Bool.and_eq_true, Bool.and_eq_true] at hnull
        rw [isSpecial, hnull.1.2, Bool.true_or]
      obtain rfl : u = d := h.resembles.kept hspecial
      exact Accepts.mono (checkCast_value_accepts hname hs hcast) same
    · have ho := hcast.resolve_left hnull
      by_cases hfun : u.isFunctionName = true
      · cases u with
        | function f => exact h.name_cast n' hs hdc ht rfl ho
        | _ => cases hfun
      · refine Accepts.mono (checkCast_value_accepts (by simpa using hfun) hs' (.inr (h.obstacle hs hdc ht hs' ?_ ho))) same
        -- a list that is cast to what holds references was filled before
        refine fun hsl => hopen.resolve_right fun hc => ?_
        obtain ⟨t, htype, htout⟩ := type_of_outline hdc.symm hs
        have hclosed := not_list_of_closed hc htype
        rw [← Ty.isList_bare, Ty.bare_of_outline htout, Ty.isList_bare, hsl] at hclosed
        cases hclosed

/-! ## Allocations -/

theorem checkNew_counted {m : Node} {allocated : Ty} {varying : Bool} (hc : c.isOpen = false) :
    Yields T (checkNew n allocated (some d) none varying) fun r =>
      r.outline = (Expr.new m allocated (some c) none varying).outline →
        Accepts T (checkNew n' allocated (some u) none varying) r.Resembles := by
  obtain ⟨s', hs', hrs⟩ := h.resembles.type hs
  unfold checkNew allocationCount
  simp only [type_ok hs, type_ok hs', lift_ok, pure_bind]
  split
  · exact Yields.reject _ _
  · rename_i hinteger
    refine Yields.bind (h.fills hs hc _ _) (fun r hr => Yields.some fun hout => ?_) Yields.none
    have hf : s.Fills _ := hr (by
      simp only [newOf, outline, outlineOf_eq, Option.map_some, new.injEq, Option.some.injEq] at hout
      exact hout.2.2.1)
    have hlist : s.isList = false := hf.not_list (.inl rfl)
    rw [Ty.eq_of_bare Ty.isIntegerScalar_bare (Ty.bare_of_outline (Ty.rvalue_of_relaxed hrs hlist)), if_neg hinteger]
    exact Accepts.bind (h.converts hs hf rfl _) fun r' _ => Accepts.some (.of_nodes rfl rfl rfl rfl rfl rfl rfl)

theorem checkNew_initialized {m : Node} {allocated : Ty} {varying : Bool} (hc : c.isOpen = false) :
    Yields T (checkNew n allocated none (some d) varying) fun r =>
      r.outline = (Expr.new m allocated none (some c) varying).outline →
        Accepts T (checkNew n' allocated none (some u) varying) r.Resembles := by
  unfold checkNew
  refine Yields.bind (h.fills hs hc _ _) (fun r hr => Yields.some fun hout => ?_) Yields.none
  have hf : s.Fills allocated := hr (by
    simp only [newOf, outline, outlineOf_eq, Option.map_some, new.injEq, Option.some.injEq] at hout
    exact hout.2.2.2.1)
  exact Accepts.bind (h.converts hs hf rfl _) fun r' _ => Accepts.some (.of_nodes rfl rfl rfl rfl rfl rfl rfl)

end

/-! ## Lists -/

/-- The twins of the nodes of a list. -/
inductive AllTwins : List Expr → List Expr → List Expr → Prop
  | nil : AllTwins [] [] []
  | cons {c d u : Expr} {cs ds us : List Expr} (first : Twins c d u) (rest : AllTwins cs ds us) :
      AllTwins (c :: cs) (d :: ds) (u :: us)

section
variable {cs ds us : List Expr} (h : AllTwins cs ds us)
include h

theorem AllTwins.types {ts : List Ty} (hts : ds.map type? = ts.map some) :
    ∃ ts', us.map type? = ts'.map some ∧ Ty.relaxedAll ts' = Ty.relaxedAll ts := by
  induction h generalizing ts with
  | nil =>
    cases ts with
    | nil => exact ⟨[], rfl, rfl⟩
    | cons => cases hts
  | cons first _ ih =>
    cases ts with
    | nil => cases hts
    | cons t ts =>
      obtain ⟨ht, hts⟩ := List.cons.inj hts
      obtain ⟨t', ht', hrelaxed⟩ := first.resembles.type ht
      obtain ⟨ts', hts', hall⟩ := ih hts
      exact ⟨t' :: ts', by rw [List.map_cons, List.map_cons, ht', hts'], by rw [Ty.relaxedAll, Ty.relaxedAll, hrelaxed, hall]⟩

theorem AllTwins.typed : ∃ ts : List Ty, ds.map type? = ts.map some := by
  induction h with
  | nil => exact ⟨[], rfl⟩
  | cons first _ ih =>
    obtain ⟨t, ht⟩ := first.typed
    obtain ⟨ts, hts⟩ := ih
    exact ⟨t :: ts, by rw [List.map_cons, List.map_cons, ht, hts]⟩

theorem AllTwins.determined : ∀ u ∈ us, u.Determined := by
  induction h with
  | nil => exact fun _ hu => (by cases hu)
  | cons first _ ih =>
    intro u hu
    rcases List.mem_cons.mp hu with rfl | hu
    · exact first.resembles.determined
    · exact ih u hu

theorem checkList_follows : Yields T (checkList n ds) fun r => Accepts T (checkList n' us) r.Resembles := by
  unfold checkList
  refine Gives.lift fun ts hts => Yields.some ?_
  obtain ⟨ts', hts', hall⟩ := h.types (types_of_typesOf hts)
  refine Accepts.read (typesOf_of_types hts') (Accepts.some ?_)
  refine .of_unplaced rfl rfl (.list rfl hts' h.determined) rfl (congrArg Ty.list hall) rfl fun _ => rfl

end

end Check

end Spmd
