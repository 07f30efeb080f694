import Spmd.Proofs.Retyping.Again

/-!
# Converting again

What was brought to a type is left as it is by another conversion to this type (`Check.Converted.again`), and what a
conversion writes around an operand is fixed when the operand is. A list that was filled is not: checking it again
gives a list that waits for a type, and filling the same type gives the filled list again (`Check.Reaches`).
-/

namespace Spmd

namespace Check

open Spmd.Expr

variable {T : Target}

/-! ## Converted expressions -/

/-- An expression that a conversion brought to a type, from which another conversion has nothing left to do. -/
structure Converted (T : Target) (target source : Ty) (e : Expr) : Prop where
  checked : Checked T e
  lasts : Lasts T e
  type_eq : e.type? = some source
  core_eq : source.core = target.core
  possible : Ty.obstacle false source target = none
  null : e.isNull = true → target.isPointer = true → source.same target = true
  list : ∀ n items, e = .list n items → source.isList = true
  function : ∀ f, e = .function f → source.same target = true ∧ pointedParameters? target = none

section
variable {target source target' source' : Ty} {e e' : Expr} {context : String}

theorem same_of_bare (hs : source'.bare = source.bare) (ht : target'.bare = target.bare) :
    source'.same target' = source.same target := by
  rw [Bool.eq_iff_iff, Ty.same_iff, Ty.same_iff, hs, ht]

theorem pointedParameters_bare (h : target'.bare = target.bare) (hn : pointedParameters? target = none) :
    pointedParameters? target' = none := by
  have hbare : ∀ t : Ty, (pointedParameters? t.bare).isNone = (pointedParameters? t).isNone := by
    intro t
    cases t with
    | pointer p q o => cases p <;> rfl
    | _ => rfl
  rw [← Option.isNone_iff_eq_none, ← hbare, h, hbare, hn, Option.isNone_none]

theorem fillTargets_of_list {n : Nat} (h : source.core = target.core) (hl : source.isList = true) :
    fillTargets? n target = none := by
  cases source with
  | list =>
    cases target with
    | list => rfl
    | _ => cases h
  | _ => cases hl

section
variable (h : Converted T target source e) (he : e'.outline = e.outline) (hs : e'.type? = some source')
  (hout : source'.outline = source.outline) (ht : target'.bare = target.bare)
include h

theorem Converted.fixed (hr : Everywhere Repeats e) : Again T (needed (check e)) e := (h.lasts hr).needed h.checked

section
include ht hout

theorem Converted.core_of_bare : source'.core = target'.core := by
  rw [Ty.core_of_bare ht, ← h.core_eq, Ty.core_of_bare (Ty.bare_of_outline hout)]

theorem Converted.possible_of_bare : Ty.obstacle false source' target' = none := by
  have hbare := Ty.bare_of_outline hout
  have hcore := h.core_of_bare hout ht
  by_cases hr : source'.isReference = true
  · exact Ty.obstacle_of_bare (.inr (Ty.isReference_eq h.core_eq ▸ Ty.eq_of_bare Ty.isReference_bare hbare ▸ hr)) hbare ht
      h.possible
  · rw [Bool.not_eq_true] at hr
    by_cases hl : source'.isList = true
    · refine Ty.obstacle_of_same ((Ty.same_iff _ _).mpr ?_)
      cases source' with
      | list es =>
        cases target' with
        | list => exact hcore
        | _ => cases hcore
      | _ => cases hl
    · rw [Bool.not_eq_true] at hl
      exact Ty.obstacle_of_bare (.inl ⟨Ty.eq_of_bare Ty.isList_bare hbare ▸ hl, Ty.eq_of_bare Ty.isReference_bare hbare ▸ hr⟩)
        hbare ht h.possible

end

include he hs hout ht

theorem Converted.value_again : Again T (convertValue e' target' context) e := by
  have hbare := Ty.bare_of_outline hout
  have hcore := h.core_of_bare hout ht
  have hpossible := h.possible_of_bare hout ht
  unfold convertValue
  refine Quiet.read (type_ok hs) ?_
  split
  · exact Again.some he
  · rename_i hsame
    split
    · rename_i hnull
      simp only [becomesNull, Bool.and_eq_true, Bool.or_eq_true] at hnull
      obtain ⟨⟨hp, hnull | hzero⟩, -⟩ := hnull
      · have hsame' := h.null (by rwa [← isNull_outline, ← he, isNull_outline]) (Ty.eq_of_bare Ty.isPointer_bare ht ▸ hp)
        rw [same_of_bare hbare ht] at hsame
        exact absurd hsame' hsame
      -- a zero is an integer, which would not have the core of a pointer type
      · cases e' with
        | const n v =>
          have hinteger : source'.isInteger = true := by
            have hn : n.type = some source' := hs
            rw [isZeroConstant, hn] at hzero
            exact (Bool.and_eq_true_iff.mp hzero).1
          rw [← Ty.isPointer_eq hcore] at hp
          cases source' with
          | pointer => cases hinteger
          | _ => cases hp
        | _ => cases hzero
    · split
      · rename_i hr
        unfold bindReference
        refine Quiet.read (type_ok hs) ?_
        rw [if_pos ((Ty.isReference_eq hcore).trans hr)]
        exact Quiet.converts hpossible (Again.some he)
      · rename_i hr
        have hread : Again T (convertRead e' source' target' context) e := by
          unfold convertRead
          refine Quiet.converts hpossible ?_
          rw [if_pos rfl, if_pos ((Ty.sameIgnoringConst_iff _ _).mpr hcore)]
          exact Again.some he
        cases source' with
        | reference => exact absurd ((Ty.isReference_eq hcore).symm.trans rfl) hr
        | _ => exact hread

omit hs hout

theorem Converted.again : Again T (convert e' target' context) e := by
  obtain ⟨source', hs, hout⟩ := type_of_outline he h.type_eq
  have hvalue : Again T (convertValue e' target' context) e := h.value_again he hs hout ht
  have hcore := h.core_of_bare hout ht
  cases e' with
  | function f' =>
    obtain ⟨f, rfl, hresolved, -⟩ := function_of_outline he.symm rfl
    obtain ⟨hsame, hp⟩ := h.function f rfl
    have hres : f'.isResolved = true := hresolved.symm.trans h.checked.here.grounded
    have hsame' : source'.same target' = true := by rwa [same_of_bare (Ty.bare_of_outline hout) ht]
    rw [convert]
    unfold convertFunction pickOverload
    rw [pointedParameters_bare ht hp]
    simp only [pure_bind, hres, Bool.not_true, Bool.false_eq_true, if_false]
    refine Quiet.read (type_ok hs) (Quiet.converts (Ty.obstacle_of_same hsame') ?_)
    simp only [if_true, hsame']
    exact Again.some he
  | list n' items' =>
    obtain ⟨n, items, rfl, -⟩ := list_of_outline he.symm rfl
    have hlist : source'.isList = true :=
      Ty.eq_of_bare Ty.isList_bare (Ty.bare_of_outline hout) ▸ h.list _ _ rfl
    rw [convert]
    refine Quiet.read (type_ok hs) ?_
    rw [fillTargets_of_list hcore hlist]
    exact hvalue
  | _ =>
    rw [convert_closed rfl]
    exact hvalue

end

end

/-! ## What conversions write -/

section
variable {e : Expr} {source target : Ty} (he : Checked T e) (hs : e.type? = some source) (hlast : Lasts T e)

theorem null_lasts (node : Node) : Lasts T (.null node) := by
  intro _
  rw [Fixed, check]
  exact Again.some rfl

section
include he hs hlast

theorem reference_lasts (place : Option Location) (hr : source.isReference = false) (ha : e.isAssignable = .ok true) :
    Lasts T (.reference (.typed place (.reference source)) e) := by
  intro hrep
  rw [Fixed, check]
  refine Again.bind ((hlast (hrep.child (by simp [children]))).needed he) fun e' he' => ?_
  show Again T (checkReference _ e') _
  unfold checkReference
  refine Quiet.type he' hs fun source' hs' hout => ?_
  have hr' : source'.isReference = false := Ty.eq_of_bare Ty.isReference_bare (Ty.bare_of_outline hout) ▸ hr
  rw [if_neg (by rw [hr']; exact Bool.false_ne_true)]
  refine Quiet.mirrors (isAssignable_mirrors he') ha fun b hb => ?_
  cases hb
  rw [if_pos rfl]
  refine Quiet.read (b := .reference source') (by rw [Ty.referenceTo, hr', if_neg Bool.false_ne_true]) (Again.some ?_)
  simp only [outline, he', Node.outline, Node.typed, Option.map_some, Ty.outline, hout]

theorem dereference_lasts {u : Ty} {o : Origin} (hu : source = .reference u o) (place : Option Location) :
    Lasts T (.dereference (.typed place u) e) := by
  subst hu
  intro hrep
  rw [Fixed, check]
  refine Again.bind ((hlast (hrep.child (by simp [children]))).needed he) fun e' he' => ?_
  show Again T (checkDereference _ e') _
  unfold checkDereference
  refine Quiet.type he' hs fun source' hs' hout => ?_
  cases source' with
  | reference u' o' =>
    simp only [Ty.outline, Ty.reference.injEq, and_true] at hout
    refine Again.some ?_
    simp only [outline, he', Node.outline, Node.typed, Option.map_some, hout]
  | _ => cases hout

end

theorem becomesNull_outline {e e' : Expr} {source source' target : Ty} (he : e'.outline = e.outline)
    (hout : source'.outline = source.outline) : becomesNull e' source' target = becomesNull e source target := by
  have hn : e'.isNull = e.isNull := by rw [← isNull_outline, he, isNull_outline]
  have hz : e'.isZeroConstant = e.isZeroConstant := by rw [← isZeroConstant_outline, he, isZeroConstant_outline]
  rw [becomesNull, becomesNull, hn, hz, isVarying_of_outline hout]

include hs hlast in
theorem cast_lasts (node : Node) (hn : e.isFunctionName = false)
    (ho : becomesNull e source target = true ∨ Ty.obstacle true source target = none) :
    Lasts T (.cast (.typed node.place target) target e false) := by
  intro hrep
  rw [Fixed, check]
  refine Again.bind (hlast (hrep.child (by simp [children]))) fun e' he' => ?_
  show Again T (checkCast _ target e') _
  have hcast : ∀ place, (Expr.cast (.typed place target) target e' false).outline =
      (Expr.cast (.typed node.place target) target e false).outline := by
    intro place
    simp only [outline, he', Node.outline, Node.typed]
  unfold checkCast
  split
  · obtain ⟨f, rfl, -⟩ := function_of_outline he'.symm rfl
    cases hn
  · refine Quiet.type he' hs fun source' hs' hout => ?_
    rw [becomesNull_outline he' hout]
    by_cases hnull : becomesNull e source target = true
    · rw [if_pos hnull]
      exact Again.some (hcast _)
    · rw [if_neg hnull]
      exact Quiet.converts (Ty.obstacle_of_outline hout rfl (ho.resolve_left hnull)) (Again.some (hcast _))

end

/-! ## Values -/

section
variable {e : Expr} {source target : Ty} (he : Checked T e) (hs : e.type? = some source) (hlast : Lasts T e)
  (hn : e.isFunctionName = false) (hlist : ∀ n items, e = .list n items → source.isList = true) (context : String)
include he hs hlast hn hlist

theorem unchanged_converted (hcore : source.core = target.core) (hp : Ty.obstacle false source target = none)
    (hnull : e.isNull = true → target.isPointer = true → source.same target = true) : Converted T target source e where
  checked := he
  lasts := hlast
  type_eq := hs
  core_eq := hcore
  possible := hp
  null := hnull
  list := hlist
  function := by
    rintro f rfl
    cases hn

omit hs hlast hn hlist he in
theorem new_converted {c : Expr} (hc : Checked T c) (hl : Lasts T c) (hs : c.type? = some target)
    (hn : c.awaitsTarget = false) : Converted T target target c where
  checked := hc
  lasts := hl
  type_eq := hs
  core_eq := rfl
  possible := Ty.obstacle_of_same ((Ty.same_iff _ _).mpr rfl)
  null := fun _ _ => (Ty.same_iff _ _).mpr rfl
  list := by
    rintro n items rfl
    cases hn
  function := by
    rintro f rfl
    cases hn

theorem BindsTo.converted {c : Expr} (h : BindsTo e source target c) (hr : target.isReference = true) :
    ∃ s, Converted T target s c := by
  cases h with
  | kept hsr ho =>
    have hcore := core_of_references hsr hr (Ty.obstacle_to_reference hr ho)
    refine ⟨source, unchanged_converted he hs hlast hn hlist hcore ho fun _ hp => ?_⟩
    rw [Ty.isReference_of_pointer hp] at hr
    cases hr
  | bound hsr hass ho =>
    have hlegal : (Ty.reference source).Legal := ⟨hsr, he.legal hs⟩
    have hcore : (Ty.reference source).core = target.core := core_of_references rfl hr
      (Ty.obstacle_to_reference hr ho ▸ congrArg Ty.core (Ty.stored_of_not_reference hsr).symm)
    have hreference : Checked T (.reference (.typed e.place (.reference source)) e) :=
      Checked.one ⟨⟨_, rfl, hlegal⟩, trivial, trivial⟩ rfl he
    exact ⟨_, unchanged_converted hreference rfl (reference_lasts he hs hlast e.place hsr hass) rfl
      (fun _ _ h => by cases h) hcore (Ty.obstacle_reference hsr hr ho) fun h => by cases h⟩

theorem ReadAs.converted {c : Expr} (h : ReadAs e source target c) (ht : target.Legal)
    (hnull : becomesNull e source target = false) : ∃ s, Converted T target s c := by
  cases h with
  | kept ho hsame =>
    have hcore := (Ty.sameIgnoringConst_iff _ _).mp hsame
    refine ⟨source, unchanged_converted he hs hlast hn hlist hcore ho fun hen hp => ?_⟩
    have huniform : target.isUniform = !source.isVarying := by
      rw [Ty.isUniform, Ty.isVarying, Ty.variability_eq hcore]
      cases target.variability <;> rfl
    rw [becomesNull, hp, hen, huniform, Bool.and_not_self, Bool.not_false] at hnull
    cases hnull
  | cast ho =>
    exact ⟨target, new_converted (cast_checked he hs ht e.place _ false fun _ => ho)
      (cast_lasts hs hlast e.node hn (.inr (Ty.obstacle_explicit _ _ ho))) rfl rfl⟩

theorem convertValue_converted (ht : target.Legal) :
    Yields T (convertValue e target context) fun c => ∃ s, Converted T target s c := by
  refine Yields.mono (convertValue_yields hs) fun c hc => ?_
  cases hc with
  | same hsame =>
    exact ⟨source, unchanged_converted he hs hlast hn hlist (Ty.core_eq_of_same hsame) (Ty.obstacle_of_same hsame) fun _ _ => hsame⟩
  | null => exact ⟨target, new_converted (null_checked e.place ht) (null_lasts _) rfl rfl⟩
  | binds hr bound => exact bound.converted he hs hlast hn hlist hr
  | dereferences source_eq _ hrs =>
    subst source_eq
    exact ⟨_, unchanged_converted (read_checked he hs) rfl (dereference_lasts he hs hlast rfl e.place) rfl
      (fun _ _ h => by cases h) (Ty.core_eq_of_same hrs) (Ty.obstacle_of_same hrs) fun h => by cases h⟩
  | readsThrough source_eq _ read =>
    subst source_eq
    refine read.converted (read_checked he hs) rfl (dereference_lasts he hs hlast rfl e.place) rfl
      (fun _ _ h => by cases h) ht ?_
    rw [becomesNull]
    exact (congrArg (· && _) (Bool.and_false _)).trans rfl
  | reads _ _ hnull read => exact read.converted he hs hlast hn hlist ht hnull

end

/-! ## Function names -/

section
variable {f : FunctionName} {target : Ty}

theorem pickOverload_again (h : pointedParameters? target = none ∨ f.choice.chosen.isSome = true) :
    Quiet T (pickOverload f target) (· = some f) := by
  unfold pickOverload
  split
  · exact Quiet.pure rfl
  · rename_i ps hps
    have hchosen : f.choice.chosen.isSome = true := h.resolve_left fun hn => by rw [hn] at hps; cases hps
    unfold FunctionName.resolve
    simp only [hchosen, Bool.true_or, if_true, pure_bind]
    exact Quiet.pure rfl

/-- The name that stands for a name in a conversion: the name itself, or the name with the function that was picked. -/
def Picked (f : FunctionName) (target : Ty) (f' : FunctionName) : Prop :=
  pointedParameters? target = none ∧ f' = f ∨ ∃ s, Settled f' s ∧ s.type.same target = false

theorem pickOverload_picks (hf : Fresh f) : Yields T (pickOverload f target) (Picked f target) := by
  cases hp : pointedParameters? target with
  | none =>
    unfold pickOverload
    rw [hp]
    exact Yields.some (.inl ⟨hp, rfl⟩)
  | some ps =>
    have hpointer : target.isPointer = true := by
      unfold pointedParameters? at hp
      split at hp
      · rfl
      · cases hp
    unfold pickOverload
    rw [hp]
    refine Gives.bind (Meets.gives (resolve_meets hf.toKnown _)) fun r hr => ?_
    obtain ⟨found, f'⟩ := r
    obtain ⟨new, hr⟩ := hr
    cases found with
    | none => exact Yields.none
    | some s =>
      obtain ⟨-, hset, sig, hsig, -⟩ := hr
      exact Yields.some (.inr ⟨s, hset, signature_not_pointer hsig hpointer⟩)

section
variable {f' : FunctionName} {source : Ty} (h : Picked f target f')
include h

theorem Picked.answered : pointedParameters? target = none ∨ f'.choice.chosen.isSome = true := by
  rcases h with ⟨hp, rfl⟩ | ⟨s, hset, -⟩
  · exact .inl hp
  · exact .inr (by rw [hset.chosen_eq]; rfl)

theorem Picked.checked (hf : Fresh f) (hs : f'.node.type = some source) : Checked T (.function f') := by
  rcases h with ⟨-, rfl⟩ | ⟨s, hset, -⟩
  · exact hf.checked hs
  · exact hset.checked

/-- A function that is picked has not had the type of the pointer before. -/
theorem Picked.unpicked (hs : f'.node.type = some source) (hsame : source.same target = true) :
    pointedParameters? target = none ∧ f' = f := by
  refine h.resolve_right fun h => ?_
  obtain ⟨s, hset, hne⟩ := h
  rw [show s.type = source from Option.some.inj (hset.type_eq.symm.trans hs), hsame] at hne
  cases hne

end

theorem function_cast_lasts {source : Ty} (hc : Checked T (.function f)) (hs : f.node.type = some source)
    (hp : pointedParameters? target = none ∨ f.choice.chosen.isSome = true) (ho : Ty.obstacle false source target = none)
    (hne : source.same target = false) (place : Option Location) :
    Lasts T (.cast (.typed place target) target (.function f) false) := by
  intro hrep
  rw [Fixed, check]
  refine Again.bind (function_fixed hs) fun e' he' => ?_
  show Again T (checkCast _ target e') _
  obtain ⟨f', rfl, hresolved, hchoice⟩ := function_of_outline he' rfl
  have hres : f'.isResolved = true := hresolved.trans hc.here.grounded
  unfold checkCast
  dsimp only
  rw [convert]
  refine Quiet.then (pickOverload_again (hchoice ▸ hp)) ?_
  dsimp only
  rw [hres, if_neg (by exact Bool.false_ne_true)]
  refine Quiet.type he' hs fun source' hs' hout => Quiet.converts (Ty.obstacle_of_outline hout rfl ho) ?_
  simp only [same_of_bare (Ty.bare_of_outline hout) rfl, hne, if_true, Bool.false_eq_true, if_false]
  refine Again.some ?_
  simp only [outline, Node.outline, Node.typed] at he' ⊢
  rw [he']

theorem convertFunction_converted (hf : Fresh f) (ht : target.Legal) (context : String) :
    Yields T (convertFunction f target context) fun c => (∃ s, Converted T target s c) ∧ Durable T c := by
  refine Yields.mono (convertFunction_yields (pickOverload_picks hf)) fun c hc => ?_
  cases hc with
  | @kept _ source picked _ htype ho hsame =>
    obtain ⟨hp, rfl⟩ := picked.unpicked htype hsame
    refine ⟨⟨source, ?_⟩, .name hf⟩
    exact {
      checked := hf.checked htype
      lasts := fun _ => function_fixed htype
      type_eq := htype
      core_eq := Ty.core_eq_of_same hsame
      possible := ho
      null := fun h => by cases h
      list := fun _ _ h => by cases h
      function := fun _ _ => ⟨hsame, hp⟩ }
  | @cast f' _ picked _ htype ho hdiffers =>
    have hchecked : Checked T (.function f') := picked.checked hf htype
    have hcast := cast_checked hchecked htype ht f'.node.place false false fun _ => ho
    have hlasts := function_cast_lasts hchecked htype picked.answered ho hdiffers f'.node.place
    exact ⟨⟨target, new_converted hcast hlasts rfl rfl⟩, .closed hcast rfl hlasts⟩

end

/-! ## Operands -/

theorem convert_converted {e : Expr} (h : Durable T e) {target : Ty} (ht : target.Legal)
    (hfill : ∀ n items, e = .list n items → fillTargets? items.length target = none) (context : String) :
    Yields T (convert e target context) fun c => ∃ s, Converted T target s c := by
  have hoperand := h.operand
  cases h with
  | name fresh =>
    rw [convert]
    exact Yields.mono (convertFunction_converted fresh ht context) fun _ h => h.1
  | @list node items ts type_eq types below =>
    have hlasts := (Durable.list type_eq types below).lasts (t := .list ts) type_eq
    rw [convert, hfill node items rfl]
    refine Gives.lift fun _ _ => ?_
    refine convertValue_converted (hoperand.toChecked type_eq) type_eq hlasts rfl ?_ context ht
    exact fun _ _ _ => rfl
  | closed checked closed lasts =>
    obtain ⟨source, hs, -⟩ := checked.typed
    rw [convert_closed closed]
    refine convertValue_converted checked hs lasts ?_ ?_ context ht
    · cases e with
      | function => cases closed
      | _ => rfl
    · rintro n items rfl
      cases closed

/-! ## Types of converted operands -/

/-- The type that was asked for, or the one that was there, up to `const` and references. -/
def Retains (source target : Ty) (e : Expr) : Prop := ∃ s, e.type? = some s ∧ (s = target ∨ s.rvalue = source.rvalue)

section
variable {e : Expr} {source target : Ty} (hs : e.type? = some source) (context : String)
include hs

theorem ReadAs.retains {c : Expr} (h : ReadAs e source target c) : Retains source target c := by
  cases h with
  | kept => exact ⟨source, hs, .inr rfl⟩
  | cast => exact ⟨target, rfl, .inl rfl⟩

theorem convertValue_retains (hl : source.Legal) : Yields T (convertValue e target context) (Retains source target) := by
  refine Yields.mono (convertValue_yields hs) fun c hc => ?_
  have rvalue_eq : ∀ {referent : Ty} {o : Origin}, source = .reference referent o → referent.rvalue = source.rvalue := by
    rintro referent o rfl
    cases referent with
    | reference => exact absurd hl.1 Bool.noConfusion
    | _ => rfl
  cases hc with
  | same => exact ⟨source, hs, .inr rfl⟩
  | null => exact ⟨target, rfl, .inl rfl⟩
  | binds _ bound =>
    cases bound with
    | kept => exact ⟨source, hs, .inr rfl⟩
    | bound isValue =>
      refine ⟨_, rfl, .inr ?_⟩
      cases source with
      | reference => cases isValue
      | _ => rfl
  | dereferences source_eq => exact ⟨_, rfl, .inr (rvalue_eq source_eq)⟩
  | readsThrough source_eq _ read =>
    obtain ⟨s, hsc, h⟩ := read.retains rfl
    exact ⟨s, hsc, h.imp id (·.trans (rvalue_eq source_eq))⟩
  | reads _ _ _ read => exact read.retains hs

/-- A converted operand has the type that was asked for, or the one that it had. -/
theorem convert_retains (h : Durable T e) (hfill : ∀ n items, e = .list n items → fillTargets? items.length target = none) :
    Yields T (convert e target context) (Retains source target) := by
  have hvalue : Yields T (convertValue e target context) (Retains source target) :=
    convertValue_retains hs context (h.operand.legal hs)
  cases h with
  | @name f fresh =>
    rw [convert]
    refine Yields.mono (convertFunction_yields (pickOverload_picks fresh)) fun c hc => ?_
    cases hc with
    | kept picked _ htype _ hsame =>
      obtain ⟨-, rfl⟩ := picked.unpicked htype hsame
      exact ⟨source, hs, .inr rfl⟩
    | cast => exact ⟨target, rfl, .inl rfl⟩
  | @list node items ts type_eq types below =>
    rw [convert, hfill node items rfl]
    exact Gives.lift fun _ _ => hvalue
  | closed checked closed lasts =>
    rw [convert_closed closed]
    exact hvalue

end

end Check

end Spmd
