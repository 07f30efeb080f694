import Spmd.Proofs.Retyping.Conversion

/-!
# Filling again

A list that filled an aggregate loses the type of the aggregate when it is checked again, and gets it back when it is
converted again. The same goes for arguments of calls, values of assignments and initializers, which are converted to
types that do not depend on them.
-/

namespace Spmd

/-! ## What lists fill -/

namespace Check

variable {n : Nat} {target target' : Ty} {xs : List (Option Ty)} {ts : List Ty}

theorem fillTargets_of_outline (h : target'.outline = target.outline) (hf : fillTargets? n target = some xs)
    (hl : Ty.listTargets n target = .ok ts) : ∃ ts', fillTargets? n target' = some (ts'.map some) ∧
      Ty.listTargets n target' = .ok ts' ∧ ts'.map Ty.outline = ts.map Ty.outline := by
  have hfill : ∃ xs', fillTargets? n target' = some xs' := by
    cases target with
    | array =>
      cases target' with
      | array => exact ⟨_, rfl⟩
      | _ => cases h
    | vector =>
      cases target' with
      | vector => exact ⟨_, rfl⟩
      | _ => cases h
    | struct =>
      cases target' with
      | struct => exact ⟨_, rfl⟩
      | _ => cases h
    | _ => cases hf
  obtain ⟨xs', hxs'⟩ := hfill
  rcases Ty.listTargets_outline n target with ⟨us, hus, hout⟩ | ⟨o, o', ho, -⟩
  · rw [hl] at hus
    cases hus
    rcases Ty.listTargets_outline n target' with ⟨us', hus', hout'⟩ | ⟨o, o', -, ho'⟩
    · rw [h, hout] at hout'
      refine ⟨us', by rw [hxs', fillTargets_eq hxs' hus'], hus', ?_⟩
      rw [← Ty.outlineAll_eq, ← Ty.outlineAll_eq]
      exact (Except.ok.inj hout').symm
    · rw [h, hout] at ho'
      cases ho'
  · rw [hl] at ho
    cases ho

theorem obstacle_filling {ss : List Ty} (hf : fillTargets? n target = some xs) (hn : ss.length = n)
    (hl : Ty.listTargets n target = .ok ts) (hv : target.isVarying = false → Ty.joinVariability ss = .uniform)
    (ho : Ty.firstObstacle false ss ts = none) : Ty.obstacle false (.list ss) target = none := by
  have hvarying : ((Ty.list ss).isVarying && target.isUniform) = false := by
    cases htv : target.isVarying with
    | false =>
      have hs : (Ty.list ss).isVarying = false := congrArg (· == Variability.varying) (hv htv)
      rw [hs, Bool.false_and]
    | true =>
      have hu : target.isUniform = false := by
        unfold Ty.isVarying at htv
        unfold Ty.isUniform
        cases hw : target.variability with
        | varying => rfl
        | uniform => rw [hw] at htv; cases htv
      rw [hu, Bool.and_false]
  subst hn
  unfold Ty.obstacle
  cases target with
  | array | vector | struct =>
    rw [if_neg (by exact Bool.false_ne_true), if_neg (by exact Bool.false_ne_true), if_neg (by exact Bool.false_ne_true)]
    simp only [hvarying, Bool.false_eq_true, if_false, hl, ho]
  | _ => cases hf

theorem filledType_of_outline {t : Ty} (h : target'.outline = target.outline) (ht : filledType n target = .ok t) :
    ∃ t', filledType n target' = .ok t' ∧ t'.outline = t.outline := by
  have other : ∀ {u u' : Ty}, u'.outline = u.outline → filledType n u = .ok u → filledType n u' = .ok u' →
      filledType n u = .ok t → ∃ t', filledType n u' = .ok t' ∧ t'.outline = t.outline := by
    intro u u' hu hs hs' hst
    rw [hs] at hst
    cases hst
    exact ⟨u', hs', hu⟩
  cases target with
  | array e m o =>
    cases target' with
    | array e' m' o' =>
      have hm : m' = m := by
        simp only [Ty.outline, Ty.array.injEq] at h
        exact h.2.1
      subst hm
      cases m' with
      | none =>
        simp only [Ty.outline, Ty.array.injEq, and_true] at h
        simp only [filledType, Ty.arrayOf] at ht ⊢
        split at ht <;> cases ht
        rename_i hv
        refine ⟨_, if_neg ?_, congrArg (Ty.array · (some n)) h⟩
        rwa [Ty.eq_of_bare Ty.isVoid_bare (Ty.bare_of_outline h)]
      | some m => exact other h rfl rfl ht
    | _ => cases h
  | _ =>
    cases target' with
    | array => cases h
    | _ => exact other h rfl rfl ht

open Spmd.Expr

variable {T : Target}

/-! ## Drafts -/

/-- What a check makes of a converted expression, before it is converted again. -/
structure Draft (T : Target) (target : Ty) (e draft : Expr) : Prop where
  resolved : ∀ f, draft = .function f → f.isResolved = true
  typed : ∃ s, draft.type? = some s ∧ (s.isVarying = true → e.isVarying = true) ∧
    ∀ target' : Ty, target'.outline = target.outline → Ty.obstacle false s target' = none
  converts : ∀ target' : Ty, target'.outline = target.outline → ∀ context, Again T (convert draft target' context) e

/-- Checking an expression again gives a draft of it. -/
def Reaches (T : Target) (target : Ty) (e : Expr) : Prop := Quiet T (check e) fun o => ∃ d, o = some d ∧ Draft T target e d

inductive Drafts (T : Target) : List Ty → List Expr → List Expr → Prop
  | nil : Drafts T [] [] []
  | cons {t : Ty} {e d : Expr} {ts : List Ty} {es ds : List Expr} (first : Draft T t e d) (rest : Drafts T ts es ds) :
      Drafts T (t :: ts) (e :: es) (d :: ds)

theorem Converted.reaches {target source : Ty} {e : Expr} (h : Converted T target source e) (hr : Everywhere Repeats e) :
    Reaches T target e := by
  refine Quiet.mono (h.lasts hr) fun o hagain => ?_
  obtain ⟨e', ho, he⟩ := hagain
  refine ⟨e', ho, ?_, ?_, ?_⟩
  · rintro f' rfl
    obtain ⟨f, rfl, hresolved, -⟩ := function_of_outline he.symm rfl
    exact hresolved.symm.trans h.checked.here.grounded
  · obtain ⟨source', hs, hout⟩ := type_of_outline he h.type_eq
    refine ⟨source', hs, fun hv => ?_, fun target' ht => Ty.obstacle_of_outline hout ht h.possible⟩
    rwa [Expr.isVarying_eq h.type_eq, ← isVarying_of_outline hout]
  · exact fun target' ht context => h.again he (Ty.bare_of_outline ht)

theorem Draft.resolved_again {target : Ty} {e d : Expr} (h : Draft T target e d) :
    Quiet T (Check.resolved (some d)) (· = some d) := by
  unfold Check.resolved
  split
  · rename_i f hf
    cases hf
    rw [if_pos (h.resolved f rfl)]
    exact Quiet.pure rfl
  · exact Quiet.pure rfl

section
variable {ts : List Ty} {es ds : List Expr}

theorem checkEach_drafts (needs : Bool) (h : List.Forall₂ (Reaches T) ts es) :
    Quiet T (checkEach needs es) fun o => ∃ ds, o = some ds ∧ Drafts T ts es ds := by
  induction h with
  | nil =>
    rw [checkEach]
    exact Quiet.pure ⟨[], rfl, .nil⟩
  | @cons t e ts es hfirst _ ih =>
    have hneeded : Quiet T (needed (check e)) fun o => ∃ d, o = some d ∧ Draft T t e d :=
      Quiet.result hfirst fun d hd => Quiet.mono hd.resolved_again fun _ h => ⟨d, h, hd⟩
    rw [checkEach]
    cases needs with
    | true =>
      refine Quiet.result hneeded fun d hd => Quiet.result ih fun ds hds => ?_
      exact Quiet.pure ⟨_, rfl, .cons hd hds⟩
    | false =>
      refine Quiet.result hfirst fun d hd => Quiet.result ih fun ds hds => ?_
      exact Quiet.pure ⟨_, rfl, .cons hd hds⟩

variable (h : Drafts T ts es ds)
include h

theorem Drafts.length_eq : ds.length = es.length := by
  induction h with
  | nil => rfl
  | cons _ _ ih => rw [List.length_cons, List.length_cons, ih]

theorem Drafts.types : ∃ ss, typesOf ds = .ok ss ∧ ss.length = es.length ∧
    ((∀ e ∈ es, e.isVarying = false) → Ty.joinVariability ss = .uniform) ∧
    ∀ ts' : List Ty, ts'.map Ty.outline = ts.map Ty.outline → Ty.firstObstacle false ss ts' = none := by
  induction h with
  | nil => exact ⟨[], rfl, rfl, fun _ => rfl, fun ts' _ => by cases ts' <;> rfl⟩
  | @cons t e d ts es ds hfirst _ ih =>
    obtain ⟨ss, hss, hlen, hvar, hobs⟩ := ih
    obtain ⟨s, hs, hvarying, hpossible⟩ := hfirst.typed
    refine ⟨s :: ss, ?_, ?_, fun hv => ?_, fun ts' ht => ?_⟩
    · rw [typesOf, type_ok hs, hss]
      rfl
    · rw [List.length_cons, List.length_cons, hlen]
    · have hsv : s.variability = .uniform := by
        have he := hv e List.mem_cons_self
        cases hw : s.variability with
        | uniform => rfl
        | varying =>
          rw [hvarying (by rw [Ty.isVarying, hw]; rfl)] at he
          cases he
      rw [Ty.joinVariability, hsv, hvar fun c hc => hv c (List.mem_cons_of_mem _ hc)]
      rfl
    · cases ts' with
      | nil => cases ht
      | cons t' ts' =>
        simp only [List.map_cons, List.cons.injEq] at ht
        rw [Ty.firstObstacle, hpossible t' ht.1]
        exact hobs ts' ht.2

theorem Drafts.items {ts' : List Ty} (ht : ts'.map Ty.outline = ts.map Ty.outline) (context : String) :
    Quiet T (convertItems ds (ts'.map some) context) fun o => ∃ es', o = some es' ∧ es'.map outline = es.map outline := by
  induction h generalizing ts' with
  | nil =>
    rw [convertItems]
    exact Quiet.pure ⟨[], rfl, rfl⟩
  | @cons t e d ts es ds hfirst _ ih =>
    cases ts' with
    | nil => cases ht
    | cons t' ts' =>
      simp only [List.map_cons, List.cons.injEq] at ht
      rw [List.map_cons, convertItems]
      refine Again.bind (hfirst.converts t' ht.1 context) fun e' he => Quiet.result (ih ht.2) fun es' hes => ?_
      exact Quiet.pure ⟨_, rfl, by rw [List.map_cons, List.map_cons, he, hes]⟩

end

/-! ## Lists -/

/-- A list that filled an aggregate, as long as it has varying elements only if it is varying itself. -/
theorem list_reaches {place : Option Location} {items : List Expr} {target t : Ty} {xs : List (Option Ty)} {ts : List Ty}
    (hf : fillTargets? items.length target = some xs) (hl : Ty.listTargets items.length target = .ok ts)
    (ht : filledType items.length target = .ok t) (hitems : List.Forall₂ (Reaches T) ts items)
    (hr : t.isVarying = false → ∀ e ∈ items, e.isVarying = false) : Reaches T target (.list (.typed place t) items) := by
  rw [Reaches, check]
  refine Quiet.result (checkEach_drafts true hitems) fun ds hds => ?_
  obtain ⟨ss, hss, hlen, hvar, hobs⟩ := hds.types
  have huniform : target.isVarying = false → Ty.joinVariability ss = .uniform := fun hv =>
    hvar (hr ((filledType_isVarying ht).trans hv))
  have hpossible : ∀ target' : Ty, target'.outline = target.outline → ∃ ts' : List Ty,
      fillTargets? items.length target' = some (ts'.map some) ∧ ts'.map Ty.outline = ts.map Ty.outline ∧
        Ty.obstacle false (.list ss) target' = none := by
    intro target' hout
    obtain ⟨ts', hf', hl', hts⟩ := fillTargets_of_outline hout hf hl
    exact ⟨ts', hf', hts, obstacle_filling hf' hlen hl' (fun hv => huniform (isVarying_of_outline hout ▸ hv)) (hobs ts' hts)⟩
  -- the aggregate is lost here, and comes back with the conversion
  unfold checkList
  refine Quiet.read hss (Quiet.pure ⟨.list (.typed place (.list ss)) ds, rfl, ?_⟩)
  refine ⟨fun f hn => (by cases hn), ⟨.list ss, rfl, fun hv => ?_, fun target' hout => ?_⟩, fun target' hout context => ?_⟩
  · rw [Expr.isVarying_eq (t := t) rfl, filledType_isVarying ht]
    cases htv : target.isVarying with
    | true => rfl
    | false =>
      have hs : (Ty.list ss).isVarying = false := congrArg (· == Variability.varying) (huniform htv)
      rw [hs] at hv
      cases hv
  · exact (hpossible target' hout).choose_spec.2.2
  · obtain ⟨ts', hf', hts, hobstacle⟩ := hpossible target' hout
    obtain ⟨t', ht', htout⟩ := filledType_of_outline hout ht
    rw [convert]
    refine Quiet.read (b := .list ss) rfl ?_
    rw [hds.length_eq, hf']
    dsimp only
    rw [if_neg (by cases target' <;> first | exact Bool.false_ne_true | cases hf')]
    refine Quiet.converts hobstacle ?_
    rw [if_pos rfl]
    refine Quiet.result (hds.items hts context) fun es' hes => ?_
    have hn : es'.length = items.length := by simpa using congrArg List.length hes
    refine Quiet.read (hn ▸ ht') (Again.some ?_)
    simp only [outline, Node.outline, Node.typed, Option.map_some, htout, outlineEach_eq, hes]

theorem convertItems_reaches {context : String} {items : List Expr} (h : ∀ e ∈ items, ∀ t : Ty, t.Legal →
      Yields T (convert e t context) fun c => Everywhere Repeats c → Reaches T t c) :
    ∀ {ts : List Ty}, ts.length = items.length → (∀ t ∈ ts, t.Legal) →
      Yields T (convertItems items (ts.map some) context) fun es =>
        es.length = items.length ∧ ((∀ c ∈ es, Everywhere Repeats c) → List.Forall₂ (Reaches T) ts es) := by
  induction items with
  | nil =>
    intro ts hn _
    cases ts with
    | nil =>
      rw [convertItems]
      exact Yields.some ⟨rfl, fun _ => .nil⟩
    | cons => cases hn
  | cons e es ih =>
    intro ts hn hts
    cases ts with
    | nil => cases hn
    | cons t ts =>
      have hrest := ih (fun c hc => h c (List.mem_cons_of_mem _ hc)) (by simpa using hn)
        fun u hu => hts u (List.mem_cons_of_mem _ hu)
      rw [List.map_cons, convertItems]
      refine Yields.bind (h e List.mem_cons_self t (hts t List.mem_cons_self)) (fun e' he' => ?_) Yields.none
      refine Yields.bind hrest (fun es' hes' => Yields.some ⟨?_, fun hr => ?_⟩) Yields.none
      · rw [List.length_cons, List.length_cons, hes'.1]
      · exact .cons (he' (hr e' List.mem_cons_self)) (hes'.2 fun c hc => hr c (List.mem_cons_of_mem _ hc))

/-- Checking and converting what was converted gives it again. -/
theorem convert_reaches {e : Expr} (h : Durable T e) {target : Ty} (ht : target.Legal) (context : String) :
    Yields T (convert e target context) fun c => Everywhere Repeats c → Reaches T target c := by
  have reached : ∀ {m : Check (Option Expr)} {target : Ty}, Yields T m (fun c => ∃ s, Converted T target s c) →
      Yields T m fun c => Everywhere Repeats c → Reaches T target c :=
    fun hm => Yields.mono hm fun _ hc hr => hc.choose_spec.reaches hr
  induction h generalizing target with
  | name fresh => exact reached (convert_converted (.name fresh) ht nofun context)
  | closed checked closed lasts =>
    refine reached (convert_converted (.closed checked closed lasts) ht ?_ context)
    rintro n items rfl
    cases closed
  | @list node items ts type_eq types below ih =>
    have hdurable := Durable.list type_eq types below
    -- only a list that fills something is converted item by item
    cases hf : fillTargets? items.length target with
    | none =>
      refine reached (convert_converted hdurable ht ?_ context)
      rintro _ _ ⟨⟩
      exact hf
    | some xs =>
      have hr : target.isReference = false ∧ target.isList = false := by
        cases target with
        | array | vector | struct => exact ⟨rfl, rfl⟩
        | _ => cases hf
      have hne : (Ty.list ts).same target = false := by
        cases target with
        | list => cases hr.2
        | _ => rfl
      have hlen : items.length = ts.length := by simpa using congrArg List.length types
      rw [convert, hf]
      refine Gives.lift fun source hs => ?_
      obtain rfl : source = .list ts := Option.some.inj ((type?_of_ok hs).symm.trans type_eq)
      dsimp only
      rw [hne, if_neg (by exact Bool.false_ne_true)]
      refine ifConverts_yields fun ho => ?_
      obtain ⟨us, hus, -⟩ := Ty.obstacle_from_list hr.1 ho hne
      rw [← hlen] at hus
      obtain ⟨hn, hall⟩ := fillTargets_ok hf hus ht
      obtain rfl := fillTargets_eq hf hus
      have hlegal : ∀ u ∈ us, u.Legal := by
        intro u hu
        obtain ⟨t, heq, hl⟩ := hall _ (List.mem_map_of_mem hu)
        cases heq
        exact hl
      refine Yields.bind (convertItems_reaches (fun c hc t hl => ih c hc hl) (by simpa using hn) hlegal)
        (fun es hes => ?_) Yields.none
      refine Gives.lift fun t hfilled => Yields.some fun hrep => ?_
      obtain ⟨hcount, hreach⟩ := hes
      refine list_reaches (by rw [hcount]; exact hf) (by rw [hcount]; exact hus) hfilled (hreach fun c hc => hrep.child hc) ?_
      exact fun hv => hrep.here t rfl hv

end Check

end Spmd
