import Spmd.Proofs.Overload
import Spmd.Proofs.Ty.Conversion
import Spmd.Typing.Conversion

/-!
# The contract of conversion

Converting an operand to a legal type gives a checked tree of that type, or reports an error
(`Check.convert_delivers`).
-/

namespace Spmd

/-! ## Checked trees -/

namespace Expr

variable {T : Target} {t : Ty}

theorem null_checked (place : Option Location) (ht : t.Legal) : Checked T (.null (.typed place t)) :=
  Checked.leaf ⟨⟨t, rfl, ht⟩, trivial, trivial⟩ rfl

end Expr

open Spmd.Expr

namespace Check

variable {T : Target} {α : Type} {P : α → Prop}

/-! ## Types -/

section
variable {place : Option Location} {context : String} {explicit : Bool} {source target : Ty}

theorem canConvert_delivers {k : Bool → Check (Option α)} (h : Ty.obstacle explicit source target = none → Delivers T (k true) P)
    (hn : k false = pure none) : Delivers T (canConvert place context explicit source target >>= k) P := by
  unfold canConvert
  split
  · rename_i ho
    rw [pure_bind]
    exact h ho
  · rw [bind_assoc]
    simp only [pure_bind, hn]
    exact Delivers.reject place _

theorem ifConverts {k : Check (Option α)} (h : Ty.obstacle explicit source target = none → Delivers T k P) :
    Delivers T (canConvert place context explicit source target >>= fun b => if b = true then k else pure none) P :=
  canConvert_delivers h rfl

end

theorem commonType_delivers (place : Option Location) (context : String) (a b : Ty) :
    Delivers T (commonType place context a b) fun t => Ty.common a b = .ok t := by
  unfold commonType
  split
  · rename_i t ht
    exact Delivers.some ht
  · exact Delivers.reject place _

/-! ## Warnings -/

theorem warnOfNarrowing_meets (place : Option Location) (c : Constant) (source target : Ty) (context : String) :
    Meets T (warnOfNarrowing place c source target context) fun _ new => Log.errors new = [] := by
  unfold warnOfNarrowing
  split
  · dsimp only
    split
    · exact Meets.mono (warn_meets _ _) fun _ new h => by subst h; rfl
    · exact Meets.pure rfl
  · exact Meets.pure rfl

/-! ## References -/

theorem core_of_references {a b : Ty} (ha : a.isReference = true) (hb : b.isReference = true)
    (h : a.stored.core = b.stored.core) : a.core = b.core := by
  cases a with
  | reference =>
    cases b with
    | reference => exact congrArg Ty.reference h
    | _ => cases hb
  | _ => cases ha

theorem read_checked {e : Expr} {referent : Ty} {o : Origin} (he : Checked T e) (hs : e.type? = some (.reference referent o)) :
    Checked T (.dereference (.typed e.place referent) e) :=
  Checked.one ⟨⟨referent, rfl, (he.legal hs).2⟩, trivial, trivial⟩ rfl he

section
variable {e : Expr} {source target : Ty} (he : Checked T e) (hs : e.type? = some source)
include he hs

theorem bindReference_delivers (hr : target.isReference = true) (context : String) :
    Delivers T (bindReference e target context) fun e' => Checked T e' ∧ e'.HasType target := by
  unfold bindReference
  simp only [type_ok hs, lift_ok, pure_bind]
  by_cases hsr : source.isReference = true
  · rw [if_pos hsr]
    refine ifConverts fun ho => Delivers.some ⟨he, ?_⟩
    exact hasType_iff.mpr ⟨source, hs, core_of_references hsr hr (Ty.obstacle_to_reference hr ho)⟩
  · rw [if_neg hsr]
    rw [Bool.not_eq_true] at hsr
    obtain ⟨a, ha⟩ := he.addressType_ok
    have hass : e.isAssignable = .ok a.isSome := by rw [isAssignable, ha]; rfl
    simp only [hass, lift_ok, pure_bind]
    split
    · refine ifConverts fun ho => ?_
      simp only [Ty.referenceTo, hsr, Bool.false_eq_true, if_false, lift_ok, pure_bind]
      have hlegal : (Ty.reference source).Legal := ⟨hsr, he.legal hs⟩
      refine Delivers.some ⟨Checked.one ⟨⟨_, rfl, hlegal⟩, trivial, trivial⟩ rfl he, ?_⟩
      exact hasType_iff.mpr ⟨_, rfl, core_of_references rfl hr (Ty.obstacle_to_reference hr ho ▸
        congrArg Ty.core (Ty.stored_of_not_reference hsr).symm)⟩
    · exact Delivers.reject _ _

/-! ## Values -/

variable (ht : target.Legal)
include ht

theorem cast_checked (place : Option Location) (explicit reported : Bool)
    (ho : target.isPointer = false → Ty.obstacle explicit source target = none) :
    Checked T (.cast (.typed place target) target e reported) := by
  refine Checked.one ⟨⟨target, rfl, ht⟩, trivial, rfl, fun hv u hu => ?_, fun s t hse hst hv => ?_⟩ rfl he
  · rw [hs] at hu
    cases hu
    cases target with
    | void => exact Ty.obstacle_to_void rfl (ho rfl)
    | _ => cases hv
  rw [hs] at hse
  cases hse
  subst hst
  have hvar := Ty.obstacle_value_varying rfl (ho rfl) (by simpa [Ty.isVarying, Ty.variability] using hv)
  simpa [Ty.isVarying, Ty.variability, Ty.isArray] using hvar

theorem convertRead_delivers (context : String) :
    Delivers T (convertRead e source target context) fun e' => Checked T e' ∧ e'.HasType target := by
  unfold convertRead
  refine ifConverts fun ho => ?_
  split
  · rename_i hsame
    exact Delivers.some ⟨he, source, hs, hsame⟩
  · have hcast : Delivers T (return some (.cast (.typed e.place target) target e false))
        fun e' => Checked T e' ∧ e'.HasType target :=
      Delivers.some ⟨cast_checked he hs ht e.place _ false fun _ => ho, hasType_of_type rfl⟩
    dsimp only
    split
    · refine Delivers.after (Q := fun _ => True) ?_ fun _ _ => hcast
      exact Meets.mono (warnOfNarrowing_meets _ _ _ _ _) fun _ _ h => ⟨h, trivial⟩
    · exact hcast

theorem convertValue_delivers (context : String) :
    Delivers T (convertValue e target context) fun e' => Checked T e' ∧ e'.HasType target := by
  unfold convertValue
  simp only [type_ok hs, lift_ok, pure_bind]
  by_cases hsame : source.same target = true
  · rw [if_pos hsame]
    exact Delivers.some ⟨he, hasType_iff.mpr ⟨source, hs, Ty.core_eq_of_same hsame⟩⟩
  · rw [if_neg hsame]
    split
    · exact Delivers.some ⟨null_checked e.place ht, hasType_of_type rfl⟩
    · split
      · rename_i hr
        exact bindReference_delivers he hs hr context
      · cases source with
        | reference referent o =>
          have hread := read_checked he hs
          dsimp only
          split
          · rename_i hrs
            exact Delivers.some ⟨hread, hasType_iff.mpr ⟨referent, rfl, Ty.core_eq_of_same hrs⟩⟩
          · exact convertRead_delivers hread rfl ht context
        | _ => exact convertRead_delivers he hs ht context

end

/-! ## Function names -/

theorem signature_not_pointer {s : Symbol} {sig : Signature} {t : Ty} (h : s.signature? = some sig)
    (ht : t.isPointer = true) : s.type.same t = false := by
  unfold Symbol.signature? Ty.signature? at h
  split at h
  · rename_i hs
    rw [hs]
    cases t with
    | pointer => rfl
    | _ => cases ht
  · cases h

/-- Picking an overload leaves a name as it is, or settles it for a conversion to a pointer. -/
theorem pickOverload_delivers {f : FunctionName} (hf : Known f) (target : Ty) :
    Delivers T (pickOverload f target) fun f' =>
      f' = f ∨ ∃ s, Settled f' s ∧ s.type.same target = false := by
  unfold pickOverload
  split
  · exact Delivers.some (.inl rfl)
  · rename_i ps hps
    have hp : target.isPointer = true := by
      unfold pointedParameters? at hps
      split at hps
      · rfl
      · cases hps
    refine Meets.bind (resolve_meets hf _) fun r new hr => ?_
    obtain ⟨found, f'⟩ := r
    cases found with
    | none => exact Meets.pure (by simpa [Outcome, Log.errors] using hr)
    | some s =>
      obtain ⟨hnew, hs, sig, hsig, -⟩ := hr
      exact Meets.pure ⟨by rw [List.append_nil]; exact hnew, .inr ⟨s, hs, signature_not_pointer hsig hp⟩⟩

theorem convertFunction_delivers {f : FunctionName} (hf : Known f) {target : Ty} (ht : target.Legal)
    (context : String) :
    Delivers T (convertFunction f target context) fun e' => Operand T e' ∧ e'.HasType target := by
  unfold convertFunction
  refine Delivers.bind (pickOverload_delivers hf target) (fun f' hf' => ?_) rfl
  dsimp only
  split
  · exact Delivers.reject _ _
  · rename_i hres
    rw [Bool.not_eq_true, Bool.not_eq_false'] at hres
    obtain ⟨source, hs, hc, hsame⟩ : ∃ source, (Expr.function f').type? = some source ∧
        Checked T (.function f') ∧ (source.same target = true → f' = f) := by
      rcases hf' with rfl | ⟨s, hset, hne⟩
      · obtain ⟨s, hfun⟩ := Option.isSome_iff_exists.mp hres
        have htype : f'.node.type = some s.type := by rw [hf.type_eq, hfun]; rfl
        exact ⟨s.type, htype, hf.checked htype, fun _ => rfl⟩
      · exact ⟨s.type, hset.type_eq, hset.checked, fun h => by rw [hne] at h; cases h⟩
    simp only [type_ok hs, lift_ok, pure_bind]
    refine ifConverts fun ho => ?_
    by_cases hst : source.same target = true
    · rw [if_pos hst]
      obtain rfl := hsame hst
      exact Delivers.some ⟨.name hf, hasType_iff.mpr ⟨source, hs, Ty.core_eq_of_same hst⟩⟩
    · rw [if_neg hst]
      exact Delivers.some ⟨.checked (cast_checked hc hs ht _ _ false fun _ => ho) rfl, hasType_of_type rfl⟩

/-! ## Lists -/

theorem fillTargets_ok {length : Nat} {target : Ty} {targets : List (Option Ty)} {ts : List Ty}
    (hf : fillTargets? length target = some targets) (hl : Ty.listTargets length target = .ok ts)
    (ht : target.Legal) : targets.length = length ∧ ∀ x ∈ targets, ∃ t, x = some t ∧ t.Legal := by
  have hrange : (∀ i < length, ∃ t, target.elementAt? i = some t) →
      ∀ x ∈ (List.range length).map target.elementAt?, ∃ t, x = some t ∧ t.Legal := by
    intro hall x hx
    obtain ⟨i, hi, rfl⟩ := List.mem_map.mp hx
    obtain ⟨t, h⟩ := hall i (List.mem_range.mp hi)
    exact ⟨t, h, ht.elementAt h⟩
  cases target with
  | array e n o =>
    cases hf
    refine ⟨List.length_replicate, fun x hx => ?_⟩
    rw [List.eq_of_mem_replicate hx]
    exact ⟨e, rfl, ht.2⟩
  | vector s n o =>
    simp only [Ty.listTargets] at hl
    split at hl <;> cases hl
    rename_i hn
    subst hn
    cases hf
    exact ⟨by simp, hrange fun i hi => ⟨.scalar s, by simp [Ty.elementAt?, hi]⟩⟩
  | struct s ms q o =>
    simp only [Ty.listTargets] at hl
    split at hl <;> cases hl
    rename_i hn
    subst hn
    cases hf
    exact ⟨by simp, hrange fun i hi => ⟨Ty.memberType q ms[i].2, by simp [Ty.elementAt?, hi]⟩⟩
  | _ => cases hf

theorem fillTargets_eq {n : Nat} {target : Ty} {xs : List (Option Ty)} {ts : List Ty} (hf : fillTargets? n target = some xs)
    (hl : Ty.listTargets n target = .ok ts) : xs = ts.map some := by
  cases target with
  | array e m o =>
    simp only [Ty.listTargets] at hl
    split at hl <;> cases hl
    cases hf
    rw [List.map_replicate]
  | vector s m o =>
    simp only [Ty.listTargets] at hl
    split at hl <;> cases hl
    rename_i hm
    subst hm
    cases hf
    refine List.ext_getElem (by simp) fun i hi _ => ?_
    have hi' : i < m := by simpa using hi
    simp [Ty.elementAt?, hi']
  | struct s ms q o =>
    simp only [Ty.listTargets] at hl
    split at hl <;> cases hl
    rename_i hm
    subst hm
    cases hf
    refine List.ext_getElem (by simp) fun i hi _ => ?_
    have hi' : i < ms.length := by simpa using hi
    simp [Ty.elementAt?, hi']
  | _ => cases hf

theorem fillTargets_isReference {n : Nat} {target : Ty} {xs : List (Option Ty)} (h : fillTargets? n target = some xs) :
    target.isReference = false := by
  cases target with
  | reference => cases h
  | _ => rfl

theorem fillTargets_listed {items : List Expr} {ts : List Ty} {target : Ty} {xs : List (Option Ty)}
    (hf : fillTargets? items.length target = some xs) (htypes : items.map type? = ts.map some)
    (ho : Ty.obstacle false (.list ts) target = none) (hsame : (Ty.list ts).same target = false) :
    ∃ us, Ty.listTargets items.length target = .ok us ∧ xs = us.map some ∧ Ty.firstObstacle false ts us = none := by
  have hlen : items.length = ts.length := by simpa using congrArg List.length htypes
  rw [hlen] at hf ⊢
  obtain ⟨us, hus, hfirst⟩ := Ty.obstacle_from_list (fillTargets_isReference hf) ho hsame
  exact ⟨us, hus, fillTargets_eq hf hus, hfirst⟩

theorem filledType_ok (items : List Expr) {target : Ty} (ht : target.Legal) :
    ∃ t, filledType items.length target = .ok t ∧ t.Legal ∧
      (∀ node, t.core = ((Expr.list node items).filling target).core) ∧ ∀ e o, t ≠ .array e none o := by
  unfold filledType filling
  cases target with
  | array e n o =>
    cases n with
    | none => exact ⟨.array e (some items.length), by simp [Ty.arrayOf, ht.1], ht, fun _ => rfl, fun _ _ h => by cases h⟩
    | some n => exact ⟨_, rfl, ht, fun _ => rfl, fun _ _ h => by cases h⟩
  | _ => exact ⟨_, rfl, ht, fun _ => rfl, fun _ _ h => by cases h⟩

theorem filledType_isVarying {n : Nat} {target t : Ty} (ht : filledType n target = .ok t) : t.isVarying = target.isVarying := by
  unfold filledType at ht
  split at ht
  · unfold Ty.arrayOf at ht
    split at ht <;> cases ht
    rfl
  · cases ht
    rfl

theorem convertItems_delivers {context : String} {items : List Expr}
    (h : ∀ e ∈ items, ∀ t : Ty, t.Legal → Delivers T (convert e t context) fun e' => Checked T e' ∧ e'.Fits t) :
    ∀ {targets : List (Option Ty)}, targets.length = items.length → (∀ x ∈ targets, ∃ t, x = some t ∧ t.Legal) →
      Delivers T (convertItems items targets context) fun es => es.length = items.length ∧ ∀ e ∈ es, Checked T e := by
  induction items with
  | nil =>
    intro targets _ _
    rw [convertItems]
    · exact Delivers.some ⟨rfl, fun _ he => by cases he⟩
  | cons e es ih =>
    intro targets hn htargets
    cases targets with
    | nil => cases hn
    | cons x xs =>
      obtain ⟨t, rfl, ht⟩ := htargets x List.mem_cons_self
      rw [convertItems]
      refine Delivers.bind (h e List.mem_cons_self t ht) (fun e' he' => ?_) rfl
      have hlen : xs.length = es.length := by simpa using hn
      have hrest := ih (fun c hc => h c (List.mem_cons_of_mem _ hc)) hlen
        (fun y hy => htargets y (List.mem_cons_of_mem _ hy))
      refine Delivers.bind hrest (fun es' hes' => Delivers.some ⟨?_, ?_⟩) rfl
      · simp [hes'.1]
      · intro c hc
        rcases List.mem_cons.mp hc with rfl | hc
        · exact he'.1
        · exact hes'.2 c hc

/-! ## Conversion -/

theorem convert_closed {e : Expr} (h : e.awaitsTarget = false) (target : Ty) (context : String) :
    convert e target context = convertValue e target context := by
  rw [convert]
  · rintro f rfl
    cases h
  · rintro n es rfl
    cases h

theorem convert_list {node : Node} {items : List Expr} {ts : List Ty} {target : Ty} {xs : List (Option Ty)}
    {context : String}
    (hs : node.type = some (.list ts)) (hf : fillTargets? items.length target = some xs) :
    convert (.list node items) target context = (do
      if ← canConvert node.place context false (.list ts) target then
        match ← convertItems items xs context with
        | none => return none
        | some es => return some (.list (.typed node.place (← filledType es.length target)) es)
      else return none) := by
  have hsame : ¬ ((Ty.list ts).same target || (Ty.list ts).isReference) = true := by
    cases target with
    | array | vector | struct => exact Bool.false_ne_true
    | _ => cases hf
  rw [convert, type_ok (e := .list node items) hs, lift_ok, pure_bind, hf]
  exact if_neg hsame

section
variable {e : Expr} (he : Operand T e) (context : String) {target : Ty} (ht : target.Legal)
include he ht

theorem convert_single_delivers (hn : ∀ n es, e ≠ .list n es) :
    Delivers T (convert e target context) fun e' => Checked T e' ∧ e'.HasType target := by
  cases he with
  | name known =>
    rw [convert]
    refine Delivers.mono (convertFunction_delivers known ht context) fun e' h => ?_
    obtain ⟨u, hu⟩ := h.2.typed
    exact ⟨h.1.toChecked hu, h.2⟩
  | list => exact absurd rfl (hn _ _)
  | checked checked closed =>
    obtain ⟨source, hs, -⟩ := checked.typed
    rw [convert]
    · exact convertValue_delivers checked hs ht context
    · rintro f rfl; cases closed
    · rintro n es rfl; cases closed

/-- Converting an operand gives a checked tree of the wanted type, or reports an error. -/
theorem convert_delivers : Delivers T (convert e target context) fun e' => Checked T e' ∧ e'.Fits target := by
  have single : ∀ {m : Check (Option Expr)} {target : Ty},
      Delivers T m (fun e' => Checked T e' ∧ e'.HasType target) →
      Delivers T m fun e' => Checked T e' ∧ e'.Fits target :=
    fun h => Delivers.mono h fun _ h => ⟨h.1, h.2.fits_of_checked h.1⟩
  induction he generalizing target with
  | name known => exact single (convert_single_delivers (.name known) context ht fun _ _ h => by cases h)
  | @list node items ts type_eq types below ih =>
    have hlist : Checked T (.list node items) := (Operand.list type_eq types below).toChecked type_eq
    have hvalue := single (convertValue_delivers hlist type_eq ht context)
    rw [convert]
    simp only [type_ok (e := .list node items) type_eq, lift_ok, pure_bind]
    split
    · exact hvalue
    · rename_i targets htargets
      by_cases hsame : ((Ty.list ts).same target || (Ty.list ts).isReference) = true
      · rw [if_pos hsame]
        exact hvalue
      · rw [if_neg hsame]
        refine ifConverts fun ho => ?_
        obtain ⟨us, hus, -, -⟩ := fillTargets_listed htargets types ho (Bool.or_eq_false_iff.mp (Bool.not_eq_true _ ▸ hsame)).1
        obtain ⟨hn, hall⟩ := fillTargets_ok htargets hus ht
        refine Delivers.bind (convertItems_delivers (fun c hc t hl => ih c hc hl) hn hall) (fun es hes => ?_) rfl
        obtain ⟨t, hfill, hlegal, hcore, hsized⟩ := filledType_ok es ht
        simp only [hfill, lift_ok, pure_bind]
        refine Delivers.some ⟨.node ⟨⟨t, rfl, hlegal⟩, trivial, ?_⟩ hes.2, ?_⟩
        · intro el o h
          exact hsized el o (Option.some.inj h)
        · exact hasType_iff.mpr ⟨t, rfl, hcore _⟩
  | checked checked closed =>
    refine single (convert_single_delivers (.checked checked closed) context ht ?_)
    rintro n es rfl
    cases closed

theorem convert_value_delivers (hn : target.isArray = false) :
    Delivers T (convert e target context) fun e' => Checked T e' ∧ e'.HasType target :=
  Delivers.mono (convert_delivers he context ht) fun _ h => ⟨h.1, h.2.hasType hn⟩

end

end Check

end Spmd
