import Spmd.Proofs.Ty.Obstacle
import Spmd.Proofs.Typing.Acceptance
import Spmd.Proofs.Typing.Prepared
import Spmd.Proofs.Typing.Program

/-!
# The function that is picked can be called

Overload resolution looks at types, and at no type of a reference: an argument matches what a reference refers to, whether or
not it can be bound. All other arguments convert to the parameters of the function that is picked (`resolved_converts`).
-/

namespace Spmd

/-! ## Types -/

namespace Ty

variable {t p : Ty}

theorem obstacle_of_matches (hp : p.isReference = false) (h : t.matchesExactly p = true) :
    obstacle false t.stored p = none := by
  rw [matchesExactly, sameIgnoringConst_iff, stored_of_not_reference hp] at h
  exact obstacle_of_core hp h

theorem matches_of_same (h : t.same p = true) : t.matchesExactly p = true := by
  rw [matchesExactly, sameIgnoringConst_iff]
  exact stored_core_eq (core_eq_of_same h)

end Ty

/-! ## Arguments -/

namespace Expr

/-- An argument, or an item of an initializer list, that does not convert although its type may match: it is given for a reference
that it cannot be bound to, as it denotes no storage or its type does not convert, or it names what is stored as a function and
has another type. -/
inductive Unbound : Expr → Ty → Prop
  | reference {a : Expr} {p : Ty} (isReference : p.isReference = true)
      (cannot : ¬ (a.isStorage = .ok true ∧ ∀ t, a.type? = some t → t.converts false p = true)) : Unbound a p
  | misnamed {f : FunctionName} {p t : Ty} (type_eq : f.node.type = some t) (other : t.isFunction = false) : Unbound (.function f) p
  | item {node : Node} {items : List Expr} {p t : Ty} {targets : List (Option Ty)} {i : Nat} {a : Expr}
      (fills : Check.fillTargets? items.length p = some targets) (item : items[i]? = some a) (target : targets[i]? = some (some t))
      (below : Unbound a t) : Unbound (.list node items) p

end Expr

namespace Check

open Spmd.Expr

variable {T : Target} {a : Expr} {t p : Ty} {context : String}

theorem canConvert_true {place : Option Location} {explicit : Bool} (h : Ty.obstacle explicit t p = none) :
    canConvert place context explicit t p = pure true := by
  unfold canConvert
  rw [h]

/-! ## Values -/

theorem convertRead_succeeds (h : Ty.obstacle false t p = none) : Succeeds T (convertRead a t p context) := by
  unfold convertRead
  rw [canConvert_true h]
  simp only [pure_bind, if_true]
  split
  · exact Succeeds.some
  · split
    · refine Succeeds.after (Q := fun _ => True) ?_ fun _ _ => Succeeds.some
      exact Meets.mono (warnOfNarrowing_meets _ _ _ _ _) fun _ _ h => ⟨h, trivial⟩
    · exact Succeeds.some

theorem bindReference_succeeds (ha : Checked T a) (ht : a.type? = some t) (hs : a.isStorage = .ok true)
    (h : Ty.obstacle false t p = none) : Succeeds T (bindReference a p context) := by
  unfold bindReference
  simp only [type_ok ht, lift_ok, pure_bind, canConvert_true h]
  by_cases hr : t.isReference = true
  · rw [if_pos hr, if_pos trivial]
    exact Succeeds.some
  · rw [if_neg hr]
    rw [Bool.not_eq_true] at hr
    obtain ⟨o, ho⟩ := ha.addressType_ok
    have hassignable : a.isAssignable = .ok true := by
      cases o with
      | some u => rw [isAssignable, ho]; rfl
      | none =>
        -- what has no address is storage as a reference only
        unfold isStorage storageVariability at hs
        rw [ho, type_ok ht] at hs
        simp only [Except.bind, bind, hr] at hs
        cases hs
    simp only [hassignable, lift_ok, pure_bind, if_true, Ty.referenceTo, hr, Bool.false_eq_true, if_false]
    exact Succeeds.some

/-- An argument converts if it becomes a null pointer, if it is read as a type that converts, or if it can be bound. -/
theorem convertValue_succeeds (ha : Checked T a) (ht : a.type? = some t)
    (hread : p.isReference = false → becomesNull a t p = true ∨ Ty.obstacle false t.stored p = none)
    (hbound : p.isReference = true → a.isStorage = .ok true ∧ Ty.obstacle false t p = none) :
    Succeeds T (convertValue a p context) := by
  unfold convertValue
  simp only [type_ok ht, lift_ok, pure_bind]
  split
  · exact Succeeds.some
  split
  · exact Succeeds.some
  rename_i hnull
  split
  · rename_i hp
    exact bindReference_succeeds ha ht (hbound hp).1 (hbound hp).2
  · rename_i hp
    have ho := (hread (by simpa using hp)).resolve_left hnull
    cases t with
    | reference r o =>
      dsimp only
      split
      · exact Succeeds.some
      · exact convertRead_succeeds ho
    | _ => exact convertRead_succeeds ho

/-! ## Function names -/

theorem fits_of_same : ∀ {ts ps : List Ty}, Ty.allSame ts ps = true →
    ((Argument.ofTypes ts []).zip ps).all (fun q => q.1.fits Ty.matchesExactly q.2) = true
  | [], [], _ => rfl
  | t :: ts, p :: ps, h => by
    rw [Ty.allSame, Bool.and_eq_true] at h
    rw [Argument.ofTypes, List.zip_cons_cons, List.all_cons, fits_of_same h.2, Argument.fits, Ty.matches_of_same h.1, Bool.or_true]
    rfl
  | [], _ :: _, h => by cases h
  | _ :: _, [], h => by cases h

theorem length_of_allSame : ∀ {ts ps : List Ty}, Ty.allSame ts ps = true → ts.length = ps.length
  | [], [], _ => rfl
  | _ :: _, _ :: _, h => congrArg (· + 1) (length_of_allSame (Bool.and_eq_true_iff.mp h).2)
  | [], _ :: _, h => by cases h
  | _ :: _, [], h => by cases h

/-- A function becomes a pointer to functions with its parameters. -/
theorem takes_of_pointed {s : Symbol} {parameters : List Ty} (hfun : s.type.isFunction = true)
    (hps : pointedParameters? p = some parameters) (ho : Ty.obstacle false s.type p = none) :
    s.takes Ty.matchesExactly (Argument.ofTypes parameters []) = true := by
  unfold Symbol.takes Symbol.signature?
  cases hs : s.type with
  | function r ps task o =>
    rw [hs] at ho
    unfold pointedParameters? at hps
    split at hps
    · rename_i r' qs task' o' q origin
      cases hps
      unfold Ty.obstacle at ho
      rw [if_neg (by exact Bool.false_ne_true), if_neg (by exact Bool.false_ne_true), if_neg (by exact Bool.false_ne_true)] at ho
      dsimp only at ho
      split at ho
      · rename_i hsame
        have hall := (Bool.and_eq_true_iff.mp (Bool.and_eq_true_iff.mp hsame).2).2
        dsimp only [Ty.signature?]
        rw [length_ofTypes, length_of_allSame hall, beq_self_eq_true, Bool.true_and]
        exact fits_of_same hall
      · cases ho
    · cases hps
  | _ => rw [hs] at hfun; cases hfun

/-- The function that a name has the type of is found by its parameters. -/
theorem pickOverload_succeeds {f : FunctionName} (hf : Known f) (ht : f.node.type = some t) (hfun : t.isFunction = true)
    (ho : Ty.obstacle false t p = none) : Meets T (pickOverload f p) fun o new => Log.errors new = [] ∧
      ∃ f', o = some f' ∧ Known f' ∧ f'.node.type = some t ∧ f'.isResolved = true := by
  obtain ⟨s, hs, hst⟩ := hf.found ht
  have hresolved := hf.isResolved ht
  unfold pickOverload
  split
  · exact Meets.pure ⟨rfl, f, rfl, hf, ht, hresolved⟩
  rename_i parameters hps
  rcases hf.choice_cases with hfresh | ⟨s', hmem, hchosen, hsig⟩
  · have hone := candidates_of_function hfresh hs
    have htakes := takes_of_pointed (s := s) (by rw [hst]; exact hfun) hps (by rw [hst]; exact ho)
    have hsettled : Spmd.resolve f.candidates (Argument.ofTypes parameters []) = .resolved s := by
      rw [hone, resolve_single, htakes]
      rfl
    unfold FunctionName.resolve
    rw [if_neg (by rw [hfresh]; exact Bool.false_ne_true), hsettled]
    simp only [bind_assoc, pure_bind]
    refine Meets.bind (note_meets _) fun _ new hnew => Meets.pure ?_
    subst hnew
    obtain ⟨sig, hsig⟩ : ∃ sig, s.signature? = some sig := by
      unfold Symbol.signature?
      rw [hst]
      cases t with
      | function => exact ⟨_, rfl⟩
      | _ => cases hfun
    have hknown := Known.pick (hf.settleType_eq.symm ▸ hf) hfresh (s := s) (by rw [hone]; exact List.mem_singleton_self s) hsig
    have htype : (FunctionName.settleType { f with choice := ⟨some s, true⟩ }) = { f with choice := ⟨some s, true⟩ } :=
      FunctionName.settleType_of_type (f := { f with choice := ⟨some s, true⟩ }) ht
    rw [htype] at hknown ⊢
    exact ⟨rfl, _, rfl, hknown, ht, rfl⟩
  · unfold FunctionName.resolve
    rw [if_pos (by rw [hchosen]; rfl), hchosen]
    simp only [pure_bind]
    exact Meets.pure ⟨rfl, f, rfl, hf, ht, hresolved⟩

theorem convertFunction_succeeds {f : FunctionName} (hf : Known f) (ht : f.node.type = some t) (hfun : t.isFunction = true)
    (ho : Ty.obstacle false t p = none) : Succeeds T (convertFunction f p context) := by
  unfold convertFunction
  refine Meets.bind (pickOverload_succeeds hf ht hfun ho) fun o new hpicked => ?_
  obtain ⟨hnew, f', rfl, -, ht', hresolved⟩ := hpicked
  refine Meets.mono (Q := fun o new => o.isSome = true ∧ Log.errors new = []) ?_ fun o more h =>
    ⟨h.1, by rw [Log.errors_append, hnew, h.2, List.append_nil]⟩
  simp only [hresolved, Bool.not_true, Bool.false_eq_true, if_false, type_ok (e := .function f') ht', lift_ok, pure_bind,
    canConvert_true ho]
  exact Succeeds.some

/-! ## Initializer lists -/

/-- The items of a list that fills an aggregate convert to what they fill. -/
theorem convertItems_succeeds {items : List Expr} : ∀ {ts us : List Ty}, items.map type? = ts.map some → us.length = items.length →
    Ty.firstObstacle false ts us = none →
    (∀ (i : Nat) (a : Expr) (t u : Ty), items[i]? = some a → us[i]? = some u → a.type? = some t →
      Ty.obstacle false t u = none → Succeeds T (convert a u context)) →
    Succeeds T (convertItems items (us.map some) context) := by
  induction items with
  | nil =>
    intro ts us _ _ _ _
    rw [convertItems]
    · exact Succeeds.some
  | cons a as ih =>
    intro ts us hts hn ho hall
    cases ts with
    | nil => cases hts
    | cons t ts =>
      cases us with
      | nil => cases hn
      | cons u us =>
        obtain ⟨ht, hts⟩ := List.cons.inj hts
        unfold Ty.firstObstacle at ho
        split at ho
        · cases ho
        · rename_i hfirst
          have hrest := ih hts (by simpa using hn) ho fun i b t' u' hb hu' => hall (i + 1) b t' u' hb hu'
          rw [List.map_cons, convertItems]
          refine Succeeds.bind (hall 0 a t u rfl rfl ht hfirst) fun a' => ?_
          exact Succeeds.bind hrest fun as' => Succeeds.some

/-! ## Conversion -/

/-- An argument converts if its type does once it is read, or if it becomes a null pointer, unless it cannot be bound. -/
theorem convert_succeeds (ha : Operand T a) (ht : a.type? = some t) (hl : p.Legal) (hb : ¬ Unbound a p)
    (hread : p.isReference = false → becomesNull a t p = true ∨ Ty.obstacle false t.stored p = none) :
    Succeeds T (convert a p context) := by
  have hbound : ∀ {a : Expr} {t p : Ty}, ¬ Unbound a p → a.type? = some t → p.isReference = true →
      a.isStorage = .ok true ∧ Ty.obstacle false t p = none := by
    intro a t p hb ht hp
    by_contra hcannot
    refine hb (.reference hp fun h => hcannot ⟨h.1, Option.isNone_iff_eq_none.mp (h.2 t ht)⟩)
  -- along what the argument is, since the items of a list are converted as arguments are
  induction ha generalizing t p with
  | @name f known =>
    rw [convert]
    by_cases hfun : t.isFunction = true
    · refine convertFunction_succeeds known ht hfun ?_
      by_cases hp : p.isReference = true
      · exact (hbound hb ht hp).2
      · rcases hread (by simpa using hp) with hnull | ho
        · simp [becomesNull, isNull, isZeroConstant] at hnull
        · rwa [Ty.stored_of_not_reference (by cases t with | reference => cases hfun | _ => rfl)] at ho
    · exact absurd (.misnamed ht (by simpa using hfun)) hb
  | @list node items ts type_eq types below ih =>
    obtain rfl : t = .list ts := Option.some.inj (ht.symm.trans type_eq)
    have hlist : Checked T (.list node items) := (Operand.list type_eq types below).toChecked type_eq
    have hvalue : Succeeds T (convertValue (.list node items) p context) :=
      convertValue_succeeds hlist ht hread fun hp => hbound hb ht hp
    rw [convert]
    simp only [type_ok (e := .list node items) type_eq, lift_ok, pure_bind]
    split
    · exact hvalue
    · rename_i targets hfill
      by_cases hsame : ((Ty.list ts).same p || (Ty.list ts).isReference) = true
      · rw [if_pos hsame]
        exact hvalue
      · rw [if_neg hsame]
        have ho : Ty.obstacle false (.list ts) p = none :=
          (hread (fillTargets_isReference hfill)).resolve_left (by simp [becomesNull, isNull, isZeroConstant])
        obtain ⟨us, hus, rfl, hfirst⟩ :=
          fillTargets_listed hfill types ho (Bool.or_eq_false_iff.mp (Bool.not_eq_true _ ▸ hsame)).1
        obtain ⟨hn, hlegal⟩ := fillTargets_ok hfill hus hl
        rw [canConvert_true ho]
        simp only [pure_bind, if_true]
        refine Succeeds.bind (convertItems_succeeds types (by simpa using hn) hfirst fun i a t u ha hu hat hobstacle => ?_) fun es => ?_
        · have hu' : (us.map some)[i]? = some (some u) := by rw [List.getElem?_map, hu]; rfl
          obtain ⟨w, hw, hwl⟩ := hlegal _ (List.mem_of_getElem? hu')
          cases hw
          exact ih a (List.mem_of_getElem? ha) hat hwl (fun h => hb (.item hfill ha hu' h))
            fun hur => .inr (Ty.obstacle_stored hur hobstacle)
        · obtain ⟨u, hu, -⟩ := filledType_ok es hl
          simp only [hu, lift_ok, pure_bind]
          exact Succeeds.some
  | checked checked closed =>
    rw [convert]
    · exact convertValue_succeeds checked ht hread fun hp => hbound hb ht hp
    · rintro f rfl; cases closed
    · rintro n es rfl; cases closed

/-! ## Calls -/

theorem types_of_typesOf : ∀ {es : List Expr} {ts : List Ty}, typesOf es = .ok ts → es.map type? = ts.map some
  | [], _, h => by cases h; rfl
  | e :: es, _, h => by
    rw [typesOf] at h
    obtain ⟨t, ht, h⟩ := bind_eq_ok h
    obtain ⟨ts, hts, h⟩ := bind_eq_ok h
    cases h
    rw [List.map_cons, List.map_cons, type?_of_ok ht, types_of_typesOf hts]

theorem typesOf_of_types {es : List Expr} {ts : List Ty} (h : es.map type? = ts.map some) : typesOf es = .ok ts := by
  induction es generalizing ts with
  | nil =>
    cases ts with
    | nil => rfl
    | cons => cases h
  | cons e es ih =>
    cases ts with
    | nil => cases h
    | cons t ts =>
      obtain ⟨ht, hts⟩ := List.cons.inj h
      rw [typesOf, type_ok ht, ih hts]
      rfl

/-- All arguments that a candidate takes fit its parameters. -/
theorem fits_of_takes {accepts : Ty → Ty → Bool} : ∀ {args : List Expr} {ts ps : List Ty}, args.map type? = ts.map some →
    ((Argument.ofTypes ts (args.map isZeroConstant)).zip ps).all (fun q => q.1.fits accepts q.2) = true →
    ∀ q ∈ args.zip ps, ∃ t, q.1.type? = some t ∧ Argument.fits accepts ⟨t, q.1.isZeroConstant⟩ q.2 = true
  | [], _, _, _, _ => fun _ hq => by cases hq
  | _ :: _, [], _, hts, _ => by cases hts
  | _ :: _, _ :: _, [], _, _ => fun _ hq => by cases hq
  | a :: as, t :: ts, p :: ps, hts, hall => by
    obtain ⟨ht, hts⟩ := List.cons.inj hts
    rw [List.map_cons, Argument.ofTypes, List.zip_cons_cons, List.all_cons, Bool.and_eq_true] at hall
    intro q hq
    rcases List.mem_cons.mp hq with rfl | hq
    · exact ⟨t, ht, hall.1⟩
    · exact fits_of_takes hts hall.2 q hq

/-- Checked in some session, the arguments of a call of a name are such that it resolves to a function. -/
def Resolves (T : Target) (f : FunctionName) (args as : List Expr) (c : Symbol) : Prop :=
  ∃ (s s' : Session) (types : List Ty), s.target = T ∧ (checkEach false args).run s = (.ok (some as), s') ∧
    typesOf as = .ok types ∧ Spmd.resolve f.candidates (Argument.ofTypes types (as.map isZeroConstant)) = .resolved c

theorem resolves_converts {f : FunctionName} {args as : List Expr} {c : Symbol} (hf : ∀ s ∈ f.candidates, s.type.Stated)
    (hargs : ∀ a ∈ args, Everywhere (Prepared T) a) (h : Resolves T f args as c) :
    ∃ sig, c.signature? = some sig ∧ sig.parameters.length = as.length ∧
      ∀ q ∈ as.zip sig.parameters, Unbound q.1 q.2 ∨ ∀ context, Succeeds T (convert q.1 q.2 context) := by
  obtain ⟨s, s', types, hs, hrun, htypes, hresolved⟩ := h
  have hoperands : ∀ a ∈ as, Operand T a := fun a ha => by
    have hdelivers := (Delivers.law T).checkEach false fun a ha => check_delivers (hargs a ha)
    obtain ⟨_, -, hoperand⟩ := Forall₂.exists_of_mem ((hdelivers.yields s hs _ s' hrun).1 as rfl) ha
    exact hoperand
  have hmap := types_of_typesOf htypes
  obtain ⟨hmem, htakes⟩ := resolve_takes hresolved
  obtain ⟨sig, hsig, hn⟩ := htakes.elim takes_signature takes_signature
  have hlen : types.length = as.length := by simpa using (congrArg List.length hmap).symm
  have hstated : ∀ p ∈ sig.parameters, p.Stated := by
    have hc := hf c hmem
    unfold Symbol.signature? at hsig
    cases hct : c.type with
    | function r ps task o =>
      rw [hct] at hc hsig
      cases hsig
      exact (Ty.allStated_iff ps).mp hc.2
    | _ => rw [hct] at hsig; cases hsig
  refine ⟨sig, hsig, by rw [hn, length_ofTypes, hlen], fun q hq => or_iff_not_imp_left.mpr fun hb context => ?_⟩
  have hp := hstated q.2 (List.of_mem_zip hq).2
  have hcovers : ∀ accepts, c.takes accepts (Argument.ofTypes types (as.map isZeroConstant)) = true →
      ∃ t, q.1.type? = some t ∧ Argument.fits accepts ⟨t, q.1.isZeroConstant⟩ q.2 = true := by
    intro accepts ht
    unfold Symbol.takes at ht
    rw [hsig] at ht
    exact fits_of_takes hmap (Bool.and_eq_true_iff.mp ht).2 q hq
  have hnull : ∀ t, (q.1.isZeroConstant && t.acceptsNull q.2) = true → becomesNull q.1 t q.2 = true := by
    intro t h
    simp only [Ty.acceptsNull, Bool.and_eq_true] at h
    simp only [becomesNull, h.1, h.2.1, h.2.2, Bool.or_true, Bool.and_self]
  rcases htakes with ht | ht
  · obtain ⟨t, ht, hfits⟩ := hcovers _ ht
    refine convert_succeeds (hoperands q.1 (List.of_mem_zip hq).1) ht hp.legal hb fun hr => ?_
    exact ((Bool.or_eq_true _ _).mp hfits).imp (hnull t) (Ty.obstacle_of_matches hr)
  · obtain ⟨t, ht, hfits⟩ := hcovers _ ht
    refine convert_succeeds (hoperands q.1 (List.of_mem_zip hq).1) ht hp.legal hb fun hr => ?_
    exact ((Bool.or_eq_true _ _).mp hfits).imp (hnull t) fun h => Ty.obstacle_stored hr (Option.isNone_iff_eq_none.mp h)

end Check

open Check

variable {target : Target} {file : String} {json : Option Json} {p : Program} {e : Expr}

/-- In an expression of a program, the arguments of a call convert to the parameters of the function that the called name resolves
to, but for those that cannot be bound to a reference. -/
theorem resolved_converts (hp : Program.read target file json = .ok p) (he : e ∈ p.expressions) :
    e.Everywhere fun n => ∀ node f args launch count signature, n = .call node (.function f) args launch count signature →
      ∀ as c, Resolves target f args as c → ∃ sig, c.signature? = some sig ∧ sig.parameters.length = as.length ∧
        ∀ q ∈ as.zip sig.parameters, Expr.Unbound q.1 q.2 ∨ ∀ context, Succeeds target (convert q.1 q.2 context) := by
  have hloaded := Program.loaded hp he
  clear he
  induction hloaded with
  | @node n here below ih =>
    refine .node ?_ ih
    rintro node f args launch count signature rfl as c h
    have hf := (below (.function f) (by simp [Expr.children])).here
    exact resolves_converts hf.2.2 (fun a ha => Expr.prepared_of_loaded (below a (by simp [Expr.children, ha]))) h

/-! ## Two functions of a name -/

/-- The call `f(arg)`, where two functions are named `f`, in a program with another symbol. -/
def overloadsJson (first second : Json) (other : String × Json) (arg : Json) : Json :=
  programJson [("f", functionJson "void" [first]), ("f", functionJson "void" [second]), other]
    (.object [("call", .object [("symbol", .string "f")]), ("args", .array [arg])])

def overloads (first second : Ty) : FunctionName :=
  { node := {}, name := "f", candidates := [procedure [first], procedure [second]] }

def overloadsCall (first second : Ty) (arg : Expr) : Expr := .call {} (.function (overloads first second)) [arg] false none none

def counter : Expr := .symbol (.typed none .int32) ⟨"v", .int32, .local, none, none⟩

/-- The call `f(v)`, with a variable `v` of type `int32`, where the parameters are a reference to `int32` and an `int64`. -/
theorem boundCall_read : ∃ scope, Program.read .standard "program" (some (overloadsJson (.object [("reference", .string "int32")])
    (.string "int64") ("v", .string "int32") (.object [("symbol", .string "v")]))) =
      .ok ⟨scope, [overloadsCall (.reference .int32) (.basic .int64) counter]⟩ := ⟨_, rfl⟩

theorem resolved_converts_bound : ∃ sig, (procedure [.reference .int32]).signature? = some sig ∧ sig.parameters.length = 1 ∧
    ∀ q ∈ [counter].zip sig.parameters, Expr.Unbound q.1 q.2 ∨ ∀ context, Succeeds .standard (convert q.1 q.2 context) := by
  obtain ⟨scope, hread⟩ := boundCall_read
  have hresolves : Resolves .standard (overloads (.reference .int32) (.basic .int64)) [counter] [counter]
      (procedure [.reference .int32]) := ⟨{ target := .standard }, _, [.int32], rfl, rfl, rfl, rfl⟩
  exact (resolved_converts hread (List.mem_singleton_self _)).here _ _ _ _ _ _ rfl _ _ hresolves

/-- The conversion of an argument gives an expression. -/
def Passes (arg : Expr) (parameter : Ty) : Prop :=
  ∃ t, ((convert arg parameter "function call argument").run { target := .standard }).1 = .ok (some t)

/-- The conversion of an argument gives nothing. -/
def Fails (arg : Expr) (parameter : Ty) : Prop :=
  ((convert arg parameter "function call argument").run { target := .standard }).1 = .ok none

/-- The call `f(1)`, where the parameters are a reference to `int32` and an `int64`. -/
def literalCallJson : Json :=
  overloadsJson (.object [("reference", .string "int32")]) (.string "int64") ("v", .string "int32") oneJson

def getterJson : Json := .object [("pointer", functionJson "int32" [])]

/-- The call `f(g)`, where the parameters are a pointer to a function and a `bool`, and `g` is stored as a function and is such a
pointer. -/
def misnamedCallJson : Json :=
  .object [("symbols", .array [.object [("name", .string "f"), ("type", functionJson "void" [getterJson])],
      .object [("name", .string "f"), ("type", functionJson "void" [.string "bool"])],
      .object [("name", .string "g"), ("storage", .string "function"), ("type", getterJson)]]),
    ("expressions", .array [.object [("call", .object [("symbol", .string "f")]), ("args", .array [.object [("symbol", .string "g")]])]])]

def getterPointer : Ty := .pointer (.function .int32 [] false) {}

/-- The name `g`, before and after it is checked. -/
def misnamed (type : Option Ty) : Expr :=
  .function { node := { type }, name := "g", candidates := [⟨"g", getterPointer, .function, none, none⟩] }

/-- A literal matches a reference to its type, and a name that is stored as a function matches its own type. Neither converts,
while both convert to the parameter of the other function. -/
theorem resolved_unbound :
    (∃ scope, Program.read .standard "program" (some literalCallJson) =
        .ok ⟨scope, [overloadsCall (.reference .int32) (.basic .int64) one]⟩ ∧
      Resolves .standard (overloads (.reference .int32) (.basic .int64)) [one] [one] (procedure [.reference .int32]) ∧
      Fails one (.reference .int32) ∧ Passes one (.basic .int64)) ∧
    ∃ scope, Program.read .standard "program" (some misnamedCallJson) =
        .ok ⟨scope, [overloadsCall getterPointer .bool (misnamed none)]⟩ ∧
      Resolves .standard (overloads getterPointer .bool) [misnamed none] [misnamed (some getterPointer)] (procedure [getterPointer]) ∧
      Fails (misnamed (some getterPointer)) getterPointer ∧ Passes (misnamed (some getterPointer)) .bool :=
  ⟨⟨_, rfl, ⟨{ target := .standard }, _, [Ty.int32.asConst], rfl, rfl, rfl, rfl⟩, rfl, _, rfl⟩,
    ⟨_, rfl, ⟨{ target := .standard }, _, [getterPointer], rfl, rfl, rfl, rfl⟩, rfl, _, rfl⟩⟩

end Spmd
