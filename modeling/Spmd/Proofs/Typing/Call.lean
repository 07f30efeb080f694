import Spmd.Proofs.Typing.Operator
import Spmd.Typing.Call

/-!
# The contract of checking calls

The arguments of a call get the types of the parameters of the function that is called, and the number of launched
tasks is a uniform `int32`.
-/

namespace Spmd

namespace Check

open Spmd.Expr

variable {T : Target}

/-! ## The called function -/

/-- What can be called with a number of arguments. -/
structure Callable (T : Target) (n : Nat) (callee : Callee) : Prop where
  checked : Checked T callee.expr
  called : ∃ t, callee.expr.type? = some t ∧ t.stored.called.sameIgnoringConst callee.signature.type
  count_eq : callee.signature.parameters.length = n
  parameters : ∀ p ∈ callee.signature.parameters, p.Legal
  result : callee.signature.result.Legal

theorem signature_legal {t : Ty} {s : Signature} (ht : t.Legal) (hs : t.signature? = some s) :
    (∀ p ∈ s.parameters, p.Legal) ∧ s.result.Legal := by
  cases t with
  | function r ps task o => cases hs; exact ⟨(Ty.allLegal_iff ps).mp ht.2, ht.1⟩
  | _ => cases hs

theorem signatureBehind_legal {t : Ty} {s : Signature} {varying : Bool} (ht : t.Legal)
    (hs : signatureBehind? t = some (s, varying)) : (∀ p ∈ s.parameters, p.Legal) ∧ s.result.Legal := by
  unfold signatureBehind? at hs
  split at hs <;> cases hs
  · exact ⟨(Ty.allLegal_iff _).mp ht.2, ht.1⟩
  · exact ⟨(Ty.allLegal_iff _).mp ht.2, ht.1⟩

theorem signature_called {t : Ty} {s : Signature} (hs : t.signature? = some s) :
    t.stored.called.sameIgnoringConst s.type = true := by
  cases t with
  | function r ps task o => cases hs; exact (Ty.sameIgnoringConst_iff _ _).mpr rfl
  | _ => cases hs

theorem signatureBehind_called {t u : Ty} {s : Signature} {varying : Bool} (hs : signatureBehind? t = some (s, varying))
    (hu : t.core = u.core) : u.called.sameIgnoringConst s.type = true := by
  rw [Ty.sameIgnoringConst_iff, ← Ty.called_core_eq hu]
  unfold signatureBehind? at hs
  split at hs <;> cases hs
  · rfl
  · rfl

theorem typesOf_ok : ∀ {es : List Expr}, (∀ e ∈ es, ∃ t, e.type? = some t) →
    ∃ ts, typesOf es = .ok ts ∧ es.map type? = ts.map some
  | [], _ => ⟨[], rfl, rfl⟩
  | e :: es, h => by
    obtain ⟨t, ht⟩ := h e List.mem_cons_self
    obtain ⟨ts, hts, hmap⟩ := typesOf_ok fun c hc => h c (List.mem_cons_of_mem _ hc)
    exact ⟨t :: ts, by rw [typesOf, type_ok ht, hts]; rfl, by rw [List.map_cons, List.map_cons, ht, hmap]⟩

theorem resolvedAll_meets : ∀ {es : List Expr}, (∀ e ∈ es, Operand T e) →
    Meets T (resolvedAll es) fun b new =>
      if b then Log.errors new = [] ∧ ∀ e ∈ es, ∃ t, e.type? = some t else Log.errors new ≠ []
  | [], _ => Meets.pure ⟨rfl, fun _ h => by cases h⟩
  | e :: es, h => by
    rw [resolvedAll]
    refine Meets.bind (resolved_delivers (h e List.mem_cons_self)) fun o new ho => ?_
    refine Meets.bind (resolvedAll_meets fun c hc => h c (List.mem_cons_of_mem _ hc)) fun b more hb => Meets.pure ?_
    rw [List.append_nil, Log.errors_append]
    cases o with
    | none =>
      rw [Option.isSome_none, Bool.false_and, if_neg Bool.false_ne_true]
      exact fun hn => ho (List.append_eq_nil_iff.mp hn).1
    | some e' =>
      cases b with
      | false =>
        rw [Bool.and_false, if_neg Bool.false_ne_true]
        exact fun hn => hb (List.append_eq_nil_iff.mp hn).2
      | true =>
        refine ⟨by rw [ho.1, hb.1]; rfl, fun c hc => ?_⟩
        rcases List.mem_cons.mp hc with rfl | hc
        · exact ho.2.2
        · exact hb.2 c hc

section
variable {args : List Expr} (hargs : ∀ a ∈ args, Operand T a)
include hargs

theorem calledByName_delivers {f : FunctionName} (hf : Known f) (hn : f.Takes args.length) :
    Delivers T (calledByName f args) (Callable T args.length) := by
  unfold calledByName
  refine Meets.bind (resolvedAll_meets hargs) fun b new hb => ?_
  cases b with
  | false =>
    refine Meets.pure ?_
    rw [List.append_nil]
    exact hb
  | true =>
    obtain ⟨hnew, htyped⟩ := hb
    obtain ⟨ts, hts, hmap⟩ := typesOf_ok htyped
    have hlen : args.length = ts.length := by simpa using congrArg List.length hmap
    simp only [Bool.not_true, Bool.false_eq_true, if_false, hts, lift_ok, pure_bind]
    refine Meets.bind (resolve_meets hf _) fun r more hr => ?_
    obtain ⟨found, f'⟩ := r
    cases found with
    | none =>
      refine Meets.pure ?_
      rw [List.append_nil]
      intro hn
      rw [Log.errors_append] at hn
      exact hr (List.append_eq_nil_iff.mp hn).2
    | some s =>
      obtain ⟨hmore, hset, sig, hsig, hcount⟩ := hr
      simp only [Option.bind_some, hsig]
      refine Meets.pure ⟨by rw [List.append_nil, Log.errors_append, hnew, hmore]; rfl, hset.checked,
        ⟨_, hset.type_eq, signature_called hsig⟩, ?_, ?_, ?_⟩
      · rcases hcount with hcount | hchosen
        · rw [hcount, length_ofTypes, hlen]
        · exact hn s sig hchosen hsig
      · exact (signature_legal hset.legal hsig).1
      · exact (signature_legal hset.legal hsig).2

omit hargs in
theorem calledByValue_delivers (node : Node) {callee : Expr} (hc : Checked T callee) :
    Delivers T (calledByValue node callee args) (Callable T args.length) := by
  obtain ⟨t, ht, hl⟩ := hc.typed
  unfold calledByValue
  simp only [type_ok ht, lift_ok, pure_bind]
  split
  · exact Delivers.reject _ _
  · rename_i s varying hs
    split
    · rename_i hn
      obtain ⟨hps, hr⟩ := signatureBehind_legal hl.rvalue hs
      exact Delivers.some ⟨hc, ⟨t, ht, signatureBehind_called hs (Ty.core_rvalue t)⟩, hn, hps, hr⟩
    · exact Delivers.reject _ _

/-! ## Arguments -/

theorem convertArguments_delivers {ps : List Ty} (hn : ps.length = args.length) (hps : ∀ p ∈ ps, p.Legal) :
    Delivers T (convertArguments args ps) fun as => List.Forall₂ Fits as ps ∧ ∀ a ∈ as, Checked T a := by
  induction args generalizing ps with
  | nil =>
    rw [List.length_nil, List.length_eq_zero_iff] at hn
    subst hn
    exact Delivers.some ⟨.nil, fun _ h => by cases h⟩
  | cons a as ih =>
    cases ps with
    | nil => cases hn
    | cons p ps =>
      rw [convertArguments]
      have hfirst := convert_delivers (hargs a List.mem_cons_self) "function call argument" (hps p List.mem_cons_self)
      have hlen : ps.length = as.length := by simpa using hn
      have hrest := ih (fun c hc => hargs c (List.mem_cons_of_mem _ hc)) hlen
        (fun q hq => hps q (List.mem_cons_of_mem _ hq))
      refine Delivers.both hfirst hrest (fun b bs hb hbs => Delivers.some ?_) (fun _ => rfl) (fun _ => rfl)
      refine ⟨.cons hb.2 hbs.1, fun c hc => ?_⟩
      rcases List.mem_cons.mp hc with rfl | hc
      · exact hb.1
      · exact hbs.2 c hc

/-! ## Calls -/

omit hargs in
theorem launchCount_delivers (node : Node) {count : Option Expr} (hcount : ∀ n, count = some n → Operand T n) :
    Delivers T (launchCount node count) fun n => Checked T n ∧ n.HasType .int32 := by
  have hconvert : ∀ n, Operand T n → Delivers T (convert n .int32 "task launch count")
      fun n => Checked T n ∧ n.HasType .int32 :=
    fun n hn => convert_value_delivers hn _ (Ty.legal_basic _ _) rfl
  unfold launchCount
  cases count with
  | some n =>
    simp only [pure_bind]
    exact hconvert n (hcount n rfl)
  | none =>
    refine Delivers.target ?_
    obtain ⟨v, hv, hsuits⟩ := Literal.ofScalars_ok T.width ⟨.basic .int32, {}, none⟩ [.int 1] (.inl rfl)
    simp only [Ty.int32, Ty.basic, hv, lift_ok, pure_bind]
    exact hconvert _ (.checked (literal_checked hsuits _) rfl)

theorem applyCallee_delivers (node : Node) {callee : Callee} (hc : Callable T args.length callee) (launch : Bool)
    {count : Option Expr} (hcount : ∀ n, count = some n → Operand T n) :
    Delivers T (applyCallee node callee args launch count) (Operand T) := by
  have hcall : ∀ {as : List Expr} {n : Option Expr}, List.Forall₂ Fits as callee.signature.parameters →
      (∀ a ∈ as, Checked T a) → (∀ m, n = some m → Checked T m ∧ m.HasType .int32) →
      Operand T (finishCall node callee as launch n) := by
    intro as n hfits has hn
    refine .checked (.node ⟨⟨callee.resultType, rfl, ?_⟩, ?_, trivial⟩ fun c hm => ?_) rfl
    · unfold Callee.resultType
      dsimp only
      split
      · exact hc.result.withVariability _
      · exact hc.result
    · obtain ⟨t, ht, hcalled⟩ := hc.called
      exact ⟨callee.signature, t, rfl, ht, hcalled, hfits, fun m hm => (hn m hm).2⟩
    · simp only [finishCall, children, List.cons_append, List.mem_cons, List.mem_append, Option.mem_toList] at hm
      rcases hm with rfl | hm | hm
      · exact hc.checked
      · exact has c hm
      · exact (hn c hm).1
  unfold applyCallee
  split
  · exact Delivers.reject _ _
  · refine Delivers.bind (convertArguments_delivers hargs hc.count_eq hc.parameters) (fun as has => ?_) rfl
    dsimp only
    cases launch with
    | true =>
      rw [if_pos rfl]
      refine Delivers.bind (launchCount_delivers node hcount) (fun n hn => Delivers.some ?_) rfl
      exact hcall has.1 has.2 fun m hm => by cases hm; exact hn
    | false =>
      rw [if_neg Bool.false_ne_true]
      exact Delivers.some (hcall has.1 has.2 fun m hm => by cases hm)

theorem checkCall_delivers (node : Node) {callee : Expr} (hc : Operand T callee)
    (hn : ∀ f, callee = .function f → f.Takes args.length) (launch : Bool)
    {count : Option Expr} (hcount : ∀ n, count = some n → Operand T n) :
    Delivers T (checkCall node callee args launch count) (Operand T) := by
  have happly : ∀ b, Callable T args.length b → Delivers T (applyCallee node b args launch count) (Operand T) :=
    fun _ hb => applyCallee_delivers hargs node hb launch hcount
  unfold checkCall
  cases hc with
  | name known => exact Delivers.bind (calledByName_delivers hargs known (hn _ rfl)) happly rfl
  | list type_eq types below =>
    have hcallee := (Operand.list type_eq types below).toChecked type_eq
    exact Delivers.bind (calledByValue_delivers node hcallee) happly rfl
  | checked checked closed =>
    dsimp only
    split
    · cases closed
    · exact Delivers.bind (calledByValue_delivers node checked) happly rfl

end

end Check

end Spmd
