import Spmd.Proofs.Typing.Program
import Spmd.Proofs.WellTyped.Operator

/-!
# Checking builds well-typed trees

Every node of what checking an expression gives follows the rule of typing of its form (`typecheck_wellTyped`).
-/

namespace Spmd

namespace Check

open Spmd.Expr

variable {T : Target} {e : Expr} {t : Ty}

/-! ## Access -/

section
variable (he : Operand T e) (hw : Everywhere WellTyped e) (hs : e.type? = some t) (node : Node)
include hw hs

theorem checkIndex_wellTyped {position : Expr} (hp : Operand T position) (hwp : Everywhere WellTyped position) {u : Ty}
    (hu : position.type? = some u) : Yields T (checkIndex node e position) (Everywhere WellTyped) := by
  unfold checkIndex
  simp only [type_ok hs, type_ok hu, lift_ok, pure_bind]
  split
  · exact Yields.reject _ _
  · rename_i element varying hi
    split
    · exact Yields.reject _ _
    · refine Yields.bind (convert_typed hp hwp _ (Ty.legal_basic _ _) rfl) (fun i hi' => ?_) Yields.none
      have hvar : i.isVarying = u.rvalue.isVarying := hi'.2.isVarying_eq
      dsimp only
      split
      · exact Yields.reject _ _
      · refine Yields.some (.two ⟨t, element, varying, hs, hi, ?_⟩ rfl hw hi'.1)
        rw [hvar]
        rfl

theorem checkMember_wellTyped (name : String) (arrow : Bool) :
    Yields T (checkMember node e name arrow) (Everywhere WellTyped) := by
  unfold checkMember
  simp only [type_ok hs, lift_ok, pure_bind]
  split
  · exact Yields.reject _ _
  · rename_i aggregate varying hbase
    have hmember : ∀ (a : Access) (u : Ty), a.aggregate = aggregate → a.pickedType varying = some u →
        Everywhere WellTyped (memberOf node e name arrow a u) :=
      fun a u ha hu => .one ⟨t, aggregate, varying, a, hs, hbase, rfl, ha, hu.symm⟩ rfl hw
    split
    · unfold checkField
      dsimp only
      split
      · exact Yields.reject _ _
      · rename_i i u hfound
        obtain ⟨j, -, hj⟩ := Option.bind_eq_some_iff.mp hfound
        obtain ⟨u', hu', hpair⟩ := Option.map_eq_some_iff.mp hj
        cases hpair
        refine Yields.some (hmember _ _ rfl ?_)
        rw [Access.pickedType, hu']
        rfl
    · unfold checkSwizzle
      split
      · exact Yields.reject _ _
      · exact Yields.some (hmember _ _ rfl rfl)
    · exact Yields.reject _ _

theorem checkReference_wellTyped : Yields T (checkReference node e) (Everywhere WellTyped) := by
  unfold checkReference
  simp only [type_ok hs, lift_ok, pure_bind]
  split
  · exact Yields.some hw
  · rename_i hr
    have hnr : t.isReference = false := by simpa using hr
    refine Gives.lift fun b hb => ?_
    split
    · rename_i hass
      subst hass
      refine Gives.lift fun u hu => Yields.some ?_
      rw [Ty.referenceTo, hnr, if_neg Bool.false_ne_true] at hu
      cases hu
      exact .one ⟨t, hs, hnr, rfl, isStorage_of_assignable hb⟩ rfl hw
    · exact Yields.reject _ _

theorem checkDereference_wellTyped : Yields T (checkDereference node e) (Everywhere WellTyped) := by
  unfold checkDereference
  simp only [type_ok hs, lift_ok, pure_bind]
  split
  · exact Yields.some (.one ⟨_, _, hs, rfl, rfl⟩ rfl hw)
  · split
    · exact Yields.reject _ _
    · exact Yields.some (.one ⟨_, _, hs, rfl, rfl⟩ rfl hw)
  · exact Yields.reject _ _

omit hs in
theorem checkAddressOf_wellTyped : Yields T (checkAddressOf node e) (Everywhere WellTyped) := by
  unfold checkAddressOf
  split
  · rename_i f
    split
    · exact Yields.reject _ _
    · exact Gives.lift fun u hu => Yields.some (.one ⟨fun _ => ⟨u, type?_of_ok hu, rfl⟩, nofun⟩ rfl hw)
  · rename_i hname
    have hn : e.isFunctionName = false := by
      cases e with
      | function f => exact absurd rfl (hname f)
      | _ => rfl
    refine Gives.lift fun a ha => ?_
    split
    · refine Yields.some (.one ⟨fun h => ?_, fun _ => ⟨_, ha, rfl⟩⟩ rfl hw)
      rw [hn] at h
      cases h
    · exact Yields.reject _ _

end

/-! ## Calls -/

/-- What is called goes by its type: only a varying pointer to a function makes a call varying. -/
structure Applies (callee : Callee) : Prop where
  wellTyped : Everywhere WellTyped callee.expr
  varying_eq : callee.varying = callee.expr.isVarying
  name_uniform : callee.expr.isFunctionName = true → callee.expr.isVarying = false

theorem signature_uniform {s : Symbol} {sig : Signature} (h : s.signature? = some sig) : s.type.isVarying = false := by
  unfold Symbol.signature? at h
  cases ht : s.type with
  | function => rfl
  | _ => rw [ht] at h; cases h

theorem signatureBehind_varying {s : Signature} {varying : Bool} (h : signatureBehind? t = some (s, varying)) :
    varying = t.isVarying := by
  unfold signatureBehind? at h
  split at h <;> cases h
  · rfl
  · rfl

theorem calledByName_wellTyped {f : FunctionName} (hf : Known f) {args : List Expr} (hargs : ∀ a ∈ args, Operand T a) :
    Yields T (calledByName f args) Applies := by
  unfold calledByName
  refine Gives.bind (Meets.gives (resolvedAll_meets hargs)) fun b _ => ?_
  split
  · exact Yields.none
  · refine Gives.lift fun types _ => Gives.bind (Meets.gives (resolve_meets hf _)) fun r hr => ?_
    obtain ⟨found, f'⟩ := r
    obtain ⟨new, hr⟩ := hr
    cases found with
    | none => exact Yields.none
    | some s =>
      obtain ⟨-, hset, sig, hsig, -⟩ := hr
      simp only [Option.bind_some, hsig]
      have hvarying : (Expr.function f').isVarying = s.type.isVarying := Expr.isVarying_eq hset.type_eq
      have huniform := hvarying.trans (signature_uniform hsig)
      exact Yields.some ⟨function_wellTyped hset.type_function, huniform.symm, fun _ => huniform⟩

theorem calledByValue_wellTyped (node : Node) {callee : Expr} (hc : Checked T callee) (hw : Everywhere WellTyped callee)
    (hn : callee.isFunctionName = false) {args : List Expr} : Yields T (calledByValue node callee args) Applies := by
  obtain ⟨t, ht, -⟩ := hc.typed
  unfold calledByValue
  simp only [type_ok ht, lift_ok, pure_bind]
  split
  · exact Yields.reject _ _
  · rename_i s varying hs
    split
    · refine Yields.some ⟨hw, ?_, fun h => ?_⟩
      · rw [signatureBehind_varying hs, Ty.isVarying_rvalue, Expr.isVarying_eq ht]
      · rw [hn] at h
        cases h
    · exact Yields.reject _ _

section
variable {args : List Expr} (hargs : ∀ a ∈ args, Operand T a) (hwa : ∀ a ∈ args, Everywhere WellTyped a)
include hargs hwa

theorem convertArguments_wellTyped {ps : List Ty} (hn : ps.length = args.length) (hps : ∀ p ∈ ps, p.Legal) :
    Yields T (convertArguments args ps) fun as => ∀ a ∈ as, Everywhere WellTyped a := by
  induction args generalizing ps with
  | nil => exact Yields.some nofun
  | cons a as ih =>
    cases ps with
    | nil => cases hn
    | cons p ps =>
      rw [convertArguments]
      have hfirst := convert_wellTyped (hargs a List.mem_cons_self) (hwa a List.mem_cons_self) "function call argument"
        (hps p List.mem_cons_self)
      have hrest := ih (fun c hc => hargs c (List.mem_cons_of_mem _ hc)) (fun c hc => hwa c (List.mem_cons_of_mem _ hc))
        (by simpa using hn) (fun q hq => hps q (List.mem_cons_of_mem _ hq))
      refine Yields.both hfirst hrest (fun b bs hb hbs => Yields.some fun c hc => ?_) (fun _ => Yields.none)
        (fun _ => Yields.none)
      rcases List.mem_cons.mp hc with rfl | hc
      · exact hb
      · exact hbs c hc

omit hargs hwa in
theorem launchCount_wellTyped (node : Node) {count : Option Expr} (hcount : ∀ n, count = some n → Operand T n)
    (hwn : ∀ n, count = some n → Everywhere WellTyped n) :
    Yields T (launchCount node count) (Everywhere WellTyped) := by
  unfold launchCount
  cases count with
  | some n =>
    simp only [pure_bind]
    exact convert_wellTyped (hcount n rfl) (hwn n rfl) _ (Ty.legal_basic _ _)
  | none =>
    refine Yields.target ?_
    obtain ⟨v, hv, hsuits⟩ := Literal.ofScalars_ok T.width ⟨.basic .int32, {}, none⟩ [.int 1] (.inl rfl)
    simp only [Ty.int32, Ty.basic, hv, lift_ok, pure_bind]
    exact convert_wellTyped (.checked (literal_checked hsuits _) rfl) (.leaf trivial rfl) _ (Ty.legal_basic _ _)

theorem applyCallee_wellTyped (node : Node) {callee : Callee} (hc : Callable T args.length callee) (ha : Applies callee)
    (launch : Bool) {count : Option Expr} (hcount : ∀ n, count = some n → Operand T n)
    (hwn : ∀ n, count = some n → Everywhere WellTyped n) :
    Yields T (applyCallee node callee args launch count) (Everywhere WellTyped) := by
  have hcall : ∀ {as : List Expr} {launch : Bool} {n : Option Expr}, (∀ a ∈ as, Everywhere WellTyped a) →
      (∀ m, n = some m → Everywhere WellTyped m) → n.isSome = launch →
      Everywhere WellTyped (finishCall node callee as launch n) := by
    intro as launch n has hn hlaunch
    refine .node ⟨⟨callee.signature, rfl, ?_⟩, ha.name_uniform, hlaunch⟩ fun c hm => ?_
    · rw [← ha.varying_eq]
      rfl
    · simp only [finishCall, children, List.cons_append, List.mem_cons, List.mem_append, Option.mem_toList] at hm
      rcases hm with rfl | hm | hm
      · exact ha.wellTyped
      · exact has c hm
      · exact hn c hm
  unfold applyCallee
  split
  · exact Yields.reject _ _
  · refine Yields.bind (convertArguments_wellTyped hargs hwa hc.count_eq hc.parameters) (fun as has => ?_) Yields.none
    dsimp only
    cases launch with
    | true =>
      rw [if_pos rfl]
      refine Yields.bind (launchCount_wellTyped node hcount hwn) (fun n hn => Yields.some ?_) Yields.none
      exact hcall has (fun m hm => by cases hm; exact hn) rfl
    | false =>
      rw [if_neg Bool.false_ne_true]
      exact Yields.some (hcall has (fun _ hm => by cases hm) rfl)

theorem checkCall_wellTyped (node : Node) {callee : Expr} (hc : Operand T callee)
    (htakes : ∀ f, callee = .function f → f.Takes args.length) (hw : Everywhere WellTyped callee)
    (launch : Bool) {count : Option Expr} (hcount : ∀ n, count = some n → Operand T n)
    (hwn : ∀ n, count = some n → Everywhere WellTyped n) :
    Yields T (checkCall node callee args launch count) (Everywhere WellTyped) := by
  have happly : ∀ b, Callable T args.length b ∧ Applies b →
      Yields T (applyCallee node b args launch count) (Everywhere WellTyped) := fun b hb =>
    applyCallee_wellTyped hargs hwa node hb.1 hb.2 launch hcount hwn
  have hvalue : Checked T callee → callee.isFunctionName = false →
      Yields T (calledByValue node callee args) fun b => Callable T args.length b ∧ Applies b := fun hc hn =>
    Yields.and (calledByValue_delivers node hc).yields (calledByValue_wellTyped node hc hw hn)
  unfold checkCall
  cases hc with
  | name known =>
    have hname := Yields.and (calledByName_delivers hargs known (htakes _ rfl)).yields (calledByName_wellTyped known hargs)
    exact Yields.bind hname happly Yields.none
  | list type_eq types below =>
    exact Yields.bind (hvalue ((Operand.list type_eq types below).toChecked type_eq) rfl) happly Yields.none
  | checked checked closed =>
    dsimp only
    split
    · cases closed
    · rename_i hname
      have hn : callee.isFunctionName = false := by
        cases callee with
        | function f => exact absurd rfl (hname f)
        | _ => rfl
      exact Yields.bind (hvalue checked hn) happly Yields.none

end

/-! ## Lists, casts, sizes and allocations -/

theorem elementAt_list {ts : List Ty} {items : List Expr} (h : items.map type? = ts.map some) {i : Nat}
    (hi : items[i]? = some e) : ∃ t, ts[i]? = some t ∧ e.type? = some t := by
  have hmap := congrArg (·[i]?) h
  simp only [List.getElem?_map, hi, Option.map_some] at hmap
  obtain ⟨t, ht, hte⟩ := Option.map_eq_some_iff.mp hmap.symm
  exact ⟨t, ht, hte.symm⟩

theorem checkList_wellTyped (node : Node) {items : List Expr} (hitems : ∀ e ∈ items, Operand T e ∧ ∃ t, e.type? = some t)
    (hw : ∀ e ∈ items, Everywhere WellTyped e) : Yields T (checkList node items) (Everywhere WellTyped) := by
  obtain ⟨ts, hts, hmap⟩ := typesOf_ok fun e he => (hitems e he).2
  unfold checkList
  simp only [hts, lift_ok, pure_bind]
  refine Yields.some (.node ⟨.list ts, rfl, fun i c hc => ?_⟩ hw)
  obtain ⟨t, ht, htype⟩ := elementAt_list hmap hc
  have hchecked := (hitems c (List.mem_of_getElem? hc)).1.toChecked htype
  exact ⟨t, ht, (hasType_of_type htype).fits_of_checked hchecked⟩

theorem checkCast_wellTyped (node : Node) (he : Operand T e) (hw : Everywhere WellTyped e) {target : Ty} (ht : target.Legal) :
    Yields T (checkCast node target e) (Everywhere WellTyped) := by
  unfold checkCast
  split
  · exact convert_wellTyped he hw _ ht
  · refine Gives.lift fun source hs => ?_
    have htype := type?_of_ok hs
    split
    · rename_i hnull
      simp only [becomesNull, Bool.and_eq_true, Bool.not_eq_true'] at hnull
      obtain ⟨⟨hp, -⟩, hvar⟩ := hnull
      refine Yields.some (.one ⟨source, htype, fun hr => ?_, fun hv => .inl ?_⟩ rfl hw)
      · rw [Ty.isReference_of_pointer hp] at hr
        cases hr
      · rw [hv, Bool.true_and] at hvar
        exact Ty.isVarying_of_not_uniform hvar
    · refine canConvert_yields (fun ho => Yields.some ?_) Yields.none
      exact cast_wellTyped hw htype (he.legal htype) ho false

theorem checkSizeOf_wellTyped (node : Node) (hw : Everywhere WellTyped e) (hs : e.type? = some t) :
    Yields T (checkSizeOf node e) (Everywhere WellTyped) := by
  unfold checkSizeOf
  simp only [type_ok hs, lift_ok, pure_bind]
  split
  · exact Yields.reject _ _
  · exact Yields.target (Yields.some (.one trivial rfl hw))

theorem checkNew_wellTyped (node : Node) {allocated : Ty} (ht : allocated.Legal) {count init : Option Expr} (varying : Bool)
    (hcount : ∀ n, count = some n → Operand T n ∧ ∃ t, n.type? = some t) (hinit : ∀ e, init = some e → Operand T e)
    (hwc : ∀ n, count = some n → Everywhere WellTyped n) (hwi : ∀ e, init = some e → Everywhere WellTyped e) :
    Yields T (checkNew node allocated count init varying) (Everywhere WellTyped) := by
  have hnew : ∀ {n e : Option Expr}, (∀ c ∈ n, Everywhere WellTyped c ∧ c.isReference = false) →
      (∀ c ∈ e, Everywhere WellTyped c ∧ c.Fits allocated) → Everywhere WellTyped (newOf node allocated varying n e) := by
    intro n e hn he
    refine .node ⟨rfl, fun c hc => (hn c hc).2, fun c hc => (he c hc).2⟩ fun c hm => ?_
    simp only [newOf, children, List.mem_append, Option.mem_toList] at hm
    rcases hm with hm | hm
    · exact (hn c hm).1
    · exact (he c hm).1
  have hnone : ∀ {P : Expr → Prop}, ∀ c ∈ (none : Option Expr), P c := fun c hc => by cases hc
  unfold checkNew
  split
  · exact Yields.reject _ _
  · rename_i c
    obtain ⟨hc, t, hs⟩ := hcount c rfl
    have hcounted : Yields T (allocationCount node c varying) fun c => Everywhere WellTyped c ∧ c.isReference = false := by
      unfold allocationCount
      simp only [type_ok hs, lift_ok, pure_bind]
      split
      · exact Yields.reject _ _
      · exact Yields.mono (convert_typed hc (hwc c rfl) _ (Ty.legal_basic _ _) rfl) fun _ h => ⟨h.1, h.2.isReference_eq⟩
    refine Yields.bind hcounted (fun c' hc' => Yields.some (hnew ?_ hnone)) Yields.none
    intro d hd
    cases hd
    exact hc'
  · rename_i e
    have hconverted := Yields.and (convert_wellTyped (hinit e rfl) (hwi e rfl) "\"new\" expression initializer" ht)
      (convert_delivers (hinit e rfl) _ ht).yields
    refine Yields.bind hconverted (fun e' he' => Yields.some (hnew hnone ?_)) Yields.none
    intro d hd
    cases hd
    exact ⟨he'.1, he'.2.2⟩
  · exact Yields.some (hnew hnone hnone)

/-! ## Expressions -/

theorem needed_yields {P : Expr → Prop} {m : Check (Option Expr)} (h : Delivers T m (Operand T)) (hp : Yields T m P) :
    Yields T (needed m) fun e => P e ∧ Operand T e ∧ ∃ t, e.type? = some t := by
  refine Yields.bind (Yields.and h.yields hp) (fun e he => ?_) Yields.none
  refine Yields.mono (resolved_delivers he.1).yields fun e' he' => ?_
  obtain ⟨rfl, ht⟩ := he'
  exact ⟨he.2, he.1, ht⟩

/-- What checking a tree gives is a well-typed tree. -/
theorem check_wellTyped (h : Everywhere (Prepared T) e) : Yields T (check e) (Everywhere WellTyped) := by
  refine check_keeps id h fun {e m} hp hm => ?_
  cases hm with
  | unary hc =>
    obtain ⟨hw, ho, t, ht⟩ := hc
    exact checkUnary_wellTyped ho hw ht _ _
  | step hc =>
    obtain ⟨hw, -, t, ht⟩ := hc
    exact checkStep_wellTyped hw ht _ _
  | binary hl hr =>
    obtain ⟨hwl, hl, t, ht⟩ := hl
    obtain ⟨hwr, hr, u, hu⟩ := hr
    exact checkBinary_wellTyped hl hr hwl hwr _ _ ht hu
  | set ht hv =>
    obtain ⟨hwt, ht, u, hu⟩ := ht
    exact checkAssign_wellTyped _ hu (ht.legal hu) hv.2 hwt hv.1 _ fun hn => absurd rfl hn
  | update hop ht hv =>
    obtain ⟨hwt, ht, u, hu⟩ := ht
    obtain ⟨hwv, hv, hw⟩ := hv
    exact checkAssign_wellTyped _ hu (ht.legal hu) hv hwt hwv _ fun _ => hw
  | select ht ha hb =>
    obtain ⟨hwt, ht, w, hw⟩ := ht
    obtain ⟨hwa, ha, u, hu⟩ := ha
    obtain ⟨hwb, hb, v, hv⟩ := hb
    exact checkSelect_wellTyped _ ht hw ha hu hb hv hwt hwa hwb
  | list hes => exact checkList_wellTyped _ (fun c hc => (hes c hc).2) fun c hc => (hes c hc).1
  | call hc hlength hargs hcount =>
    obtain ⟨hwc, hc, htakes⟩ := hc
    exact checkCall_wellTyped (fun a ha => (hargs a ha).2) (fun a ha => (hargs a ha).1) _ hc (hlength.symm ▸ htakes) hwc _
      (fun n hn => (hcount n hn).2) fun n hn => (hcount n hn).1
  | index hb hi =>
    obtain ⟨hwb, -, t, ht⟩ := hb
    obtain ⟨hwi, hi, u, hu⟩ := hi
    exact checkIndex_wellTyped hwb ht _ hi hwi hu
  | member hb =>
    obtain ⟨hw, -, t, ht⟩ := hb
    exact checkMember_wellTyped hw ht _ _ _
  | cast hc => exact checkCast_wellTyped _ hc.2 hc.1 hp
  | reference hc =>
    obtain ⟨hw, -, t, ht⟩ := hc
    exact checkReference_wellTyped hw ht _
  | dereference hc =>
    obtain ⟨hw, -, t, ht⟩ := hc
    exact checkDereference_wellTyped hw ht _
  | addressOf hc => exact checkAddressOf_wellTyped hc.1 _
  | sizeOf hc =>
    obtain ⟨hw, -, t, ht⟩ := hc
    exact checkSizeOf_wellTyped _ hw ht
  | new _ hcount hinit =>
    exact checkNew_wellTyped _ hp _ (fun n hn => (hcount n hn).2) (fun i hi => (hinit i hi).2) (fun n hn => (hcount n hn).1)
      fun i hi => (hinit i hi).1
  | void => exact Yields.reject _ _
  | sizeOfType =>
    unfold checkSizeOfType
    split
    · exact Yields.reject _ _
    · exact Yields.target (Yields.some (.leaf trivial rfl))
  | function =>
    rw [check]
    exact Gives.bind (Meets.gives (note_meets _)) fun _ _ => Yields.some (function_wellTyped (Known.type_eq hp))
  | const | symbol => exact Yields.some (.leaf trivial rfl)
  | sync => exact Yields.some (.leaf hp rfl)
  | null =>
    obtain ⟨t, ht, hvalue, -⟩ := hp
    exact Yields.some (.leaf ⟨t, ht, hvalue⟩ rfl)

end Check

open Check Spmd.Expr

/-- Every node of what checking an expression of a program gives follows the rule of typing of its form. -/
theorem typecheck_wellTyped {target : Target} {file : String} {json : Option Json} {p : Program} {e t : Expr}
    {s s' : Session} (hp : Program.read target file json = .ok p) (he : e ∈ p.expressions) (hs : s.target = target)
    (ht : (typecheck e).run s = (.ok (some t), s')) : Everywhere WellTyped t := by
  have hprepared := Program.prepared hp he
  have hyields := needed_yields (check_delivers hprepared) (check_wellTyped hprepared)
  exact ((hyields s hs _ _ ht).1 t rfl).1

end Spmd
