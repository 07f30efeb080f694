import Spmd.Proofs.Typing.Update

/-!
# Compound assignments

`x op= y` and `x = x op y` are both refused, or both accepted with the type that `x` is stored as (`typecheck_compound_alike`),
unless `x` names what is stored as a function and refers to a pointer to a function: then the assignment is refused, whatever
the compound one is (`typecheck_sum_refused`). The operator of the assignment gives a value that converts back to what is stored
exactly where it updates it (`Check.Sums`).
-/

namespace Spmd

namespace Expr

/-- What a compound assignment and an assignment set alike: it is no name of something stored as a function that refers to a
pointer to a function. -/
def Settable (e : Expr) : Prop :=
  ∀ f t o, e = .function f → e.type? = some (.reference t o) → Check.pointedParameters? t = none

end Expr

namespace Check

open Spmd.Expr

variable {T : Target} {x y : Expr} {s t u w : Ty} {node m : Node} {op : ArithOp} {context : String}

/-! ## Assignments of an operator's value -/

/-- What the operator of a form gives: a value that can be stored again if the operator updates what is stored. -/
def Sums (op : ArithOp) (s u : Ty) (d : Expr) : Prop :=
  ∃ n l r w, d = .binary n (.arith op) l r false ∧ n.type = some w ∧ w.isReference = false ∧
    (Ty.obstacle false w s = none ↔ Updates op s u)

theorem binaryOf_sums {l r : Expr} {v : Ty} (hr : v.isReference = false)
    (h : Ty.obstacle false v s = none ↔ Updates op s u) {a b : Ty} {context : String} :
    Yields T (do return binaryOf node (.arith op) v (← convertBoth l a r b context)) (Sums op s u) := by
  refine Yields.bind (Q := fun _ => True) ?_ (fun p _ => Yields.some ⟨_, p.1, p.2, v, rfl, rfl, hr, h⟩) Yields.none
  exact Yields.both (convert_any l a context) (convert_any r b context) (fun _ _ _ _ => Yields.some trivial)
    (fun _ => Yields.none) (fun _ => Yields.none)

theorem subtractPointers_sums {a b p p' : Ty} {q : Qualifiers} {o : Origin} (hq : q.isConst = false)
    (hu : u.rvalue.isIntegerScalar = false) :
    Yields T (subtractPointers node (.arith op) x y a b p p') (Sums op (.pointer p q o) u) := by
  unfold subtractPointers
  split
  · exact Yields.reject _ _
  split
  · exact Yields.reject _ _
  split
  · exact Yields.reject _ _
  refine Yields.target ?_
  obtain ⟨k, hk⟩ := Ty.sizeType_basic T (a.variability.join b.variability)
  dsimp only
  rw [hk]
  refine binaryOf_sums rfl ⟨fun ho => absurd ho (Ty.obstacle_scalar_pointer _), fun h => ?_⟩
  rw [updates_pointer hq, hu] at h
  cases h.2.1

theorem offsetLeft_sums {p b : Ty} {q : Qualifiers} {o o' : Origin} (hq : q.isConst = false) (hop : op = .add ∨ op = .sub)
    (hb : u.rvalue = b) :
    Yields T (offsetPointer node (.arith op) x y (.pointer p q o') b true) (Sums op (.pointer p q o) u) := by
  subst hb
  unfold offsetPointer
  simp only [if_true, Bool.not_true, Bool.false_eq_true, and_false, if_false]
  split
  · exact Yields.reject _ _
  · rename_i hint
    split
    · exact Yields.reject _ _
    · rename_i hvoid
      refine Yields.target (binaryOf_sums rfl ?_)
      refine (Ty.obstacle_moved hq _).trans (Iff.trans ?_ (updates_pointer hq).symm)
      exact ⟨fun hv => ⟨hop, by simpa using hint, Bool.eq_false_iff.mpr hvoid, hv⟩, fun h => h.2.2.2⟩

theorem offsetRight_sums {a : Ty} (hs : s.asNonConst = a) (hp : s.isPointer = false) (hl : s.Legal) (hlu : u.Legal)
    (hu : u.rvalue.element?.isSome = false) {b : Ty} (hb : b.isPointer = true) :
    Yields T (offsetPointer node (.arith op) x y a b false) (Sums op s u) := by
  unfold offsetPointer
  simp only [Bool.false_eq_true, if_false, Bool.not_false, and_true]
  split
  · exact Yields.reject _ _
  split
  · exact Yields.reject _ _
  rename_i hint
  split
  · exact Yields.reject _ _
  refine Yields.target ?_
  cases b with
  | pointer p q o =>
    refine binaryOf_sums rfl ⟨fun ho => ?_, fun h => ?_⟩
    · refine absurd ho (Ty.obstacle_pointer_integer ?_)
      subst hs
      cases s with
      | scalar =>
        rw [Bool.not_eq_true, Bool.not_eq_false'] at hint
        exact hint
      | _ => exact absurd rfl hint
    · obtain ⟨w, hw, -⟩ := h
      rw [updated_value u hp] at hw
      rw [(operands_reach hl hlu hw).2.1] at hu
      cases hu
  | _ => cases hb

theorem decayed_pointer {p : Ty} {q : Qualifiers} {o : Origin} (hp : t.stored = .pointer p q o) (hq : q.isConst = false) :
    decayed t = .pointer p q := by
  have hr : t.rvalue = .pointer p q := by
    obtain ⟨v, c⟩ := q
    obtain rfl : c = false := hq
    rw [Ty.rvalue_eq, hp]
    rfl
  rw [decayed_of_value (by rw [hr]; rfl), hr]

theorem convert_binary_keeps {n : Node} {b : BinaryOp} {l r : Expr} {k : Bool} (hd : Operand T (.binary n b l r k))
    (hn : n.type = some w) (hr : w.isReference = false) (hs : s.Legal) :
    Yields T (convert (.binary n b l r k) s context) fun _ => Ty.obstacle false w s = none := by
  have hpassed : Passed (.binary n b l r k) s := by
    refine ⟨fun _ hf => (by cases hf), fun hnull => (by cases hnull), fun t o ht => ?_⟩
    have hw : w = .reference t o := Option.some.inj (hn.symm.trans ht)
    rw [hw] at hr
    cases hr
  exact Yields.mono (convert_accepted hd hn hs hpassed context) fun _ h => obstacle_of_accepted h (Bool.false_and _)

theorem convert_binary_succeeds {n : Node} {b : BinaryOp} {l r : Expr} {k : Bool} (hd : Operand T (.binary n b l r k))
    (hn : n.type = some w) (hr : w.isReference = false) (hs : s.Legal) (hsr : s.isReference = false)
    (ho : Ty.obstacle false w s = none) : Succeeds T (convert (.binary n b l r k) s context) := by
  refine convert_succeeds hd hn hs (fun hu => ?_) fun _ => .inr (by rw [Ty.stored_of_not_reference hr]; exact ho)
  cases hu with
  | reference h _ => rw [hsr] at h; cases h

section
variable (hx : Operand T x) (ht : x.type? = some t) (hy : Operand T y) (hu : y.type? = some u)
include hx ht hy hu

theorem checkValues_sums (hp : t.stored.isPointer = false) :
    Yields T (checkValues m (.arith op) x y t.rvalue u.rvalue) (Sums op t.stored u) := by
  have hl := hx.legal ht
  have hlu := hy.legal hu
  unfold checkValues
  refine Gives.bind (Meets.gives (checkOperands_gives m.place op t.rvalue u.rvalue)) fun o ho => ?_
  obtain ⟨-, rfl⟩ := ho
  rw [operands_rvalue hl hlu]
  cases hw : operands? op t.stored u with
  | none => exact Yields.none
  | some w =>
    have hew := (operands_reach hl.stored hlu hw).2.2.1
    have hr : w.isReference = false := by
      cases w with
      | reference => cases hew
      | _ => rfl
    exact binaryOf_sums hr (updates_iff ((updated_value u hp).trans hw))

theorem checkPointers_sums (ha : Assignable x t.stored)
    (hp : (t.rvalue.isPointer || u.rvalue.isPointer || t.rvalue.isArray || u.rvalue.isArray) = true) :
    Yields T (checkPointers m (.arith op) x y) (Sums op t.stored u) := by
  have hl := (hx.legal ht).stored
  have harray : t.stored.isArray = false := (Bool.or_eq_false_iff.mp ha.isAggregate).1
  have hd : decayed t = t.stored.asNonConst := by
    rw [decayed_of_value (by rw [Ty.rvalue_isArray, harray]), Ty.rvalue_eq]
  have hconst := ha.isConst
  unfold checkPointers
  simp only [type_ok ht, type_ok hu, lift_ok, pure_bind, BinaryOp.isComparison, Bool.false_eq_true, if_false]
  split
  · exact Yields.reject _ _
  · rename_i hop
    have har := adds_or_subtracts hop
    have hpoints := decayed_points hp
    have hdu := decayed_isPointer u
    rw [hd] at hpoints ⊢
    -- what becomes a pointer is no number
    have hnumber : (decayed u).isPointer = true → u.rvalue.element?.isSome = false := by
      intro hpu
      rw [hpu] at hdu
      cases hr : u.rvalue <;> rw [hr] at hdu <;> first | rfl | cases hdu
    generalize t.stored = s at hl harray hconst hpoints ⊢
    cases s with
    | pointer p q o =>
      obtain ⟨v, c⟩ := q
      obtain rfl : c = false := hconst
      cases hb : decayed u with
      | pointer =>
        have hint : u.rvalue.isIntegerScalar = false := by
          have hnone := hnumber (by rw [hb]; rfl)
          cases hr : u.rvalue <;> rw [hr] at hnone <;> first | rfl | cases hnone
        exact subtractPointers_sums rfl hint
      | _ =>
        have hvalue : decayed u = u.rvalue := decayed_plain (by rw [hb]; rfl)
        exact offsetLeft_sums (q := ⟨v, false⟩) rfl har (hvalue.symm.trans hb)
    | array => cases harray
    | _ =>
      have hpu : (decayed u).isPointer = true := hpoints
      exact offsetRight_sums rfl rfl hl (hy.legal hu) (hnumber hpu) hpu

theorem checkBinary_sums (ha : Assignable x t.stored) : Yields T (checkBinary m (.arith op) x y) (Sums op t.stored u) := by
  rw [checkBinary_generic _ _ _ (.inr ⟨op, rfl⟩)]
  simp only [type_ok ht, type_ok hu, lift_ok, pure_bind]
  split
  · rename_i hp
    exact checkPointers_sums hx ht hy hu ha hp
  · rename_i hp
    simp only [Bool.or_eq_true, not_or, Bool.not_eq_true] at hp
    exact checkValues_sums hx ht hy hu (by rw [← Ty.rvalue_isPointer]; exact hp.1.1.1)

omit hx hy in
/-- A pointer that is updated is moved by an offset. -/
theorem checkBinary_offset {p : Ty} {q : Qualifiers} {o : Origin} (hp : t.stored = .pointer p q o) (hq : q.isConst = false)
    (h : Updates op (.pointer p q o) u) :
    checkBinary m (.arith op) x y = offsetPointer m (.arith op) x y (.pointer p q) u.rvalue true := by
  obtain ⟨hop, hint, -, -⟩ := (updates_pointer hq).mp h
  have hpointer : t.rvalue.isPointer = true := by
    rw [Ty.rvalue_isPointer, hp]
    rfl
  cases hr : u.rvalue with
  | scalar =>
    rw [checkBinary_generic _ _ _ (.inr ⟨op, rfl⟩)]
    simp only [type_ok ht, type_ok hu, lift_ok, pure_bind, hpointer, Bool.true_or, if_true]
    unfold checkPointers
    simp only [type_ok ht, type_ok hu, lift_ok, pure_bind, BinaryOp.isComparison, Bool.false_eq_true, if_false]
    rw [decayed_pointer hp hq, decayed_of_value (by rw [hr]; rfl), hr,
      if_neg fun hn => hop.elim (fun h => hn.1 (congrArg _ h)) fun h => hn.2 (congrArg _ h)]
  | _ => rw [hr] at hint; cases hint

theorem checkBinary_value_complete (hs : t.stored.isPointer = false) (h : Updates op t.stored u) :
    Meets T (checkBinary m (.arith op) x y) fun d _ => d.isSome = true := by
  have hl := hx.legal ht
  rw [checkBinary_generic _ _ _ (.inr ⟨op, rfl⟩)]
  simp only [type_ok ht, type_ok hu, lift_ok, pure_bind]
  obtain ⟨w, hw, -⟩ := h
  rw [updated_value u hs] at hw
  obtain ⟨het, heu, hew, hxw, hyw⟩ := operands_reach hl.stored (hy.legal hu) hw
  rw [Ty.rvalue_stored hl] at het
  rw [Ty.stored_stored hl] at hxw
  obtain ⟨htp, hta⟩ := Ty.flat_of_isSome het
  obtain ⟨hup, hua⟩ := Ty.flat_of_isSome heu
  simp only [htp, hta, hup, hua, Bool.or_self, Bool.false_eq_true, if_false]
  unfold checkValues
  refine Meets.bind (checkOperands_gives m.place op t.rvalue u.rvalue) fun o _ ho => ?_
  subst ho
  rw [operands_rvalue hl (hy.legal hu), hw, Option.map_some]
  have hboth : Succeeds T (convertBoth x w y w (BinaryOp.arith op).description) :=
    convertBoth_succeeds (convert_element_succeeds hx ht het hew hxw) (convert_element_succeeds hy hu heu hew hyw)
  refine Meets.bind hboth fun lr _ hlr => ?_
  obtain ⟨lr, rfl⟩ := Option.isSome_iff_exists.mp hlr.1
  exact Meets.pure rfl

theorem checkBinary_pointer_complete {p : Ty} {q : Qualifiers} {o : Origin} (hp : t.stored = .pointer p q o)
    (hq : q.isConst = false) (hname : ∀ f, x = .function f → pointedParameters? (.pointer p q) = none)
    (h : Updates op (.pointer p q o) u) :
    Meets T (checkBinary m (.arith op) x y) fun d _ => d.isSome = true := by
  obtain ⟨-, hint, hvoid, -⟩ := (updates_pointer hq).mp h
  have hmoved := offsetPointer_moves (n := m) (b := .arith op) hx ht hname hy hu (decayed_pointer hp hq)
    fun v => hp ▸ Ty.obstacle_to_pointer p q o v
  unfold moved? at hmoved
  rw [hint, hvoid, Bool.not_false, Bool.and_self, if_pos rfl] at hmoved
  rw [checkBinary_offset ht hu hp hq h]
  refine Meets.mono hmoved fun d _ hd => ?_
  cases hd
  rfl

theorem checkBinary_complete (hname : ∀ f, x = .function f → pointedParameters? t.stored = none) (ha : Assignable x t.stored)
    (h : Updates op t.stored u) : Meets T (checkBinary m (.arith op) x y) fun d _ => d.isSome = true := by
  cases hs : t.stored.isPointer with
  | false => exact checkBinary_value_complete hx ht hy hu hs h
  | true =>
    have hconst := ha.isConst
    cases hp : t.stored with
    | pointer p q o =>
      rw [hp] at h hname hconst
      refine checkBinary_pointer_complete hx ht hy hu hp hconst (fun f hf => ?_) h
      rw [pointedParameters_eq, hname f hf]
    | _ => rw [hp] at hs; cases hs

omit hx hy hu in
theorem settable_pointed (hset : x.Settable) (ha : Assignable x t.stored) :
    ∀ f, x = .function f → pointedParameters? t.stored = none := by
  rintro f rfl
  have hr : t.isReference = true := by
    have hs := ha.isStorage
    have hnone : (Expr.function f).addressType = .ok none := rfl
    unfold isStorage storageVariability at hs
    rw [hnone, type_ok ht] at hs
    by_contra hr
    simp only [Except.bind, bind, hr] at hs
    cases hs
  cases t with
  | reference r o => exact hset f r o rfl ht
  | _ => cases hr

theorem checkSum_delivers : Delivers T (checkBinary m (.arith op) x y >>= fun v =>
    withBoth (some x) v (checkAssign node .plain)) (Operand T) :=
  Delivers.bind (checkBinary_delivers hx hy m (.arith op) ht hu)
    (fun _ hv => checkAssign_delivers node (hx.toChecked ht) ht hv .plain fun h => absurd rfl h) rfl

/-- An assignment of an operator's value that is accepted stores what the compound assignment does. -/
theorem checkSum_sound : Yields T (checkBinary m (.arith op) x y >>= fun v => withBoth (some x) v (checkAssign node .plain))
    fun d => (Assignable x t.stored ∧ Updates op t.stored u) ∧ d.type? = some t.stored ∧ d.isFunctionName = false := by
  have hl := (hx.legal ht).stored
  have hsum : Yields T (checkBinary m (.arith op) x y) (Operand T) := (checkBinary_delivers hx hy m (.arith op) ht hu).yields
  by_cases ha : Assignable x t.stored
  · have hsums : Yields T (checkBinary m (.arith op) x y) (Sums op t.stored u) := checkBinary_sums hx ht hy hu ha
    refine Yields.bind (Yields.and hsums hsum) (fun d hd => ?_) Yields.none
    change Yields T (checkAssign node .plain x d) _
    refine checkAssign_yields ht fun _ => ?_
    obtain ⟨⟨n, l, r, w, rfl, hn, hr, hiff⟩, hd⟩ := hd
    refine Yields.bind (convert_binary_keeps hd hn hr hl) (fun v ho => ?_) Yields.none
    exact Yields.some ⟨⟨ha, hiff.mp ho⟩, rfl, rfl⟩
  · refine Yields.bind hsum (fun d _ => ?_) Yields.none
    change Yields T (checkAssign node .plain x d) _
    exact checkAssign_yields ht fun h => absurd h ha

theorem checkSum_complete (hset : x.Settable) (ha : Assignable x t.stored) (hupdates : Updates op t.stored u) :
    Meets T (checkBinary m (.arith op) x y >>= fun v => withBoth (some x) v (checkAssign node .plain)) fun d _ =>
      d.isSome = true := by
  have hl := hx.legal ht
  have hmade := Meets.and_gives (checkBinary_complete hx ht hy hu (settable_pointed ht hset ha) ha hupdates)
    (Yields.and (checkBinary_sums (m := m) hx ht hy hu ha) (checkBinary_delivers hx hy m (.arith op) ht hu).yields)
  refine Meets.bind hmade fun o _ ⟨hsome, hall⟩ => ?_
  obtain ⟨d, rfl⟩ := Option.isSome_iff_exists.mp hsome
  obtain ⟨⟨n, l, r, w, rfl, hn, hr, hiff⟩, hd⟩ := hall d rfl
  dsimp only [withBoth]
  rw [checkAssign_assigns .plain ht ha]
  refine Meets.bind (convert_binary_succeeds hd hn hr hl.stored (Ty.isReference_stored hl) (hiff.mpr hupdates)) fun v _ hv => ?_
  obtain ⟨v, rfl⟩ := Option.isSome_iff_exists.mp hv.1
  exact Meets.pure rfl

theorem checkSum_judged (hset : x.Settable) : Meets T (checkBinary m (.arith op) x y >>= fun v =>
    withBoth (some x) v (checkAssign node .plain)) fun d _ =>
      Judged (Assignable x t.stored ∧ Updates op t.stored u) t.stored d :=
  judged (checkSum_delivers hx ht hy hu) (checkSum_sound hx ht hy hu) fun h => checkSum_complete hx ht hy hu hset h.1 h.2

end

/-! ## Names that are not set -/

/-- What is stored as a function, and is none, is not picked for its parameters. -/
theorem pickOverload_misnamed {f : FunctionName} {ps : List Ty} (hf : Known f) (ht : f.node.type = some t)
    (hfun : t.isFunction = false) (hps : pointedParameters? w = some ps) : Yields T (pickOverload f w) fun _ => False := by
  obtain ⟨s, hs, hst⟩ := hf.found ht
  have hnone : s.signature? = none := by
    unfold Symbol.signature?
    rw [hst]
    cases t with
    | function => cases hfun
    | _ => rfl
  have hfresh : f.choice = {} := by
    refine hf.choice_cases.resolve_right ?_
    rintro ⟨s', -, hchosen, hsig⟩
    obtain rfl : s' = s := by
      rw [FunctionName.function?, hchosen] at hs
      exact Option.some.inj hs
    rw [hnone] at hsig
    cases hsig
  have htakes : ∀ accepts arguments, s.takes accepts arguments = false := by
    intro accepts arguments
    unfold Symbol.takes
    rw [hnone]
  unfold pickOverload
  rw [hps]
  refine Gives.bind (Meets.gives (resolve_single_meets ⟨hf, hfresh⟩ (candidates_of_function hfresh hs) _)) fun r hr =>
    Gives.pure fun f' hf' => ?_
  obtain ⟨-, hr⟩ := hr
  rw [htakes, htakes, Bool.or_self, if_neg Bool.false_ne_true] at hr
  rw [hr] at hf'
  cases hf'

theorem checkBinary_misnamed {f : FunctionName} {ps : List Ty} (hf : Known f) (ht : f.node.type = some t)
    (hu : y.type? = some u) (ha : Assignable (.function f) t.stored) (hps : pointedParameters? t.stored = some ps)
    (h : Updates op t.stored u) : Yields T (checkBinary m (.arith op) (.function f) y) fun _ => False := by
  have hconst := ha.isConst
  cases hp : t.stored with
  | pointer p q o =>
    rw [hp] at hconst hps h
    have hfun : t.isFunction = false := by
      cases t with
      | function => cases hp
      | _ => rfl
    -- a name is looked up by the parameters of the target before its own type is compared with the target
    have hrefused : ∀ (v : Variability) (context : String),
        Yields T (convert (.function f) (.pointer p ⟨v, false⟩) context) fun _ => False := by
      intro v context
      rw [convert]
      unfold convertFunction
      exact Yields.bind (pickOverload_misnamed hf ht hfun ((pointedParameters_eq ..).trans hps)) (fun _ hf => hf.elim) Yields.none
    rw [checkBinary_offset (x := .function f) ht hu hp hconst h]
    unfold offsetPointer
    simp only [if_true, Bool.not_true, Bool.false_eq_true, and_false, if_false]
    split
    · exact Yields.reject _ _
    · split
      · exact Yields.reject _ _
      · refine Yields.target (Yields.bind (Q := fun _ => False) ?_ (fun _ hf => hf.elim) Yields.none)
        exact Yields.both (hrefused _ _) (convert_any y _ _) (fun _ _ hf _ => hf.elim) (fun _ => Yields.none) fun _ => Yields.none
  | _ => rw [hp] at hps; cases hps

/-- What is stored as a function and refers to a pointer to a function is set to no value of an operator. -/
theorem checkSum_misnamed (hx : Operand T x) (ht : x.type? = some t) (hy : Operand T y) (hu : y.type? = some u)
    (hset : ¬ x.Settable) : Meets T (checkBinary m (.arith op) x y >>= fun v => withBoth (some x) v (checkAssign node .plain))
      fun o _ => o = none := by
  refine Delivers.refused (checkSum_delivers hx ht hy hu) ?_
  by_cases h : Assignable x t.stored ∧ Updates op t.stored u
  · obtain ⟨f, rfl, ps, hps⟩ : ∃ f, x = .function f ∧ ∃ ps, pointedParameters? t.stored = some ps := by
      by_contra hnone
      refine hset fun f r o hf hr => ?_
      cases Option.some.inj (hr.symm.trans ht)
      cases hps : pointedParameters? r with
      | none => rfl
      | some ps => exact absurd ⟨f, hf, ps, hps⟩ hnone
    exact Yields.bind (checkBinary_misnamed hx.known ht hu h.1 hps h.2) (fun _ hn => hn.elim) Yields.none
  · exact Yields.mono (checkSum_sound hx ht hy hu) fun _ hd => h hd.1

end Check

/-! ## Trees -/

section
variable {T : Target} {node n m : Node} {op : ArithOp} {x y : Expr} {reported : Bool} {o o' : Option Ty}

theorem typecheck_compound : Check.typecheck (.assign node (.compound op) x y o) = Check.typecheck x >>= fun b =>
    Check.typecheck y >>= fun j => Check.withBoth b j (Check.checkAssign node (.compound op)) >>= Check.resolved := by
  unfold Check.typecheck
  rw [Check.check]
  simp only [Check.needed, bind_assoc, reduceCtorEq, if_false]

theorem typecheck_sum : Check.typecheck (.assign n .plain x (.binary m (.arith op) x y reported) o') =
    Check.typecheck x >>= fun b => Check.typecheck x >>= fun l => Check.typecheck y >>= fun r =>
      (Check.withBoth l r (Check.checkBinary m (.arith op)) >>= fun v => Check.withBoth b v (Check.checkAssign n .plain)) >>=
        Check.resolved := by
  unfold Check.typecheck
  rw [Check.check, Check.check]
  simp only [Check.needed, bind_assoc, if_true]

theorem typecheck_always {e : Expr} {P : Expr → Prop} (he : Expr.Everywhere (Expr.Loaded T) e)
    (hP : Check.Yields T (Check.typecheck e) P) : ∃ r, Check.Always T (Check.typecheck e) r ∧
      ∀ c ∈ r, (Expr.Operand T c ∧ ∃ t, c.type? = some t) ∧ P c :=
  (Check.typecheck_pairs (Expr.prepared_of_loaded he) hP).always

theorem typecheck_yields {e : Expr} (he : Expr.Everywhere (Expr.Loaded T) e) :
    Check.Yields T (Check.typecheck e) fun _ => True :=
  Check.Yields.mono (Check.typecheck_delivers (Expr.prepared_of_loaded he)).yields fun _ _ => trivial

variable (hx : Expr.Everywhere (Expr.Loaded T) x) (hy : Expr.Everywhere (Expr.Loaded T) y)
include hx hy

/-- For a target `x` that both set alike, `x op= y` and `x = x op y` are both refused in all sessions with the target, or both
accepted with the same type. -/
theorem typecheck_compound_alike (htarget : Check.Yields T (Check.typecheck x) Expr.Settable) :
    Check.Pairs T (Check.typecheck (.assign node (.compound op) x y o))
      (Check.typecheck (.assign n .plain x (.binary m (.arith op) x y reported) o')) Expr.SameType := by
  obtain ⟨b, hb, hchecked⟩ := typecheck_always hx htarget
  obtain ⟨j, hj, hvalue⟩ := typecheck_always hy (typecheck_yields hy)
  rw [typecheck_compound, typecheck_sum]
  refine hb.left (hj.left (hb.right (hb.right (hj.right ?_))))
  cases b with
  | none => cases j <;> exact Check.Pairs.pure .refused
  | some b =>
    cases j with
    | none => exact Check.Pairs.pure .refused
    | some j =>
      obtain ⟨⟨hb, t, ht⟩, hset⟩ := hchecked b rfl
      obtain ⟨⟨hj, u, hu⟩, -⟩ := hvalue j rfl
      refine Check.Pairs.bind (Check.Pairs.of_meets (Check.checkCompound_judged hj hu hb ht)
        (Check.checkSum_judged hb ht hj hu hset) fun _ _ h h' => And.intro h h') fun c c' h => ?_
      obtain ⟨⟨-, hc⟩, -, hc'⟩ := h
      exact hc.alike hc'

/-- What is stored as a function and refers to a pointer to a function is set by no assignment of an operator's value. -/
theorem typecheck_sum_refused (htarget : Check.Yields T (Check.typecheck x) fun c => ¬ c.Settable) :
    Check.Always T (Check.typecheck (.assign n .plain x (.binary m (.arith op) x y reported) o')) none := by
  obtain ⟨b, hb, hchecked⟩ := typecheck_always hx htarget
  obtain ⟨j, hj, hvalue⟩ := typecheck_always hy (typecheck_yields hy)
  rw [typecheck_sum]
  refine hb.bind (hb.bind (hj.bind ?_))
  cases b with
  | none => cases j <;> exact Check.Always.pure none
  | some b =>
    cases j with
    | none => exact Check.Always.pure none
    | some j =>
      obtain ⟨⟨hb, t, ht⟩, hset⟩ := hchecked b rfl
      obtain ⟨⟨hj, u, hu⟩, -⟩ := hvalue j rfl
      exact (Check.checkSum_misnamed hb ht hj hu hset).always.bind (Check.Always.pure none)

end

/-! ## Updates in a program -/

/-- The compound assignment `a += 1` and the assignment `a = a + 1`, where `a` is declared as something stored or as a function. -/
def updatesJson (type : Json) (storage : String) : Json :=
  let a : Json := .object [("symbol", .string "a")]
  let sum : Json := .object [("binary", .string "+"), ("left", a), ("right", oneJson)]
  .object [("symbols", .array [.object [("name", .string "a"), ("type", type), ("storage", .string storage)]]),
    ("expressions", .array [.object [("assign", .string "+="), ("target", a), ("value", oneJson)],
      .object [("assign", .string "="), ("target", a), ("value", sum)]])]

def updateOf (target : Expr) : Expr := .assign {} (.compound .add) target one none

def sumOf (target : Expr) : Expr := .assign {} .plain target (.binary {} (.arith .add) target one false) none

/-- A variable that points to an `int32`. -/
def pointerNamed : Expr := localNamed "a" (.pointer .int32 {})

theorem typecheck_compound_alike_pointer : Check.Pairs .standard (Check.typecheck (updateOf pointerNamed))
    (Check.typecheck (sumOf pointerNamed)) Expr.SameType := by
  obtain ⟨scope, hread⟩ : ∃ scope, Program.read .standard "program"
      (some (updatesJson (.object [("pointer", .string "int32")]) "local")) =
        .ok ⟨scope, [updateOf pointerNamed, sumOf pointerNamed]⟩ := ⟨_, rfl⟩
  have hloaded := Program.loaded hread (List.mem_cons_self ..)
  refine typecheck_compound_alike (hloaded.child (List.mem_cons_self ..))
    (hloaded.child (List.mem_cons_of_mem _ (List.mem_singleton_self _))) fun s hs r s' hrun => ?_
  rw [pointerNamed, localNamed, Check.typecheck, Check.check] at hrun
  cases hrun
  refine ⟨fun c hc => ?_, hs⟩
  cases hc
  exact fun f t o hf => by cases hf

/-- A reference to a pointer to a function, where the reference is stored as a function, is moved by a compound assignment only. -/
theorem updates_unlike :
    ∃ scope, Program.read .standard "program"
        (some (updatesJson (.object [("reference", .object [("pointer", functionJson "int32" [])])]) "function")) =
        .ok ⟨scope, [updateOf (functionNamed (.reference (.pointer getter {}))),
          sumOf (functionNamed (.reference (.pointer getter {})))]⟩ ∧
      OnlyFirst (updateOf (functionNamed (.reference (.pointer getter {}))))
        (sumOf (functionNamed (.reference (.pointer getter {})))) :=
  ⟨_, rfl, ⟨_, rfl⟩, rfl⟩

end Spmd
