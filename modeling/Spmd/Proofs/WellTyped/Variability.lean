import Spmd.Proofs.Optimization.Program
import Spmd.Proofs.WellTyped.Check

/-!
# What differs from lane to lane

The type of a node is made varying as soon as an operand that decides its value is varying. Functions and `void` have no
varying form, and neither has what holds only them (`Ty.isRigid`): there, and only there, the variability is lost
(`typecheck_spreads`).
-/

namespace Spmd

namespace Ty

mutual
/-- Types without a varying form. -/
def isRigid : Ty → Bool
  | .void _ => true
  | .function .. => true
  | .array e _ _ => e.isRigid
  | .reference t _ => t.isRigid
  | .list es => allRigid es
  | .scalar _ | .pointer .. | .vector .. | .struct .. => false
def allRigid : List Ty → Bool
  | [] => true
  | t :: ts => t.isRigid && allRigid ts
end

mutual
theorem asVarying_isVarying : ∀ t : Ty, t.asVarying.isVarying = !t.isRigid
  | .void _ | .scalar _ | .pointer .. | .vector .. | .struct .. | .function .. => rfl
  | .array e _ _ => asVarying_isVarying e
  | .reference t _ => asVarying_isVarying t
  | .list es => joinVariability_asVarying es
theorem joinVariability_asVarying : ∀ ts : List Ty,
    (joinVariability (allWithVariability .varying ts) == .varying) = !allRigid ts
  | [] => rfl
  | t :: ts => by
    have hfirst := asVarying_isVarying t
    have hrest := joinVariability_asVarying ts
    unfold isVarying asVarying at hfirst
    rw [allWithVariability, joinVariability, allRigid, Bool.not_and, ← hfirst, ← hrest]
    cases (withVariability .varying t).variability <;> rfl
end

theorem isVarying_withConst (c : Bool) (t : Ty) : (t.withConst c).isVarying = t.isVarying := by
  simp only [isVarying, variability_withConst]

theorem isRigid_withConst (c : Bool) : ∀ t : Ty, (t.withConst c).isRigid = t.isRigid
  | .void _ | .scalar _ | .pointer .. | .vector .. | .struct .. | .function .. | .list _ => rfl
  | .array e _ _ => isRigid_withConst c e
  | .reference t _ => isRigid_withConst c t

mutual
theorem isRigid_withVariability (v : Variability) : ∀ t : Ty, (t.withVariability v).isRigid = t.isRigid
  | .void _ | .scalar _ | .pointer .. | .vector .. | .struct .. | .function .. => rfl
  | .array e _ _ => isRigid_withVariability v e
  | .reference t _ => isRigid_withVariability v t
  | .list es => allRigid_withVariability v es
theorem allRigid_withVariability (v : Variability) : ∀ ts : List Ty, allRigid (allWithVariability v ts) = allRigid ts
  | [] => rfl
  | t :: ts => by
    rw [allWithVariability, allRigid, allRigid, isRigid_withVariability v t, allRigid_withVariability v ts]
end

/-- A type that is varying, or cannot be. -/
def Spreads (t : Ty) : Prop := t.isVarying = true ∨ t.isRigid = true

theorem spreads_asVarying (t : Ty) : t.asVarying.Spreads := by
  unfold Spreads
  rw [asVarying_isVarying, asVarying, isRigid_withVariability]
  cases t.isRigid
  · exact .inl rfl
  · exact .inr rfl

theorem Spreads.withConst (c : Bool) {t : Ty} (h : t.Spreads) : (t.withConst c).Spreads := by
  unfold Spreads
  rw [isVarying_withConst, isRigid_withConst]
  exact h

theorem spreads_if {c : Bool} {t : Ty} (h : c = true ∨ t.Spreads) : (if c then t.asVarying else t).Spreads := by
  cases c with
  | true => exact spreads_asVarying t
  | false => exact h.resolve_left Bool.false_ne_true

theorem memberType_spreads {q : Qualifiers} (hq : q.variability = .varying) (t : Ty) : (memberType q t).Spreads := by
  unfold memberType
  dsimp only
  rw [if_pos hq]
  split
  · exact (spreads_asVarying t).withConst true
  · exact spreads_asVarying t

end Ty

namespace Access

theorem pickedType_spreads {a : Access} {varying : Bool} {t : Ty} (h : a.pickedType varying = some t)
    (hv : varying = true ∨ a.aggregate.isVarying = true) : t.Spreads := by
  cases a with
  | field i aggregate =>
    simp only [pickedType, Option.ite_none_right_eq_some, Option.map_eq_some_iff] at h
    obtain ⟨hstruct, u, hu, rfl⟩ := h
    refine Ty.spreads_if (hv.imp_right fun hagg => ?_)
    cases aggregate with
    | struct s ms q o =>
      simp only [Ty.elementAt?, Option.map_eq_some_iff] at hu
      obtain ⟨m, -, rfl⟩ := hu
      exact Ty.memberType_spreads (by simpa [aggregate, Ty.isVarying, Ty.variability] using hagg) m.2
    | _ => cases hstruct
  | swizzle indices aggregate =>
    cases aggregate with
    | vector s n o =>
      cases h
      have hs : (if varying then s.withVariability .varying else s).qualifiers.variability = .varying := by
        cases varying with
        | true => rfl
        | false =>
          have hagg := hv.resolve_left Bool.false_ne_true
          simpa [aggregate, Ty.isVarying, Ty.variability] using hagg
      refine .inl ?_
      split
      · simp only [Ty.isVarying, Ty.variability, hs, beq_self_eq_true]
      · simp only [Ty.isVarying, Ty.variability, hs, beq_self_eq_true]
    | _ => cases h

end Access

namespace Expr

/-- The operands that decide the value of a node. An array that becomes a pointer is not read. -/
def deciding : Expr → List Expr
  | unary _ _ e => [e]
  | step _ _ e _ => [e]
  | binary _ .comma _ r _ => [r]
  | binary _ _ l r _ => [l, r]
  | select _ t a b => [t, a, b]
  | index _ b i => [b, i]
  | member _ b .. => [b]
  | dereference _ e => [e]
  | cast _ target e _ => if target.isPointer && e.type?.any (·.stored.isArray) then [] else [e]
  | call _ callee .. => [callee]
  | _ => []

/-- The type of a node is varying, or cannot be, as soon as an operand that decides its value is varying. A call through
something varying is a varying call. -/
structure Spreads (e : Expr) : Prop where
  type : ∀ c ∈ e.deciding, c.isVarying = true → ∃ t, e.type? = some t ∧ t.Spreads
  call : ∀ node callee args launch count signature, e = .call node callee args launch count signature →
    callee.isVarying = true → callee.isVaryingCallee = .ok true

variable {T : Target} {e : Expr}

theorem isVarying_type (h : e.isVarying = true) : ∃ t, e.type? = some t ∧ t.isVarying = true :=
  (Option.any_eq_true _ _).mp h

theorem indexed_spreads {t element : Ty} {varying spread : Bool} (h : Check.indexed? t = some (element, varying))
    (hv : spread = true ∨ t.isVarying = true) :
    (if spread || varying then element.asVarying else element).Spreads := by
  refine Ty.spreads_if ?_
  cases t with
  | pointer p q o =>
    cases h
    rw [Bool.or_eq_true]
    exact .inl hv
  | array e n o =>
    cases h
    rw [Bool.or_false]
    exact hv.imp_right .inl
  | vector s n o =>
    cases h
    rw [Bool.or_false]
    exact hv.imp_right .inl
  | _ => cases h

theorem memberBase_varying {arrow varying : Bool} {t aggregate : Ty}
    (h : Check.memberBase arrow t = .ok (aggregate, varying)) (hv : t.isVarying = true) :
    varying = true ∨ aggregate.isVarying = true := by
  unfold Check.memberBase at h
  split at h <;> cases h
  · exact .inl hv
  · exact .inr hv

theorem readType_spreads {t u : Ty} (h : t.readType? = some u) (hv : t.isVarying = true) : u.Spreads := by
  cases t with
  | reference r o => cases h; exact .inl hv
  | pointer p q o =>
    cases h
    have hq : q.variability = .varying := by simpa [Ty.isVarying, Ty.variability] using hv
    rw [if_pos hq]
    exact Ty.spreads_asVarying p
  | _ => cases h

theorem WellTyped.type_spreads (hw : e.WellTyped) (hf : e.Formed T) :
    ∀ c ∈ e.deciding, c.isVarying = true → ∃ t, e.type? = some t ∧ t.Spreads := by
  intro c hc hv
  -- each rule of typing says how the type of the form depends on its deciding operands
  cases e with
  | unary node op e =>
    obtain ⟨t, ht, hn, -⟩ := hw
    rw [List.mem_singleton.mp hc, isVarying_eq ht] at hv
    exact ⟨_, hn, .inl ((Ty.isVarying_rvalue t).trans hv)⟩
  | step node s e amount =>
    obtain ⟨⟨t, ht, hn⟩, -⟩ := hw
    rw [List.mem_singleton.mp hc, isVarying_eq ht] at hv
    exact ⟨_, hn, .inl ((Ty.isVarying_rvalue t).trans hv)⟩
  | binary node op l r reported =>
    cases op with
    | comma =>
      obtain ⟨t, ht, hn⟩ := hw
      rw [List.mem_singleton.mp hc, isVarying_eq ht] at hv
      exact ⟨_, hn, .inl ((Ty.isVarying_rvalue t).trans hv)⟩
    | _ =>
      obtain ⟨-, -, t, hn, hvarying⟩ := hw
      refine ⟨t, hn, .inl (hvarying ?_)⟩
      rw [Bool.or_eq_true]
      rcases List.mem_pair.mp hc with rfl | rfl
      · exact .inl hv
      · exact .inr hv
  | select node test a b =>
    obtain ⟨-, -, -, t, hn, hvarying⟩ := hw
    obtain ⟨t', v, hn', -, ha, hb⟩ := hf.coherent
    rw [hn] at hn'
    cases hn'
    refine ⟨t, hn, ?_⟩
    simp only [deciding, List.mem_cons, List.not_mem_nil, or_false] at hc
    rcases hc with rfl | rfl | rfl
    · obtain ⟨u, rfl⟩ := hvarying hv
      exact Ty.spreads_asVarying u
    · exact .inl (ha.isVarying_eq.symm.trans hv)
    · exact .inl (hb.isVarying_eq.symm.trans hv)
  | index node base position =>
    obtain ⟨t, element, varying, ht, hi, hn⟩ := hw
    refine ⟨_, hn, indexed_spreads hi ?_⟩
    rcases List.mem_pair.mp hc with rfl | rfl
    · rw [isVarying_eq ht] at hv
      exact .inr ((Ty.isVarying_stored t).trans hv)
    · exact .inl hv
  | member node base name arrow access =>
    obtain ⟨t, aggregate, varying, a, ht, hbase, -, ha, hn⟩ := hw
    obtain ⟨u, hu, -⟩ := hf.typed
    have hpicked : a.pickedType varying = some u := hn.symm.trans hu
    rw [List.mem_singleton.mp hc, isVarying_eq ht] at hv
    refine ⟨u, hu, Access.pickedType_spreads hpicked ?_⟩
    rw [ha]
    exact memberBase_varying hbase ((Ty.isVarying_stored t).trans hv)
  | cast node target e reported =>
    obtain ⟨t, ht, -, hvarying⟩ := hw
    obtain ⟨hn, -, -⟩ := hf.grounded
    rw [deciding, ht, Option.any_some] at hc
    split at hc
    · cases hc
    · rename_i hdecay
      rw [List.mem_singleton.mp hc, isVarying_eq ht] at hv
      refine ⟨target, hn, .inl ((hvarying hv).resolve_right fun h => hdecay ?_)⟩
      rw [h.1, h.2]
      rfl
  | dereference node e =>
    obtain ⟨t, u, ht, hread, hn⟩ := hw
    rw [List.mem_singleton.mp hc, isVarying_eq ht] at hv
    exact ⟨u, hn, readType_spreads hread hv⟩
  | call node callee args launch count signature =>
    obtain ⟨⟨s, -, hn⟩, -, -⟩ := hw
    rw [List.mem_singleton.mp hc] at hv
    refine ⟨_, hn, ?_⟩
    rw [hv, Bool.true_and]
    cases hvoid : s.result.isVoid with
    | true =>
      cases hr : s.result with
      | void => exact .inr rfl
      | _ => rw [hr] at hvoid; cases hvoid
    | false => exact Ty.spreads_asVarying _
  | _ => cases hc

theorem WellTyped.spreads (hw : e.WellTyped) (hf : e.Formed T) : e.Spreads := by
  refine ⟨hw.type_spreads hf, ?_⟩
  rintro node callee args launch count signature rfl hv
  obtain ⟨t, ht, -⟩ := isVarying_type hv
  rw [isVaryingCallee_eq ht hw.2.1, hv]

end Expr

open Check Spmd.Expr

/-- In what checking gives, a varying operand makes every node varying whose value it decides, unless the type of the node
has no varying form. -/
theorem typecheck_spreads {target : Target} {file : String} {json : Option Json} {p : Program} {e t : Expr}
    {s s' : Session} (hp : Program.read target file json = .ok p) (he : e ∈ p.expressions) (hs : s.target = target)
    (ht : (typecheck e).run s = (.ok (some t), s')) : Everywhere Spreads t := by
  have hc := typecheck_checked hp he hs ht
  have hw := typecheck_wellTyped hp he hs ht
  exact Everywhere.mono (fun _ h => WellTyped.spreads h.1 h.2) (hw.and hc)

/-! ## A call through a dereferenced function pointer -/

/-- `(*f)()` where every lane has a function pointer `f` of its own. -/
def farCallJson : Json :=
  programJson [("f", .object [("pointer", .object [("function", .string "int32")]), ("variability", .string "varying")])]
    (.object [("call", .object [("dereference", .object [("symbol", .string "f")])])])

def farSymbol : Symbol := ⟨"f", .pointer (.function .int32 [] false) ⟨.varying, false⟩, .local, none, none⟩

/-- The dereferenced function pointer in a state. -/
def farCallee (node : Node) : Expr := .dereference node (.symbol (.typed none farSymbol.type) farSymbol)

def farCall : Expr := .call {} (farCallee {}) [] false none none

def farCallTyped : Expr :=
  .call (.typed none .int32) (farCallee (.typed none (.function .int32 [] false))) [] false none (some ⟨.int32, [], false⟩)

def farProgram : Program := ⟨{ target := .standard, file := "program", symbols := [farSymbol] }, [farCall]⟩

theorem farProgram_read : Program.read .standard "program" (some farCallJson) = .ok farProgram := rfl

theorem farCall_checks : (typecheck farCall).run { target := .standard } = (.ok (some farCallTyped), { target := .standard }) :=
  rfl

theorem typecheck_spreads_farCall : Everywhere Spreads farCallTyped :=
  typecheck_spreads farProgram_read (List.mem_singleton_self _) rfl farCall_checks

/-- The type of a function has no varying form, so that the variability of the pointer is lost at the dereference: the call
is a uniform one, and so is its type. -/
theorem farCall_uniform : ∃ t s', (typecheck farCall).run { target := .standard } = (.ok (some t), s') ∧ t = farCallTyped ∧
    farSymbol.type.isVarying = true ∧ (farCallee (.typed none (.function .int32 [] false))).isVaryingCallee = .ok false ∧
      t.isVarying = false ∧ t.type? = some .int32 :=
  ⟨_, _, farCall_checks, rfl, rfl, rfl, rfl, rfl⟩

end Spmd
