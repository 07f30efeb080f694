import Spmd.Proofs.Typing.Compound

/-!
# Increments and decrements

A step is accepted for what can be stored to and is a number or a pointer, but no `void` one (`Check.checkStep_judged`). So
`++x` and `x += 1` are both refused or both accepted with the same type (`typecheck_step_alike`), unless `x` is of an enumeration:
it can be stepped, but a sum is a number, which converts to no enumeration. Vectors of numbers are left out: they are stepped by
a compound assignment only (`steps_unlike`).
-/

namespace Spmd

/-! ## Types -/

namespace Ty

variable {t u : Ty}

def isEnumeration : Ty → Bool
  | .scalar ⟨.enumeration .., _, _⟩ => true
  | _ => false

/-- What a step moves: a pointer to something, or a number. -/
def isStepped (t : Ty) : Bool := if t.isPointer then !t.isVoidPointer else t.isScalar && t.isNumeric

theorem isStepped_rvalue (t : Ty) : t.rvalue.isStepped = t.stored.isStepped := by
  rw [rvalue_eq]
  cases t.stored <;> rfl

theorem isAggregate_of_stepped (h : t.isStepped = true) : (t.isArray || t.isFunction) = false := by
  cases t with
  | array | function => cases h
  | _ => rfl

theorem isStepped_of_enumeration (h : t.isEnumeration = true) : t.isStepped = true := by
  cases t with
  | scalar s =>
    obtain ⟨e, q, o⟩ := s
    cases e with
    | basic => cases h
    | enumeration => rfl
  | _ => cases h

theorem rvalue_same_stored (h : t.stored.isStepped = true) (hc : t.stored.isConst = false) : t.rvalue.same t.stored = true := by
  rw [rvalue_eq, same_iff]
  generalize t.stored = s at h hc
  cases s with
  | scalar s =>
    obtain ⟨e, ⟨v, c⟩, o⟩ := s
    obtain rfl : c = false := hc
    rfl
  | pointer p q o =>
    obtain ⟨v, c⟩ := q
    obtain rfl : c = false := hc
    rfl
  | _ => cases h

theorem obstacle_to_enumeration {k : Kind} {v : Variability} (h : t.bare = basic k v) (hu : u.isEnumeration = true) :
    obstacle false t u ≠ none := by
  cases u with
  | scalar s =>
    obtain ⟨e, q, o⟩ := s
    cases e with
    | basic => cases hu
    | enumeration n es =>
      have hbasic : obstacle false (basic k v) (scalar ⟨.enumeration n es, q, o⟩) ≠ none := by
        unfold obstacle
        rw [if_neg (by exact Bool.false_ne_true), if_neg (by exact Bool.false_ne_true), if_neg (by exact Bool.false_ne_true)]
        change (if _ then _ else _) ≠ none
        split <;> exact nofun
      have h : t.bare = (basic k v).bare := h
      exact fun ho => hbasic (obstacle_of_bare (.inl ⟨eq_of_bare isList_bare h, eq_of_bare isReference_bare h⟩) h.symm rfl ho)
  | _ => cases hu

end Ty

namespace Expr

/-- No vector of numbers, nor a reference to one. -/
def Unvectored (e : Expr) : Prop := ∀ t, e.type? = some t → (t.stored.isVector && t.stored.isNumeric) = false

/-- The literal `1` of a target. -/
def unit (T : Target) : Expr := .const (.typed none Ty.int32.asConst) ⟨.int32, T.width, [.int 1]⟩

theorem unit_operand (T : Target) : Operand T (unit T) := by
  have hfits : Scalar.Fits .int32 (.int 1) := by decide
  exact .checked (Checked.leaf ⟨⟨_, rfl, trivial⟩, trivial,
    ⟨_, rfl, ⟨⟨rfl, .inl rfl, fun _ h => List.mem_singleton.mp h ▸ hfits⟩, rfl, fun _ => rfl⟩, nofun⟩⟩ rfl) rfl

end Expr

/-- The operator of the assignment that a step stands for. -/
def Step.op (s : Step) : ArithOp := if s.isDown then .sub else .add

theorem Step.op_cases (s : Step) : s.op = .add ∨ s.op = .sub := by
  unfold Step.op
  cases s.isDown with
  | false => exact .inl rfl
  | true => exact .inr rfl

namespace Check

open Spmd.Expr

variable {T : Target} {x y : Expr} {s t u : Ty} {node : Node} {op : ArithOp}

/-! ## Steps -/

theorem Judged.iff {P Q : Prop} {o : Option Expr} (h : Judged P t o) (hPQ : P ↔ Q) : Judged Q t o := propext hPQ ▸ h

theorem stepAmount_stepped (node : Node) (s : Step) (t : Ty) :
    Meets T (stepAmount node s t) fun o _ => o.isSome = t.isStepped := by
  have refused : ∀ problem : Problem, Meets T (reject node.place problem) fun (o : Option Literal) _ => o.isSome = false :=
    fun _ => Meets.bind (report_meets _ _) fun _ _ _ => Meets.pure rfl
  have amount : ∀ k : ScalarTy, ∃ l, Literal.ofScalars T.width (.scalar k) [.int 1] = .ok l := by
    intro k
    obtain ⟨v, hv, -⟩ := Literal.ofScalars_ok T.width k [.int 1] (.inl rfl)
    exact ⟨_, hv⟩
  unfold stepAmount Ty.isStepped
  refine Meets.bind target_meets fun T' _ hT => ?_
  obtain ⟨rfl, -⟩ := hT
  split
  · cases t.isVoidPointer with
    | true => exact refused _
    | false =>
      obtain ⟨size, hsize⟩ := Ty.sizeType_scalar T'
      obtain ⟨l, hl⟩ := amount size
      simp only [hsize, hl, lift_ok, pure_bind, Bool.false_eq_true, if_false]
      exact Meets.pure rfl
  · split
    · rename_i hnumber
      rw [hnumber]
      cases t with
      | scalar k =>
        obtain ⟨l, hl⟩ := amount (k.withVariability .uniform)
        simp only [Ty.asUniform, Ty.withVariability, hl, lift_ok, pure_bind]
        exact Meets.pure rfl
      | _ => cases hnumber
    · rename_i hnumber
      rw [Bool.eq_false_iff.mpr hnumber]
      exact refused _

/-- A step is accepted for a number or a pointer that can be stored to. -/
theorem checkStep_judged (hx : Operand T x) (ht : x.type? = some t) (s : Step) : Meets T (checkStep node s x) fun d _ =>
    Judged (x.isStorage = .ok true ∧ t.stored.isConst = false ∧ t.stored.isStepped = true) t.rvalue d := by
  have refused : ∀ {P : Prop} (problem : Problem), ¬ P → Meets T (reject node.place problem) fun d _ => Judged P t.rvalue d :=
    fun _ hP => Meets.bind (report_meets _ _) fun _ _ _ => Meets.pure (.refused hP)
  obtain ⟨b, hb⟩ := isStorage_ok hx ht
  unfold checkStep
  simp only [type_ok ht, hb, lift_ok, pure_bind]
  split
  · rename_i hstorage
    exact refused _ fun h => by rw [Except.ok.inj h.1] at hstorage; cases hstorage
  rename_i hstorage
  split
  · rename_i hconst
    exact refused _ fun h => by rw [h.2.1] at hconst; cases hconst
  rename_i hconst
  refine Meets.bind (stepAmount_stepped node s t.rvalue) fun o _ ho => ?_
  rw [Ty.isStepped_rvalue] at ho
  cases o with
  | none => exact Meets.pure (.refused fun h => by rw [h.2.2] at ho; cases ho)
  | some => exact Meets.pure (.accepted ⟨by simpa using hstorage, by simpa using hconst, ho.symm⟩ rfl rfl)

/-! ## Steps and assignments of one -/

theorem common_unit (s : ScalarTy) : ∃ w k, Ty.common (Ty.scalar s).rvalue Ty.int32.asConst.rvalue = .ok w ∧
    w.bare = Ty.basic k s.qualifiers.variability := by
  rcases Ty.common_flat (a := (Ty.scalar s).rvalue) (b := Ty.int32.asConst.rvalue) (m := none) (n := none)
    (s := (s.withConst false).withConst false) (r := ⟨.basic .int32, {}, none⟩) rfl rfl rfl with ⟨-, hn⟩ | ⟨-, w, hw, hbare⟩
  · exact absurd (.inl rfl) hn
  · obtain ⟨e, ⟨v, c⟩, o⟩ := s
    refine ⟨w, e.kind.join .int32, hw, hbare.trans ?_⟩
    cases e <;> cases v <;> rfl

theorem numeric_of_updates (hvalid : ∀ w : Ty, validOperand (.arith op) w = w.isNumeric) (hp : s.isPointer = false)
    (h : Updates op s u) : s.rvalue.isNumeric = true := by
  obtain ⟨w, hw, -⟩ := h
  rw [updated_value _ hp] at hw
  unfold operands? at hw
  split at hw
  · rename_i hboth
    rw [← hvalid]
    exact (Bool.and_eq_true_iff.mp hboth).1
  · cases hw

/-- One updates what a step moves, but no enumeration. -/
theorem updates_unit (hop : op = .add ∨ op = .sub) (hr : s.isReference = false) (hc : s.isConst = false)
    (hv : (s.isVector && s.isNumeric) = false) :
    Updates op s Ty.int32.asConst ↔ s.isStepped = true ∧ s.isEnumeration = false := by
  have hvalid : ∀ w : Ty, validOperand (.arith op) w = w.isNumeric := by
    intro w
    rcases hop with rfl | rfl <;> rfl
  cases s with
  | pointer p q o =>
    have hstepped : (Ty.pointer p q o).isStepped = !p.isVoid := rfl
    rw [updates_pointer hc, hstepped, Bool.not_eq_true']
    exact ⟨fun h => ⟨h.2.2.1, rfl⟩, fun h => ⟨hop, rfl, h.1, rfl⟩⟩
  | scalar s =>
    obtain ⟨w, k, hw, hbare⟩ := common_unit s
    have hoperands : operands? op (.scalar s) Ty.int32.asConst = if (Ty.scalar s).isNumeric then some w else none := by
      unfold operands?
      rw [hvalid, hvalid, hw]
      exact congrArg (fun b : Bool => if b = true then some w else none) (Bool.and_true _)
    obtain ⟨e, ⟨v, c⟩, o⟩ := s
    obtain rfl : c = false := hc
    change (∃ w', operands? op _ _ = some w' ∧ _) ↔ (Ty.scalar ⟨e, ⟨v, false⟩, o⟩).isNumeric = true ∧ _
    rw [hoperands]
    by_cases hn : (Ty.scalar ⟨e, ⟨v, false⟩, o⟩).isNumeric = true
    · rw [if_pos hn]
      simp only [Option.some.injEq, exists_eq_left', hn, true_and]
      cases e with
      | basic j =>
        refine ⟨fun _ => rfl, fun _ => ?_⟩
        exact Ty.obstacle_of_bare (s := Ty.basic k v) (t := Ty.basic j v) (.inl ⟨rfl, rfl⟩) (hbare.trans rfl) rfl
          (Ty.obstacle_to_basic _ j (Variability.join_self v))
      | enumeration => exact ⟨fun ho => absurd ho (Ty.obstacle_to_enumeration hbare rfl), nofun⟩
    · rw [if_neg hn]
      exact ⟨fun ⟨_, h, _⟩ => (by cases h), fun h => absurd h.1 hn⟩
  | reference => cases hr
  | vector e n o =>
    have hn : (Ty.vector e n o).isNumeric = false := hv
    exact ⟨fun h => absurd (numeric_of_updates hvalid rfl h) (Bool.eq_false_iff.mp hn), fun h => (by cases h.1)⟩
  | _ => exact ⟨fun h => (by cases numeric_of_updates hvalid rfl h), fun h => (by cases h.1)⟩

/-- What a step and an assignment of one make of an operand: results of the same type, or none, but an enumeration is stepped
only. -/
inductive StepAlike : Option Expr → Option Expr → Option Expr → Prop
  | same {b d d' : Option Expr} (plain : ∀ c ∈ b, ∀ t, c.type? = some t → t.stored.isEnumeration = false)
      (alike : SameType d d') : StepAlike b d d'
  | enumeration {c : Expr} {t : Ty} {d : Option Expr} (type_eq : c.type? = some t)
      (enumeration : t.stored.isEnumeration = true)
      (judged : Judged (c.isStorage = .ok true ∧ t.stored.isConst = false) t.rvalue d) : StepAlike (some c) d none

/-- A step and an assignment of one have a result for the same operands, but for enumerations. -/
theorem judged_alike {d d' : Option Expr} (ht : x.type? = some t) (hl : t.Legal) (hop : op = .add ∨ op = .sub)
    (hv : (t.stored.isVector && t.stored.isNumeric) = false)
    (hd : Judged (x.isStorage = .ok true ∧ t.stored.isConst = false ∧ t.stored.isStepped = true) t.rvalue d)
    (hd' : Judged (Assignable x t.stored ∧ Updates op t.stored Ty.int32.asConst) t.stored d') :
    Pairs T (resolved d) (resolved d') (StepAlike (some x)) := by
  have hunit := fun hc => updates_unit hop (Ty.isReference_stored hl) hc hv
  cases he : t.stored.isEnumeration with
  | false =>
    have hiff : (Assignable x t.stored ∧ Updates op t.stored Ty.int32.asConst) ↔
        (x.isStorage = .ok true ∧ t.stored.isConst = false ∧ t.stored.isStepped = true) := by
      refine ⟨fun ⟨ha, hup⟩ => ⟨ha.isStorage, ha.isConst, ((hunit ha.isConst).mp hup).1⟩, fun ⟨hs, hc, hstep⟩ => ?_⟩
      exact ⟨⟨hs, hc, Ty.isAggregate_of_stepped hstep⟩, (hunit hc).mpr ⟨hstep, he⟩⟩
    refine Pairs.mono (hd.pairs (hd'.iff hiff) fun h => Ty.rvalue_same_stored h.2.2 h.2.1) fun _ _ h => .same ?_ h
    rintro c hc u hu
    cases hc
    cases Option.some.inj (ht.symm.trans hu)
    exact he
  | true =>
    have hd := hd.iff (Q := x.isStorage = .ok true ∧ t.stored.isConst = false)
      ⟨fun h => ⟨h.1, h.2.1⟩, fun h => ⟨h.1, h.2, Ty.isStepped_of_enumeration he⟩⟩
    have hd' : d' = none := by
      cases hd' with
      | refused => rfl
      | accepted holds =>
        rw [((hunit holds.1.isConst).mp holds.2).2] at he
        cases he
    subst hd'
    cases hd with
    | refused fails => exact Pairs.pure (.enumeration ht he (.refused fails))
    | accepted holds type_eq plain =>
      rw [resolved_plain plain]
      exact Pairs.pure (.enumeration ht he (.accepted holds type_eq plain))

end Check

/-! ## Trees -/

section
variable {T : Target} {node n m : Node} {x : Expr} {o : Option Ty} {amount : Option Literal}

theorem typecheck_step {s : Step} : Check.typecheck (.step n s x amount) = Check.typecheck x >>= fun b =>
    Check.withOne b (Check.checkStep n s) >>= Check.resolved := by
  unfold Check.typecheck
  rw [Check.check]
  simp only [Check.needed, bind_assoc]

/-- For an `x` that is no vector of numbers, `++x` and `x += 1` are both refused in all sessions with the target, or both
accepted with the same type; so are `--x` and `x -= 1`, and the steps after `x` is read. But if `x` is of an enumeration, the
assignment is refused, and the step is accepted, with the type of the enumeration, exactly for what can be stored to. -/
theorem typecheck_step_alike (hx : Expr.Everywhere (Expr.Loaded T) x) (s : Step)
    (hv : Check.Yields T (Check.typecheck x) Expr.Unvectored) : ∃ b, Check.Always T (Check.typecheck x) b ∧
      Check.Pairs T (Check.typecheck (.step n s x amount)) (Check.typecheck (.assign m (.compound s.op) x (.unit T) o))
        (Check.StepAlike b) := by
  obtain ⟨b, hb, hchecked⟩ := typecheck_always hx hv
  refine ⟨b, hb, ?_⟩
  rw [typecheck_compound, typecheck_step]
  have hone : Check.Always T (Check.typecheck (.unit T)) (some (.unit T)) := fun s hs => ⟨s, rfl, hs⟩
  refine hb.left (hb.right (hone.right ?_))
  cases b with
  | none => exact Check.Pairs.pure (.same nofun .refused)
  | some b =>
    obtain ⟨⟨hb, t, ht⟩, hv⟩ := hchecked b rfl
    refine Check.Pairs.bind (Check.Pairs.of_meets (Check.checkStep_judged hb ht s)
      (Check.checkCompound_judged (Expr.unit_operand T) rfl hb ht) fun _ _ h h' => And.intro h h') fun d d' h => ?_
    obtain ⟨⟨-, hd⟩, -, hd'⟩ := h
    exact Check.judged_alike ht (hb.legal ht) s.op_cases (hv t ht) hd hd'

end

/-! ## Steps in a program -/

/-- The step `++a` and the compound assignment `a += 1` of a variable. -/
def stepsJson (type : Json) : Json :=
  let a : Json := .object [("symbol", .string "a")]
  .object [("symbols", .array [.object [("name", .string "a"), ("type", type)]]),
    ("expressions", .array [.object [("unary", .string "pre++"), ("operand", a)],
      .object [("assign", .string "+="), ("target", a), ("value", oneJson)]])]

def stepOf (target : Expr) : Expr := .step {} ⟨false, false⟩ target none

/-- A variable of an enumeration. -/
def colorNamed : Expr := localNamed "a" (.scalar ⟨.enumeration "Color" ["Red", "Green"], {}, none⟩)

theorem typecheck_step_alike_color : ∃ b, Check.Always .standard (Check.typecheck colorNamed) b ∧
    Check.Pairs .standard (Check.typecheck (stepOf colorNamed)) (Check.typecheck (updateOf colorNamed)) (Check.StepAlike b) := by
  obtain ⟨scope, hread⟩ : ∃ scope, Program.read .standard "program"
      (some (stepsJson (.object [("enum", .string "Color"), ("enumerators", .array [.string "Red", .string "Green"])]))) =
        .ok ⟨scope, [stepOf colorNamed, updateOf colorNamed]⟩ := ⟨_, rfl⟩
  have hloaded := Program.loaded hread (List.mem_cons_self ..)
  refine typecheck_step_alike (hloaded.child (List.mem_singleton_self _)) ⟨false, false⟩ fun s hs r s' hrun => ?_
  rw [colorNamed, localNamed, Check.typecheck, Check.check] at hrun
  cases hrun
  refine ⟨fun c hc => ?_, hs⟩
  cases hc
  rintro t ⟨⟩
  rfl

/-- An enumeration is stepped and not added to, and a vector is added to and not stepped. -/
theorem steps_unlike :
    (∃ scope, Program.read .standard "program"
        (some (stepsJson (.object [("enum", .string "Color"), ("enumerators", .array [.string "Red", .string "Green"])]))) =
          .ok ⟨scope, [stepOf colorNamed, updateOf colorNamed]⟩ ∧
      OnlyFirst (stepOf colorNamed) (updateOf colorNamed)) ∧
    ∃ scope, Program.read .standard "program"
        (some (stepsJson (.object [("vector", .string "int32"), ("count", .number (.finite 2))]))) =
          .ok ⟨scope, [stepOf (localNamed "a" (.vector ⟨.basic .int32, {}, none⟩ 2)),
            updateOf (localNamed "a" (.vector ⟨.basic .int32, {}, none⟩ 2))]⟩ ∧
      OnlyFirst (updateOf (localNamed "a" (.vector ⟨.basic .int32, {}, none⟩ 2)))
        (stepOf (localNamed "a" (.vector ⟨.basic .int32, {}, none⟩ 2))) :=
  ⟨⟨_, rfl, ⟨_, rfl⟩, rfl⟩, _, rfl, ⟨_, rfl⟩, rfl⟩

end Spmd
