import Spmd.Proofs.Ty.Common
import Spmd.Proofs.Typing.Pointer
import Spmd.Proofs.Typing.Resolution

/-!
# Elements and offset pointers

The element `a[i]` and what `a + i` points to are both refused, or both accepted with the same type
(`typecheck_offset_alike`), where `a` is a pointer or an array of elements that are not constant. An array decays for the offset
only: indexing keeps the type of its elements, and an offset drops their `const` first.
-/

namespace Spmd

namespace Ty

variable {t u p : Ty}

theorem bare_asNonConst : ∀ {t : Ty}, t.isConst = false → t.asNonConst.bare = t.bare
  | .void _, _ => rfl
  | .scalar ⟨_, ⟨_, false⟩, _⟩, _ => rfl
  | .pointer _ ⟨_, false⟩ _, _ => rfl
  | .array e n _, h => by
    have he : e.asNonConst.bare = e.bare := bare_asNonConst h
    simp only [asNonConst, withConst, bare] at he ⊢
    rw [he]
  | .vector ⟨_, ⟨_, false⟩, _⟩ _ _, _ => rfl
  | .struct _ _ ⟨_, false⟩ _, _ => rfl
  | .reference t _, h => by
    have ht : t.asNonConst.bare = t.bare := bare_asNonConst h
    simp only [asNonConst, withConst, bare] at ht ⊢
    rw [ht]
  | .function .., _ => rfl
  | .list _, _ => rfl

theorem obstacle_to_basic (s : ScalarTy) (k : Kind) {v : Variability} (hv : s.qualifiers.variability.join v = v) :
    obstacle false (scalar s) (basic k v) = none := by
  unfold obstacle
  split
  · rfl
  · change (if (scalar s).isVarying && (basic k v).isUniform then _ else _) = none
    have hvariability : ((scalar s).isVarying && (basic k v).isUniform) = false := by
      change ((s.qualifiers.variability == .varying) && (v == .uniform)) = false
      revert hv
      cases s.qualifiers.variability <;> cases v <;> first | exact fun _ => rfl | exact nofun
    rw [hvariability]
    rfl

theorem obstacle_to_pointer (p : Ty) (q : Qualifiers) (o : Origin) (v : Variability) :
    obstacle false (pointer p q o) (pointer p ⟨q.variability.join v, false⟩) = none := by
  unfold obstacle
  split
  · rfl
  · have hvariability : ((pointer p q o).isVarying && (pointer p ⟨q.variability.join v, false⟩).isUniform) = false := by
      change ((q.variability == .varying) && (q.variability.join v == .uniform)) = false
      cases q.variability <;> cases v <;> rfl
    have hvalue : pointerObstacle false (pointer p q o) p (pointer p ⟨q.variability.join v, false⟩) = none := by
      have hsame : p.sameIgnoringConst p = true := (sameIgnoringConst_iff _ _).mpr rfl
      have hconst : (p.isConst && !p.isConst) = false := by cases p.isConst <;> rfl
      simp only [pointerObstacle, hsame, hconst, if_true, Bool.false_and, Bool.false_eq_true, if_false, ite_self]
    change (if _ then _ else pointerObstacle false (pointer p q o) p (pointer p ⟨q.variability.join v, false⟩)) = none
    rw [hvariability, hvalue]
    rfl

theorem sizeType_basic (T : Target) (v : Variability) : ∃ k, T.sizeType.withVariability v = .basic k v := by
  unfold Target.sizeType
  split <;> cases v
  exacts [⟨.int32, rfl⟩, ⟨.int32, rfl⟩, ⟨.int64, rfl⟩, ⟨.int64, rfl⟩]

theorem obstacle_to_decayed {e : Ty} (n : Option Nat) (o : Origin) (v : Variability) (h : e.isConst = false) :
    obstacle false (array e n o) (pointer e.asNonConst ⟨v, false⟩) = none := by
  unfold obstacle
  split
  · rfl
  · have hsame : e.sameIgnoringConst e.asNonConst = true := (sameIgnoringConst_iff _ _).mpr (core_asNonConst e).symm
    change decayObstacle false _ e _ e.asNonConst = none
    simp only [decayObstacle, hsame, h, Bool.not_false, Bool.or_true, Bool.and_true, if_true, ite_self]

end Ty

namespace Expr

/-- What is given alike to an index and to an offset: a pointer, or an array of elements that are not constant. It is no name of
something stored as a function that points to a function. -/
structure Offsets (e : Expr) : Prop where
  base : ∃ t, e.type? = some t ∧ (t.stored.isPointer = true ∨ t.stored.isArray = true ∧ t.isConst = false)
  named : ∀ f t, e = .function f → e.type? = some t → Check.pointedParameters? (Check.decayed t) = none

/-- Two expressions of the same type, or none. -/
inductive SameType : Option Expr → Option Expr → Prop
  | refused : SameType none none
  | accepted {e e' : Expr} {t t' : Ty} (type_eq : e.type? = some t) (type_eq' : e'.type? = some t') (same : t.same t' = true) :
      SameType (some e) (some e')

end Expr

namespace Check

open Spmd.Expr

variable {T : Target} {a i : Expr} {t u e p : Ty} {node n m : Node} {context : String}

/-! ## Conversions that always succeed -/

theorem pointedParameters_eq (p : Ty) (q q' : Qualifiers) (o o' : Origin) :
    pointedParameters? (.pointer p q o) = pointedParameters? (.pointer p q' o') := by
  cases p <;> rfl

theorem convertFunction_plain {f : FunctionName} (hf : Known f) (ht : f.node.type = some t) (hname : pointedParameters? p = none)
    (ho : Ty.obstacle false t p = none) : Succeeds T (convertFunction f p context) := by
  have hresolved := hf.isResolved ht
  unfold convertFunction pickOverload
  rw [hname]
  simp only [pure_bind, hresolved, Bool.not_true, Bool.false_eq_true, if_false, type_ok (e := .function f) ht, lift_ok,
    canConvert_true ho, if_true]
  exact Succeeds.some

/-- Where there are no items to fill and no function to pick, what has a type that converts is converted. -/
theorem convert_plain_succeeds (ha : Operand T a) (ht : a.type? = some t) (hl : p.Legal) (hr : p.isReference = false)
    (hp : p.isVoid = false ∧ p.isFunction = false) (hfill : ∀ n es, a = .list n es → fillTargets? es.length p = none)
    (hname : ∀ f, a = .function f → pointedParameters? p = none) (ho : Ty.obstacle false t.stored p = none) :
    Succeeds T (convert a p context) := by
  by_cases hf : ∃ f, a = .function f
  · obtain ⟨f, rfl⟩ := hf
    rw [convert]
    refine convertFunction_plain ha.known ht (hname f rfl) ?_
    cases t with
    | reference r o => exact Ty.obstacle_of_referent hr ho fun _ => hp
    | _ => exact ho
  · refine convert_succeeds ha ht hl (fun hu => ?_) fun _ => .inr ho
    cases hu with
    | reference h _ => rw [hr] at h; cases h
    | misnamed => exact hf ⟨_, rfl⟩
    | item h => rw [hfill _ _ rfl] at h; cases h

theorem convert_integer_succeeds (hi : Operand T i) (hu : i.type? = some u) (hint : u.rvalue.isIntegerScalar = true) (k : Kind)
    {v : Variability} (hv : u.rvalue.variability.join v = v) : Succeeds T (convert i (.basic k v) context) := by
  refine convert_plain_succeeds hi hu (Ty.legal_basic _ _) rfl ⟨rfl, rfl⟩ (fun _ _ _ => rfl) (fun _ _ => rfl) ?_
  have hscalar : ∀ r : Ty, r.asNonConst.isIntegerScalar = true → r.asNonConst.variability.join v = v →
      Ty.obstacle false r (.basic k v) = none := by
    intro r hr hv
    cases r with
    | scalar s => exact Ty.obstacle_to_basic s k hv
    | _ => cases hr
  cases u with
  | reference r o => exact hscalar r hint hv
  | _ => exact hscalar _ hint hv

theorem decayed_of_value (h : t.rvalue.isArray = false) : decayed t = t.rvalue := by
  unfold decayed
  split
  · rename_i he
    rw [he] at h
    cases h
  · rfl

theorem decayed_plain (h : (decayed t).isPointer = false) : decayed t = t.rvalue := by
  rw [decayed_isPointer] at h
  exact decayed_of_value (Bool.or_eq_false_iff.mp h).2

/-- What an index and an offset see of a base: the pointer it becomes points to what the index picks. -/
theorem decayed_of_stored (hr : t.isPointer = true ∨ t.isArray = true ∧ t.isConst = false) : ∃ p q o e,
    decayed t = .pointer p q o ∧ indexed? t = some (e, q.variability == .varying) ∧ e.bare = p.bare ∧
      ∀ v, Ty.obstacle false t (.pointer p ⟨q.variability.join v, false⟩) = none := by
  cases t with
  | pointer p q o => exact ⟨p, _, _, p, rfl, rfl, rfl, fun v => Ty.obstacle_to_pointer p q o v⟩
  | array e n o =>
    have he : e.isConst = false := (hr.resolve_left nofun).2
    exact ⟨_, _, _, e, rfl, rfl, (Ty.bare_asNonConst he).symm, fun v => Ty.obstacle_to_decayed n o _ he⟩
  | _ => rcases hr with h | ⟨h, -⟩ <;> cases h

theorem decayed_of_offsets (ht : a.type? = some t) (ho : a.Offsets) : ∃ p q o e, decayed t = .pointer p q o ∧
    indexed? t.stored = some (e, q.variability == .varying) ∧ e.bare = p.bare ∧
      ∀ v, Ty.obstacle false t.stored (.pointer p ⟨q.variability.join v, false⟩) = none := by
  obtain ⟨t', ht', hbase⟩ := ho.base
  obtain rfl : t' = t := Option.some.inj (ht'.symm.trans ht)
  cases t' with
  | reference r k =>
    cases r with
    | pointer p q o => exact decayed_of_stored (t := .pointer p q o) hbase
    | array e n o => exact decayed_of_stored (t := .array e n o) hbase
    | _ => rcases hbase with h | ⟨h, -⟩ <;> cases h
  | _ => exact decayed_of_stored hbase

/-! ## Elements and offset pointers -/

/-- The type of what is picked from elements through a pointer, with an integer only. -/
def picked? (element : Ty) (q : Qualifiers) (position : Ty) : Option Ty :=
  if position.isIntegerScalar && !element.isVoid then some (element.through ⟨q.variability.join position.variability, false⟩)
  else none

theorem picked_of_bare (q : Qualifiers) (w : Ty) (h : e.bare = p.bare) :
    picked? e q w = none ∧ picked? p q w = none ∨
      ∃ x y, picked? e q w = some x ∧ picked? p q w = some y ∧ x.same y = true := by
  unfold picked?
  rw [Ty.eq_of_bare Ty.isVoid_bare h]
  split
  · refine .inr ⟨_, _, rfl, rfl, (Ty.same_iff _ _).mpr ?_⟩
    rw [Ty.bare_through, Ty.bare_through, h]
  · exact .inl ⟨rfl, rfl⟩

/-- A result of a type that is no name, or none. -/
inductive OfType : Option Ty → Option Expr → Prop
  | refused : OfType none none
  | accepted {d : Expr} {w : Ty} (type_eq : d.type? = some w) (plain : d.isFunctionName = false) : OfType (some w) (some d)

theorem refused_meets (place : Option Location) (problem : Problem) :
    Meets T (reject place problem) fun o _ => OfType none o :=
  Meets.bind (report_meets place problem) fun _ _ _ => Meets.pure .refused

variable {q : Qualifiers} {o : Origin}

theorem isVarying_join (v w : Variability) : (w == .varying || v == .varying) = (v.join w == .varying) := by
  cases v <;> cases w <;> rfl

theorem checkIndex_picks (ht : a.type? = some t) (hi : Operand T i) (hu : i.type? = some u)
    (hx : indexed? t.stored = some (e, q.variability == .varying)) :
    Meets T (checkIndex node a i) fun o _ => OfType (picked? e q u.rvalue) o := by
  unfold checkIndex
  simp only [type_ok ht, type_ok hu, lift_ok, pure_bind, hx, picked?]
  cases hint : u.rvalue.isIntegerScalar with
  | false => exact refused_meets _ _
  | true =>
    simp only [Bool.not_true, Bool.false_eq_true, if_false, Bool.true_and]
    refine Meets.bind (convert_integer_succeeds hi hu hint .int32 (Variability.join_self _)) fun x new hx => ?_
    obtain ⟨i', rfl⟩ := Option.isSome_iff_exists.mp hx.1
    dsimp only
    cases e.isVoid with
    | true => exact refused_meets _ _
    | false =>
      refine Meets.pure (.accepted ?_ rfl)
      rw [Ty.isVarying, isVarying_join]
      simp only [Ty.through, beq_iff_eq]
      rfl

theorem convertBoth_succeeds {l r : Expr} {v w : Ty} (hl : Succeeds T (convert l v context))
    (hr : Succeeds T (convert r w context)) : Succeeds T (convertBoth l v r w context) := by
  unfold convertBoth
  exact Succeeds.bind hl fun l' => Succeeds.bind hr fun r' => Succeeds.some

/-- The pointer that is moved by an offset, with an integer only. -/
def moved? (pointee : Ty) (q : Qualifiers) (position : Ty) : Option Ty :=
  if position.isIntegerScalar && !pointee.isVoid then some (.pointer pointee ⟨q.variability.join position.variability, false⟩)
  else none

theorem offsetPointer_moves {b : BinaryOp} (ha : Operand T a) (ht : a.type? = some t)
    (hname : ∀ f, a = .function f → pointedParameters? (.pointer p q o) = none) (hi : Operand T i) (hu : i.type? = some u)
    (hd : decayed t = .pointer p q o)
    (hobstacle : ∀ v, Ty.obstacle false t.stored (.pointer p ⟨q.variability.join v, false⟩) = none) :
    Meets T (offsetPointer n b a i (.pointer p q o) u.rvalue true) fun d _ => OfType (moved? p q u.rvalue) d := by
  unfold offsetPointer
  simp only [if_true, Bool.not_true, Bool.false_eq_true, and_false, if_false, moved?]
  cases hint : u.rvalue.isIntegerScalar with
  | false => exact refused_meets _ _
  | true =>
    simp only [Bool.not_true, Bool.false_eq_true, if_false, Bool.true_and]
    have hvoid : (Ty.pointer p q o).isVoidPointer = p.isVoid := rfl
    by_cases h : p.isVoid = true
    · rw [if_pos (hvoid.trans h), if_neg (by simp [h])]
      exact refused_meets _ _
    · rw [if_neg fun hp => h (hvoid.symm.trans hp), if_pos (by simpa using h)]
      have hlegal : (Ty.pointer p q o).Legal := hd ▸ decayed_legal (ha.legal ht)
      have hbase : Succeeds T (convert a (.pointer p ⟨q.variability.join u.rvalue.variability, false⟩) b.description) := by
        refine convert_plain_succeeds ha ht hlegal rfl ⟨rfl, rfl⟩ (fun _ _ _ => rfl) (fun f hf => ?_) (hobstacle _)
        rw [pointedParameters_eq, hname f hf]
      obtain ⟨k, hk⟩ := Ty.sizeType_basic T u.rvalue.variability
      have hoffset : Succeeds T (convert i (.basic k u.rvalue.variability) b.description) :=
        convert_integer_succeeds hi hu hint k (Variability.join_self _)
      refine Meets.bind target_meets fun T' new hT => ?_
      obtain ⟨rfl, -⟩ := hT
      rw [hk]
      refine Meets.bind (convertBoth_succeeds hbase hoffset) fun lr new hlr => ?_
      obtain ⟨⟨l, r⟩, rfl⟩ := Option.isSome_iff_exists.mp hlr.1
      exact Meets.pure (.accepted rfl rfl)

/-- An offset from a pointer, which is dereferenced at once, gives what the pointer points to. -/
theorem checkOffset_picks (ha : Operand T a) (ht : a.type? = some t) (ho : a.Offsets) (hi : Operand T i) (hu : i.type? = some u)
    (hd : decayed t = .pointer p q o)
    (hobstacle : ∀ v, Ty.obstacle false t.stored (.pointer p ⟨q.variability.join v, false⟩) = none) :
    Meets T (checkBinary n (.arith .add) a i >>= resolved >>= fun d => withOne d (checkDereference m)) fun d _ =>
      OfType (picked? p q u.rvalue) d := by
  have hbase : (t.rvalue.isPointer || t.rvalue.isArray) = true := by rw [← decayed_isPointer, hd]; rfl
  have hpointers : checkBinary n (.arith .add) a i = checkPointers n (.arith .add) a i := by
    unfold checkBinary
    simp only [type_ok ht, type_ok hu, lift_ok, pure_bind]
    refine if_pos ?_
    rcases Bool.or_eq_true_iff.mp hbase with h | h <;> rw [h] <;> simp
  have hmoved : Meets T (checkPointers n (.arith .add) a i) fun d _ => OfType (moved? p q u.rvalue) d := by
    have hmoves := offsetPointer_moves (n := n) (b := .arith .add) ha ht (fun f hf => hd ▸ ho.named f t hf ht) hi hu hd hobstacle
    have hdecayed := decayed_isPointer u
    unfold checkPointers
    simp only [type_ok ht, type_ok hu, lift_ok, pure_bind, hd, BinaryOp.isComparison, Bool.false_eq_true, if_false, ne_eq,
      not_true, false_and]
    cases hb : decayed u with
    | pointer =>
      -- two pointers
      rw [hb] at hdecayed
      have hnone : moved? p q u.rvalue = none := by
        unfold moved?
        cases hr : u.rvalue <;> rw [hr] at hdecayed <;> first | rfl | cases hdecayed
      rw [hnone]
      exact refused_meets _ _
    | _ =>
      rw [← decayed_plain (by rw [hb]; rfl), hb] at hmoves ⊢
      exact hmoves
  rw [hpointers, bind_assoc]
  refine Meets.bind hmoved fun d new hd => ?_
  unfold moved? at hd
  unfold picked?
  split at hd
  · rename_i h
    rw [if_pos h]
    cases hd with
    | accepted type_eq plain =>
      have hvoid : p.isVoid = false := by simpa using (Bool.and_eq_true_iff.mp h).2
      rw [resolved_plain plain, pure_bind]
      dsimp only [withOne]
      rw [checkDereference_pointer type_eq hvoid]
      exact Meets.pure (.accepted rfl rfl)
  · rename_i h
    rw [if_neg h]
    cases hd
    exact Meets.pure .refused

end Check

/-- For a base `a` that is given alike to an index and to an offset, `a[i]` and `*(a + i)` are both refused in all sessions with
the target, or both accepted with the same type. -/
theorem typecheck_offset_alike {T : Target} {node n m : Node} {a i : Expr} {reported : Bool}
    (ha : Expr.Everywhere (Expr.Loaded T) a) (hi : Expr.Everywhere (Expr.Loaded T) i)
    (hbase : Check.Yields T (Check.typecheck a) Expr.Offsets) :
    Check.Pairs T (Check.typecheck (.index node a i))
      (Check.typecheck (.dereference m (.binary n (.arith .add) a i reported))) Expr.SameType := by
  have hindex : Check.typecheck (.index node a i) = Check.typecheck a >>= fun b => Check.typecheck i >>= fun i =>
      Check.withBoth b i (Check.checkIndex node) >>= Check.resolved := by
    unfold Check.typecheck
    rw [Check.check]
    simp only [Check.needed, bind_assoc]
  have hoffset : Check.typecheck (.dereference m (.binary n (.arith .add) a i reported)) =
      Check.typecheck a >>= fun b => Check.typecheck i >>= fun i =>
        (Check.withBoth b i (Check.checkBinary n (.arith .add)) >>= Check.resolved >>= fun d =>
          Check.withOne d (Check.checkDereference m)) >>= Check.resolved := by
    unfold Check.typecheck
    rw [Check.check, Check.check]
    simp only [Check.needed, bind_assoc]
  have hposition : Check.Yields T (Check.typecheck i) fun _ => True :=
    Check.Yields.mono (Check.typecheck_delivers (Expr.prepared_of_loaded hi)).yields fun _ _ => trivial
  rw [hindex, hoffset]
  refine Check.Pairs.bind (Check.typecheck_pairs (Expr.prepared_of_loaded ha) hbase) fun b b' hb => ?_
  obtain ⟨rfl, hb⟩ := hb
  refine Check.Pairs.bind (Check.typecheck_pairs (Expr.prepared_of_loaded hi) hposition) fun j j' hj => ?_
  obtain ⟨rfl, hj⟩ := hj
  cases b with
  | none => exact Check.Pairs.pure .refused
  | some b =>
    cases j with
    | none => exact Check.Pairs.pure .refused
    | some j =>
      obtain ⟨⟨hbase, t, ht⟩, ho⟩ := hb b rfl
      obtain ⟨⟨hposition, u, hu⟩, -⟩ := hj j rfl
      obtain ⟨p, q, o, e, hd, hx, hbare, hobstacle⟩ := Check.decayed_of_offsets ht ho
      refine Check.Pairs.bind (Check.Pairs.of_meets (Check.checkIndex_picks ht hposition hu hx)
        (Check.checkOffset_picks hbase ht ho hposition hu hd hobstacle) fun _ _ h h' => And.intro h h') fun c c' hc => ?_
      obtain ⟨⟨-, hc⟩, -, hc'⟩ := hc
      rcases Check.picked_of_bare q u.rvalue hbare with ⟨he, hp⟩ | ⟨x, y, he, hp, hsame⟩
      · rw [he] at hc
        rw [hp] at hc'
        cases hc
        cases hc'
        exact Check.Pairs.pure .refused
      · rw [he] at hc
        rw [hp] at hc'
        cases hc with
        | accepted type_eq plain =>
          cases hc' with
          | accepted type_eq' plain' =>
            rw [Check.resolved_plain plain, Check.resolved_plain plain']
            exact Check.Pairs.pure (.accepted type_eq type_eq' hsame)

/-! ## Elements in a program -/

/-- The elements `a[1]` and `*(a + 1)`, where `a` is declared as something stored or as a function. -/
def elementsJson (type : Json) (storage : String) : Json :=
  let a : Json := .object [("symbol", .string "a")]
  let moved : Json := .object [("binary", .string "+"), ("left", a), ("right", oneJson)]
  .object [("symbols", .array [.object [("name", .string "a"), ("type", type), ("storage", .string storage)]]),
    ("expressions", .array [.object [("index", a), ("at", oneJson)], .object [("dereference", moved)]])]

def elementOf (base : Expr) : Expr := .index {} base one

def offsetOf (base : Expr) : Expr := .dereference {} (.binary {} (.arith .add) base one false)

theorem arrayElement_read : ∃ scope, Program.read .standard "program"
    (some (elementsJson (.object [("array", .string "int32")]) "local")) =
      .ok ⟨scope, [elementOf (localNamed "a" int32Array), offsetOf (localNamed "a" int32Array)]⟩ := ⟨_, rfl⟩

theorem typecheck_offset_alike_array : Check.Pairs .standard (Check.typecheck (elementOf (localNamed "a" int32Array)))
    (Check.typecheck (offsetOf (localNamed "a" int32Array))) Expr.SameType := by
  obtain ⟨scope, hread⟩ := arrayElement_read
  have hloaded := Program.loaded hread (List.mem_cons_self ..)
  refine typecheck_offset_alike (hloaded.child (List.mem_cons_self ..))
    (hloaded.child (List.mem_cons_of_mem _ (List.mem_singleton_self _))) fun s hs r s' hrun => ?_
  rw [localNamed, Check.typecheck, Check.check] at hrun
  cases hrun
  refine ⟨fun c hc => ?_, hs⟩
  cases hc
  exact ⟨⟨_, rfl, .inr ⟨rfl, rfl⟩⟩, fun f t hf => by cases hf⟩

/-- One form is accepted, and the other is refused. -/
def OnlyFirst (e e' : Expr) : Prop :=
  (∃ c, ((Check.typecheck e).run { target := .standard }).1 = .ok (some c)) ∧
    ((Check.typecheck e').run { target := .standard }).1 = .ok none

/-- A name of something that is stored as a function. -/
def functionNamed (type : Ty) : Expr :=
  .function { node := {}, name := "a", candidates := [⟨"a", type, .function, none, none⟩] }

/-- An array of constant elements. -/
def constArray : Expr := localNamed "a" (.array (.asConst .int32) none)

/-- Elements of a constant array are indexed, but not reached by an offset; and neither is what a name points to that is stored as
a function and points to one. -/
theorem elements_unlike :
    (∃ scope, Program.read .standard "program" (some (elementsJson (.object [("array", .string "const int32")]) "local")) =
        .ok ⟨scope, [elementOf constArray, offsetOf constArray]⟩ ∧
      OnlyFirst (elementOf constArray) (offsetOf constArray)) ∧
    ∃ scope, Program.read .standard "program" (some (elementsJson (.object [("pointer", functionJson "int32" [])]) "function")) =
        .ok ⟨scope, [elementOf (functionNamed (.pointer getter {})), offsetOf (functionNamed (.pointer getter {}))]⟩ ∧
      OnlyFirst (elementOf (functionNamed (.pointer getter {}))) (offsetOf (functionNamed (.pointer getter {}))) :=
  ⟨⟨_, rfl, ⟨_, rfl⟩, rfl⟩, ⟨_, rfl, ⟨_, rfl⟩, rfl⟩⟩

end Spmd
