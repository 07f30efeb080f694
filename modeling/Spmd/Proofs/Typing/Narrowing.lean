import Spmd.Proofs.Constant.Canonical
import Spmd.Proofs.Session.Terse
import Spmd.Proofs.Typing.Conversion

/-!
# Warnings about narrowed constants

A literal integer that is converted to a kind of fewer bits gets one warning if the integer of some lane is not one of this kind, and
none otherwise, except where the bits that are cut off come back with the sign: the greatest integers without a sign turn into
negative ones without a warning (`narrowing_reported`, `narrowing_unreported`).
-/

namespace Spmd

/-! ## Constants that do not survive -/

namespace Constant

/-- Some lane of an integer constant holds an integer that a kind of fewer bits has not, neither as it is nor as the negative
integer of the same bits. -/
def Loses (c : Constant) (k : Kind) : Prop :=
  k.bits < c.kind.bits ∧ ∃ n, .int n ∈ c.lanes ∧ k.holds n = false ∧ k.holds (n - c.kind.span) = false

variable {width : Nat} {c : Constant} {k : Kind}

theorem convert_back_same :
    ((c.convert k).convert c.kind).same c = true ↔ ∀ s ∈ c.lanes, (s.toKind k).toKind c.kind = s := by
  have hlanes := List.map_inj_left (l := c.lanes) (f := fun s => (s.toKind k).toKind c.kind) (g := id)
  rw [List.map_id] at hlanes
  rw [convert_convert, same, beq_self_eq_true, Bool.true_and, beq_iff_eq]
  exact hlanes

theorem survives_iff (hc : c.Sound width) (hint : c.kind.isInteger = true) (hk : k.isInteger = true) :
    ((c.convert k).convert c.kind).same c = true ↔ ¬ c.Loses k := by
  have hback : ∀ n, .int n ∈ c.lanes →
      (((Scalar.int n).toKind k).toKind c.kind = .int n ↔
        c.kind.bits ≤ k.bits ∨ k.holds n = true ∨ k.holds (n - c.kind.span) = true) := by
    intro n hn
    rw [Scalar.toKind_int hk, Scalar.toKind_int hint, Scalar.int.injEq]
    exact Kind.wrap_back_eq_self hint (hc.fits _ hn).2
  rw [convert_back_same]
  constructor
  · rintro h ⟨hbits, n, hn, hholds, hsigned⟩
    rcases (hback n hn).mp (h _ hn) with hle | hh | hh
    · omega
    · rw [hholds] at hh
      cases hh
    · rw [hsigned] at hh
      cases hh
  · intro h s hs
    obtain ⟨n, rfl, -⟩ := hc.int_of_mem hint hs
    refine (hback n hs).mpr ?_
    by_contra hlost
    push Not at hlost
    exact h ⟨hlost.1, n, hs, Bool.eq_false_iff.mpr hlost.2.1, Bool.eq_false_iff.mpr hlost.2.2⟩

theorem loses_iff (hc : c.Sound width) (hint : c.kind.isInteger = true)
    (hsign : c.kind.isUnsigned = true → k.isUnsigned = true) :
    c.Loses k ↔ k.bits < c.kind.bits ∧ ∃ n, .int n ∈ c.lanes ∧ k.holds n = false := by
  refine and_congr_right fun hbits => exists_congr fun n => and_congr_right fun hn => ?_
  obtain ⟨m, hm, hholds⟩ := hc.int_of_mem hint hn
  cases hm
  rw [Kind.not_holds_sub_span hholds hbits hsign, eq_self, and_true]

end Constant

/-! ## Passes that warn -/

namespace Check

open Spmd.Expr

variable {α : Type} {place : Option Location} {context : String} {explicit : Bool} {source target : Ty}

theorem ifConverts_adds {k : Check (Option α)} {Q : Except Fault (Option α) → Log → Prop}
    (h : Ty.obstacle explicit source target = none → Adds k Q) (hn : ∀ new, Q (.ok none) new) :
    Adds (canConvert place context explicit source target >>= fun b => if b = true then k else Pure.pure none) Q := by
  unfold canConvert
  split
  · rename_i ho
    rw [pure_bind]
    exact h ho
  · rw [bind_assoc]
    exact Adds.bind (Meets.adds fun _ => report_meets _ _) (fun _ _ ⟨_, hok, _⟩ => by cases hok) fun _ new _ => Adds.pure (hn _)

/-- One message if something is lost, and no message otherwise. -/
def Warned (lost : Prop) (message : Message) (new : Log) : Prop := (lost → new = [message]) ∧ (¬ lost → new = [])

theorem Warned.nil {lost : Prop} {message : Message} (h : ¬ lost) : Warned lost message [] :=
  ⟨fun hlost => absurd hlost h, fun _ => rfl⟩

section
variable {width : Nat} {s u : ScalarTy} {node : Node} {c : Constant} (hc : c.Suits width s) (hint : c.kind.isInteger = true)
  (hto : u.element.kind.isInteger = true)

/-- The warning that a literal loses its value. -/
def narrowed (node : Node) (c : Constant) (s u : ScalarTy) (context : String) : Message :=
  ⟨.warning (.narrowing c (c.convert u.element.kind) (.scalar s) (.scalar u) context), node.place⟩

include hc

theorem not_loses_of_core (h : (Ty.scalar s).core = (Ty.scalar u).core) : ¬ c.Loses u.element.kind := by
  rintro ⟨hbits, -⟩
  obtain ⟨_, heq, helement, -⟩ := Ty.scalar_of_core h
  cases heq
  rw [hc.kind_eq, ← Element.bare_kind, ← helement, Element.bare_kind] at hbits
  exact Nat.lt_irrefl _ hbits

include hint hto

theorem warnOfNarrowing_adds (context : String) :
    Adds (warnOfNarrowing node.place c (.scalar s) (.scalar u) context) fun _ new =>
      Warned (c.Loses u.element.kind) (narrowed node c s u context) new := by
  have hsurvives := Constant.survives_iff hc.toSound hint hto
  unfold warnOfNarrowing
  dsimp only
  rw [hint, hto, Bool.true_and, Bool.true_and]
  cases hsame : ((c.convert u.element.kind).convert c.kind).same c with
  | true => exact Adds.pure (Warned.nil (hsurvives.mp hsame))
  | false =>
    rw [hsame] at hsurvives
    have hlost : c.Loses u.element.kind := by
      by_contra hkept
      cases hsurvives.mpr hkept
    exact Adds.mono (Meets.adds fun _ => warn_meets _ _) fun _ _ ⟨_, _, hnew⟩ => ⟨fun _ => hnew, fun h => absurd hlost h⟩

/-- A dropped `const` is no conversion to another kind, so that the branch without a warning owes none. -/
theorem convertRead_warns (context : String) :
    Adds (convertRead (.const node c) (.scalar s) (.scalar u) context) fun r new =>
      ∀ e, r = .ok (some e) → Warned (c.Loses u.element.kind) (narrowed node c s u context) new := by
  unfold convertRead
  refine ifConverts_adds (fun _ => ?_) nofun
  split
  · rename_i hsame
    exact Adds.pure fun _ _ => Warned.nil (not_loses_of_core hc ((Ty.sameIgnoringConst_iff _ _).mp hsame))
  · dsimp only
    refine Adds.bind (warnOfNarrowing_adds hc hint hto context) (fun _ _ _ => nofun) fun _ new hnew => ?_
    refine Adds.pure fun _ _ => ?_
    rw [List.append_nil]
    exact hnew

theorem convert_warns (htype : node.type = some (.scalar s)) (context : String) :
    Adds (convert (.const node c) (.scalar u) context) fun r new =>
      ∀ e, r = .ok (some e) → Warned (c.Loses u.element.kind) (narrowed node c s u context) new := by
  have hsource : (Expr.const node c).type? = some (.scalar s) := htype
  rw [convert_closed rfl]
  unfold convertValue
  simp only [type_ok hsource, lift_ok, pure_bind]
  split
  · rename_i hsame
    exact Adds.pure fun _ _ => Warned.nil (not_loses_of_core hc (Ty.core_eq_of_same hsame))
  · rw [show becomesNull (.const node c) (.scalar s) (.scalar u) = false from rfl, if_neg Bool.false_ne_true,
      show (Ty.scalar u).isReference = false from rfl, if_neg Bool.false_ne_true]
    exact convertRead_warns hc hint hto context

end

/-! ## What is reported -/

/-- A literal integer that is converted to a type of an integer kind is reported once if some lane loses its value with the bits
that are cut off, and nothing is reported if no lane does. An integer that the target kind does not have is not reported if the
kind has the negative integer of the same bits. -/
theorem narrowing_reported {width : Nat} {s u : ScalarTy} {node : Node} {c : Constant} (htype : node.type = some (.scalar s))
    (hc : c.Suits width s) (hint : c.kind.isInteger = true) (hto : u.element.kind.isInteger = true) (context : String)
    {session after : Session} {e : Expr} (hrun : (convert (.const node c) (.scalar u) context).run session = (.ok (some e), after)) :
    (c.Loses u.element.kind → after.log = session.log ++ [narrowed node c s u context]) ∧
      (¬ c.Loses u.element.kind → after.log = session.log) := by
  obtain ⟨new, found, hafter, hwarned⟩ := convert_warns hc hint hto htype context session
  rw [hrun] at hafter hwarned
  cases hafter
  refine (hwarned e rfl).imp (fun h hlost => ?_) (fun h hkept => ?_)
  · rw [← h hlost]
  · change session.log ++ new = session.log
    rw [h hkept, List.append_nil]

/-- A uniform type of a basic kind. -/
def uniformOf (k : Kind) (isConst : Bool) : ScalarTy := ⟨.basic k, ⟨.uniform, isConst⟩, none⟩

/-- A literal integer of a kind, checked. -/
def literalNode (k : Kind) : Node := .typed none (.scalar (uniformOf k true))

theorem literal_suits {k : Kind} {n : Int} (hn : (Scalar.int n).Fits k) : Constant.Suits 8 (uniformOf k true) ⟨k, 8, [.int n]⟩ where
  width_eq := rfl
  count_eq := .inl rfl
  fits _ hs := List.mem_singleton.mp hs ▸ hn
  kind_eq := rfl
  single _ := rfl
  full := nofun

theorem narrowing_reported_byte : ∃ e after,
    (convert (.const (literalNode .int32) ⟨.int32, 8, [.int 300]⟩) (.scalar (uniformOf .int8 false)) "test").run
      { target := .standard } = (.ok (some e), after) ∧
    after.log = [⟨.warning (.narrowing ⟨.int32, 8, [.int 300]⟩ ⟨.int8, 8, [.int 44]⟩ (.scalar (uniformOf .int32 true))
      (.scalar (uniformOf .int8 false)) "test"), none⟩] := by
  have hc : Constant.Suits 8 (uniformOf .int32 true) ⟨.int32, 8, [.int 300]⟩ := literal_suits (by decide)
  have hlost : Constant.Loses ⟨.int32, 8, [.int 300]⟩ .int8 := ⟨by decide, 300, List.mem_singleton_self _, rfl, rfl⟩
  obtain ⟨e, after, hrun⟩ : ∃ e after, (convert (.const (literalNode .int32) ⟨.int32, 8, [.int 300]⟩)
    (.scalar (uniformOf .int8 false)) "test").run { target := .standard } = (.ok (some e), after) := ⟨_, _, rfl⟩
  exact ⟨e, after, hrun, (narrowing_reported rfl hc rfl rfl "test" hrun).1 hlost⟩

/-- The greatest integer of 16 bits without a sign becomes -1 with 8 bits, and -1 becomes the integer that it was. So nothing is
reported, although the kind has no such integer. -/
theorem narrowing_unreported :
    (∃ e, (convert (.const (literalNode .uint16) ⟨.uint16, 8, [.int 65535]⟩) (.scalar (uniformOf .int8 false)) "test").run
      { target := .standard } = (.ok (some e), { target := .standard })) ∧
    (Constant.convert ⟨.uint16, 8, [.int 65535]⟩ .int8).lanes = [.int (-1)] ∧
    ¬ ∀ (width : Nat) (s u : ScalarTy) (node : Node) (c : Constant) (context : String) (session after : Session) (e : Expr),
      node.type = some (.scalar s) → c.Suits width s → c.kind.isInteger = true → u.element.kind.isInteger = true →
        u.element.kind.bits < c.kind.bits → (convert (.const node c) (.scalar u) context).run session = (.ok (some e), after) →
          (∃ n, .int n ∈ c.lanes ∧ u.element.kind.holds n = false) → ∃ message, after.log = session.log ++ [message] := by
  refine ⟨⟨_, rfl⟩, rfl, fun h => ?_⟩
  obtain ⟨message, hlog⟩ := h 8 (uniformOf .uint16 true) (uniformOf .int8 false) (literalNode .uint16) ⟨.uint16, 8, [.int 65535]⟩ "test"
    { target := .standard } { target := .standard } _ rfl (literal_suits (by decide)) rfl rfl (by decide) rfl
    ⟨65535, List.mem_singleton_self _, rfl⟩
  cases hlog

end Check

end Spmd
