import Spmd.Proofs.Overload
import Spmd.Proofs.Session.Secluded
import Spmd.Typing.Conversion

/-!
# The function names of a tree

All that a pass finds out is about function names. `Expr.uses` lists the names of a tree, each with the number of arguments
where it is called, and a law of names (`Lawful`) says what of them resolving keeps. Within the bounds `Check.onNames`,
findings are about lawful names.
-/

namespace Spmd

/-! ## Names -/

namespace Expr

mutual
/-- The function names of a tree. A name that a call may call comes with the number of its arguments: a cast that picks no
function leaves the name as it is. -/
def uses (called : Option Nat) : Expr → List (Option Nat × FunctionName)
  | unary _ _ e => e.uses none
  | step _ _ e _ => e.uses none
  | binary _ _ l r _ => l.uses none ++ r.uses none
  | assign _ _ t v _ => t.uses none ++ v.uses none
  | select _ t a b => t.uses none ++ (a.uses none ++ b.uses none)
  | list _ es => usesAll es
  | call _ c args _ count _ => c.uses (some args.length) ++ (usesAll args ++ usesOf count)
  | index _ b i => b.uses none ++ i.uses none
  | member _ b _ _ _ => b.uses none
  | const .. => []
  | cast _ t e _ => e.uses (if (Check.pointedParameters? t).isNone then called else none)
  | reference _ e => e.uses called
  | dereference _ e => e.uses none
  | addressOf _ e => e.uses none
  | sizeOf _ e => e.uses none
  | sizeOfType .. => []
  | symbol .. => []
  | function f => [(called, f)]
  | sync _ => []
  | null _ => []
  | new _ _ count init _ => usesOf count ++ usesOf init
def usesAll : List Expr → List (Option Nat × FunctionName)
  | [] => []
  | e :: es => e.uses none ++ usesAll es
def usesOf : Option Expr → List (Option Nat × FunctionName)
  | none => []
  | some e => e.uses none
end

theorem usesAll_eq (es : List Expr) : usesAll es = es.flatMap (uses none) := by
  induction es with
  | nil => rfl
  | cons e es ih => rw [usesAll, ih, List.flatMap_cons]

/-- Whether a name in a child may be used in the way that the tree is, or is called. -/
def relays : Expr → Bool
  | call .. | cast .. | reference .. => true
  | _ => false

theorem mem_uses_child {e c : Expr} (he : e.relays = false) (hc : c ∈ e.children) {u : Option Nat × FunctionName}
    (hu : u ∈ c.uses none) (k : Option Nat) : u ∈ e.uses k := by
  cases e with
  | call | cast | reference => cases he
  | list n es =>
    rw [uses, usesAll_eq]
    exact List.mem_flatMap.mpr ⟨c, hc, hu⟩
  | new n t count init varying =>
    simp only [children, List.mem_append, Option.mem_toList] at hc
    rcases hc with hc | hc
    · cases hc
      exact List.mem_append_left (usesOf init) hu
    · cases hc
      exact List.mem_append_right (usesOf count) hu
  | _ =>
    simp only [children, List.mem_cons, List.not_mem_nil, or_false] at hc
    all_goals rcases hc with rfl | rfl | rfl <;> simp [uses, hu]

/-- A use of a name is the tree itself, or in one of the children. -/
theorem uses_cases {e : Expr} {k : Option Nat} {u : Option Nat × FunctionName} (h : u ∈ e.uses k) :
    e = .function u.2 ∨ ∃ c ∈ e.children, ∃ k', u ∈ c.uses k' := by
  cases e with
  | function f =>
    rw [uses, List.mem_singleton] at h
    exact .inl (by rw [h])
  | list n es =>
    rw [uses, usesAll_eq] at h
    obtain ⟨c, hc, hu⟩ := List.mem_flatMap.mp h
    exact .inr ⟨c, hc, none, hu⟩
  | call n c args launch count signature =>
    rw [uses, usesAll_eq] at h
    rcases List.mem_append.mp h with h | h
    · exact .inr ⟨c, by simp [children], _, h⟩
    · rcases List.mem_append.mp h with h | h
      · obtain ⟨a, ha, hu⟩ := List.mem_flatMap.mp h
        exact .inr ⟨a, by simp [children, ha], none, hu⟩
      · cases count with
        | none => cases h
        | some m => exact .inr ⟨m, by simp [children], none, h⟩
  | new n t count init varying =>
    rw [uses] at h
    rcases List.mem_append.mp h with h | h
    · cases count with
      | none => cases h
      | some m => exact .inr ⟨m, by simp [children], none, h⟩
    · cases init with
      | none => cases h
      | some i => exact .inr ⟨i, by simp [children], none, h⟩
  | const | sizeOfType | symbol | sync | null => cases h
  | _ =>
    simp only [uses, List.mem_append] at h
    right
    simp only [children, List.mem_cons, List.not_mem_nil, or_false, exists_eq_or_imp, exists_eq_left]
    aesop

theorem child_uses {e c : Expr} (hc : c ∈ e.children) (k : Option Nat) : ∃ k', ∀ u ∈ c.uses k', u ∈ e.uses k := by
  cases e with
  | call n callee args launch count signature =>
    simp only [children, List.cons_append, List.mem_cons, List.mem_append, Option.mem_toList] at hc
    rw [uses, usesAll_eq]
    rcases hc with rfl | hc | hc
    · exact ⟨_, fun u hu => List.mem_append_left _ hu⟩
    · refine ⟨none, fun u hu => List.mem_append_right _ (List.mem_append_left _ ?_)⟩
      exact List.mem_flatMap.mpr ⟨c, hc, hu⟩
    · cases hc
      exact ⟨none, fun u hu => List.mem_append_right _ (List.mem_append_right _ hu)⟩
  | cast n t e reported =>
    obtain rfl := List.mem_singleton.mp hc
    exact ⟨_, fun u hu => hu⟩
  | reference n e =>
    obtain rfl := List.mem_singleton.mp hc
    exact ⟨_, fun u hu => hu⟩
  | _ => exact ⟨none, fun u hu => mem_uses_child rfl hc hu k⟩

theorem everywhere_of_uses {Q : Expr → Prop} {e : Expr} {k : Option Nat} (h : ∀ u ∈ e.uses k, Q (.function u.2))
    (ho : ∀ e, (∀ f, e ≠ .function f) → Q e) : Everywhere Q e := by
  induction e using Expr.induct generalizing k with
  | h e ih =>
    refine .node ?_ fun c hc => ?_
    · by_cases hf : ∃ f, e = .function f
      · obtain ⟨f, rfl⟩ := hf
        exact h (k, f) List.mem_cons_self
      · exact ho e fun f he => hf ⟨f, he⟩
    · obtain ⟨k', hk⟩ := child_uses hc k
      exact ih c hc fun u hu => h u (hk u hu)

theorem uses_everywhere {Q : Expr → Prop} {e : Expr} {k : Option Nat} {u : Option Nat × FunctionName}
    (h : Everywhere Q e) (hu : u ∈ e.uses k) : Q (.function u.2) := by
  induction e using Expr.induct generalizing k with
  | h e ih =>
  rcases uses_cases hu with rfl | ⟨c, hc, k', hu⟩
  · exact h.here
  · exact ih c hc (h.child hc) hu

end Expr

/-! ## Laws -/

/-- A law of names that are used in some way. Settling on a function with a parameter for each argument keeps it. -/
structure Lawful (P : Option Nat → FunctionName → Prop) : Prop where
  known : ∀ {k f s}, P k f → f.choice.chosen = some s → Expr.Known f.settleType
  settle : ∀ {k f}, P k f → P k f.settleType
  pick : ∀ {k f s arguments}, P k f → f.choice = {} → resolve f.candidates arguments = .resolved s →
    (∀ n, k = some n → arguments.length = n) → P k (FunctionName.settleType { f with choice := ⟨some s, true⟩ })

theorem known_lawful : Lawful fun _ f => Expr.Known f.settleType where
  known h _ := h
  settle h := by rw [h.settleType_eq]; exact h
  pick h hc hs _ := by
    obtain ⟨hm, sig, hsig, -⟩ := resolve_resolved hs
    have hpick := h.pick hc hm hsig
    rw [hpick.settleType_eq]
    exact hpick

theorem tried_lawful : Lawful fun _ f => f.choice = ⟨none, true⟩ ∨ Expr.Known f.settleType where
  known h hs := h.resolve_left fun hc => by rw [hc] at hs; cases hs
  settle {k f} h := by
    rcases h with hc | hknown
    · exact .inl (f.settleType_choice.trans hc)
    · exact .inr (known_lawful.settle (k := k) hknown)
  pick {k f s arguments} h hc hs hk := by
    rcases h with hc' | hknown
    · rw [hc] at hc'
      cases hc'
    · exact .inr (known_lawful.pick (k := k) hknown hc hs hk)

/-- A name before anything was found out about it. -/
def FunctionName.origin (f : FunctionName) : FunctionName := { f with choice := {}, node := { f.node with type := none } }

theorem FunctionName.origin_settleType (f : FunctionName) : f.settleType.origin = f.origin := by
  obtain ⟨t, ht⟩ := f.settleType_eq
  rw [ht]
  rfl

theorem FunctionName.of_origin {f g : FunctionName} (h : f.origin = g.origin) :
    { f with choice := g.choice, node := { f.node with type := g.node.type } } = g := by
  obtain ⟨⟨place, type, tag⟩, name, candidates, choice⟩ := f
  obtain ⟨⟨place', type', tag'⟩, name', candidates', choice'⟩ := g
  simp only [origin, mk.injEq, Node.mk.injEq] at h
  simp only [mk.injEq, Node.mk.injEq]
  tauto

theorem FunctionName.choice_of_open {f : FunctionName} (h : ¬ (f.choice.chosen.isSome || f.choice.attempted) = true) :
    f.choice = {} := by
  cases hchoice : f.choice with
  | mk chosen attempted => cases chosen <;> cases attempted <;> simp_all

theorem FunctionName.tag_of_origin {f g : FunctionName} (h : f.origin = g.origin) : f.node.tag = g.node.tag :=
  congrArg (fun f => f.node.tag) h

/-- The law holds of a name that is one of some uses, with whatever was found out about it. -/
def Named (P : Option Nat → FunctionName → Prop) (us : List (Option Nat × FunctionName)) (k : Option Nat) (f : FunctionName) :
    Prop :=
  P k f ∧ ∃ u ∈ us, u.1 = k ∧ f.origin = u.2.origin

theorem Lawful.named {P : Option Nat → FunctionName → Prop} (hP : Lawful P) (us : List (Option Nat × FunctionName)) :
    Lawful (Named P us) where
  known h hs := hP.known h.1 hs
  settle := by
    intro k f ⟨h, u, hu, hk, hf⟩
    exact ⟨hP.settle h, u, hu, hk, f.origin_settleType.trans hf⟩
  pick := by
    intro k f s arguments ⟨h, u, hu, hk, hf⟩ hc hs hn
    exact ⟨hP.pick h hc hs hn, u, hu, hk, (FunctionName.origin_settleType _).trans hf⟩

/-- What checking an expression may leave open about the names in it: each of them is lawful. -/
inductive Expr.Waiting (P : Option Nat → FunctionName → Prop) : Option Nat → Expr → Prop
  | name {k : Option Nat} {f : FunctionName} (lawful : P k f) : Waiting P k (.function f)
  | list {k : Option Nat} {node : Node} {items : List Expr} (below : ∀ e ∈ items, Waiting P none e) :
      Waiting P k (.list node items)
  | closed {k : Option Nat} {e : Expr} (closed : e.awaitsTarget = false) : Waiting P k e

namespace Check

open Spmd.Expr

variable {T : Target} {P : Option Nat → FunctionName → Prop} {k : Option Nat} {f : FunctionName}

/-- Whatever is found out is what a lawful name keeps, or that there is no function for it. Only the former is found out where
there are no errors. -/
def onNames (T : Target) (P : Option Nat → FunctionName → Prop) : Bounds where
  admits := (· = T)
  finds y := ∃ k f, P k f ∧ f.node.tag = some y.tag ∧ (y.choice = f.choice ∨ y.choice = ⟨none, true⟩) ∧ y.type = f.node.type
  learns y := ∃ k f, P k f ∧ f.node.tag = some y.tag ∧ y.choice = f.choice ∧ y.type = f.node.type

theorem note_lawful (hf : P k f) : Secluded (onNames T P) f.note fun _ => True :=
  note_secluded fun _ htag => ⟨⟨k, f, hf, htag, .inl rfl, rfl⟩, k, f, hf, htag, rfl, rfl⟩

theorem resolve_lawful (hP : Lawful P) (hf : P k f) {arguments : List Argument}
    (hk : ∀ n, k = some n → arguments.length = n) :
    Secluded (onNames T P) (f.resolve arguments) fun r =>
      r.1.isSome = true → P k r.2 ∧ r.2.choice.chosen.isSome = true := by
  have hfinds : ∀ tag, f.node.tag = some tag →
      (onNames T P).finds ⟨tag, ⟨none, true⟩, f.node.type⟩ := fun tag htag => ⟨k, f, hf, htag, .inr rfl, rfl⟩
  unfold FunctionName.resolve
  split
  · exact Secluded.pure fun hsome => ⟨hf, hsome⟩
  · rename_i hopen
    have hc := FunctionName.choice_of_open hopen
    split
    · rename_i s hs
      have hpick := hP.pick hf hc hs hk
      exact Secluded.bind (note_lawful hpick) fun _ _ => Secluded.pure fun _ => ⟨hpick, by simp⟩
    · exact Secluded.refused hfinds nofun
    · exact Secluded.refused hfinds nofun

end Check

end Spmd
