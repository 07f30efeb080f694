import Spmd.Expr.Basic

/-!
# Properties of all nodes of a tree

`Expr.induct` is induction on an expression by its children, and `Everywhere P e` says that `P` holds at every node of
the tree `e`.
-/

namespace Spmd.Expr

theorem sizeOf_child {e c : Expr} (h : c ∈ e.children) : SizeOf.sizeOf c < SizeOf.sizeOf e := by
  cases e with
  | list _ es =>
    have hc : SizeOf.sizeOf c < SizeOf.sizeOf es := List.sizeOf_lt_of_mem h
    simp only [list.sizeOf_spec]
    omega
  | call _ callee args _ count _ =>
    simp only [children, List.cons_append, List.mem_cons, List.mem_append, Option.mem_toList] at h
    rcases h with rfl | h | h
    · simp only [call.sizeOf_spec]; omega
    · have hc := List.sizeOf_lt_of_mem h
      simp only [call.sizeOf_spec]; omega
    · cases h; simp only [call.sizeOf_spec, Option.some.sizeOf_spec]; omega
  | new _ _ count init _ =>
    simp only [children, List.mem_append, Option.mem_toList] at h
    rcases h with h | h
    · cases h; simp only [new.sizeOf_spec, Option.some.sizeOf_spec]; omega
    · cases h; simp only [new.sizeOf_spec, Option.some.sizeOf_spec]; omega
  | _ =>
    simp only [children, List.mem_cons, List.not_mem_nil, or_false] at h
    all_goals rcases h with rfl | rfl | rfl
    all_goals simp
    all_goals omega

/-- Induction on a tree: what holds of a node as soon as it holds of the children holds of every node. -/
theorem induct {P : Expr → Prop} (h : ∀ e : Expr, (∀ c ∈ e.children, P c) → P e) (e : Expr) : P e :=
  h e fun c _ => induct h c
termination_by SizeOf.sizeOf e
decreasing_by exact sizeOf_child ‹_›

inductive Everywhere (P : Expr → Prop) : Expr → Prop
  | node {e : Expr} (here : P e) (below : ∀ c ∈ e.children, Everywhere P c) : Everywhere P e

variable {P Q : Expr → Prop} {e c : Expr}

theorem Everywhere.here (h : Everywhere P e) : P e := by
  cases h with
  | node here _ => exact here

theorem Everywhere.child (h : Everywhere P e) (hc : c ∈ e.children) : Everywhere P c := by
  cases h with
  | node _ below => exact below c hc

theorem Everywhere.of_forall (h : ∀ e, P e) (e : Expr) : Everywhere P e := by
  induction e using Expr.induct with
  | h e ih => exact .node (h e) ih

theorem Everywhere.leaf (h : P e) (hc : e.children = []) : Everywhere P e :=
  .node h fun c hm => by rw [hc] at hm; cases hm

theorem Everywhere.one (h : P e) (hc : e.children = [c]) (hone : Everywhere P c) : Everywhere P e := by
  refine .node h fun d hd => ?_
  rw [hc, List.mem_singleton] at hd
  exact hd ▸ hone

theorem Everywhere.two {d : Expr} (h : P e) (hc : e.children = [c, d]) (hone : Everywhere P c)
    (htwo : Everywhere P d) : Everywhere P e := by
  refine .node h fun x hx => ?_
  rw [hc, List.mem_cons, List.mem_singleton] at hx
  rcases hx with rfl | rfl
  · exact hone
  · exact htwo

theorem Everywhere.and (hP : Everywhere P e) (hQ : Everywhere Q e) : Everywhere (fun e => P e ∧ Q e) e := by
  induction hP with
  | node here _ ih => exact .node ⟨here, hQ.here⟩ fun c hc => ih c hc (hQ.child hc)

theorem Everywhere.mono (hPQ : ∀ e, P e → Q e) (h : Everywhere P e) : Everywhere Q e := by
  induction h with
  | node here _ ih => exact .node (hPQ _ here) ih

/-- What holds at every node of a tree holds at every node of its subtrees. -/
theorem Everywhere.subtrees (h : Everywhere P e) : Everywhere (Everywhere P) e := by
  induction h with
  | node here below ih => exact .node (.node here below) ih

end Spmd.Expr
