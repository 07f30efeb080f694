import Mathlib.Data.List.Forall2

/-!
# Results and errors

A sequence of steps has a result exactly when each of its steps has one.
-/

namespace Spmd

theorem bind_ok {ε α β : Type} {m : Except ε α} {f : α → Except ε β} {x : α} (h : m = .ok x) :
    (m >>= f) = f x := by
  rw [h]; rfl

theorem run_bind_of_ok {σ ε α β : Type} {m : ExceptT ε (StateM σ) α} {k : α → ExceptT ε (StateM σ) β} {s s' : σ} {a : α}
    (h : (ExceptT.run m).run s = (.ok a, s')) : (ExceptT.run (m >>= k)).run s = (ExceptT.run (k a)).run s' := by
  simp only [ExceptT.run_bind, StateT.run_bind]
  rw [h]
  rfl

theorem run_bind_of_error {σ ε α β : Type} {m : ExceptT ε (StateM σ) α} {k : α → ExceptT ε (StateM σ) β} {s s' : σ} {f : ε}
    (h : (ExceptT.run m).run s = (.error f, s')) : (ExceptT.run (m >>= k)).run s = (.error f, s') := by
  simp only [ExceptT.run_bind, StateT.run_bind]
  rw [h]
  rfl

theorem ok_of_run_bind {σ ε α β : Type} {m : ExceptT ε (StateM σ) α} {k : α → ExceptT ε (StateM σ) β} {s s' : σ} {b : β}
    (h : (ExceptT.run (m >>= k)).run s = (.ok b, s')) :
    ∃ a t, (ExceptT.run m).run s = (.ok a, t) ∧ (ExceptT.run (k a)).run t = (.ok b, s') := by
  cases hm : (ExceptT.run m).run s with
  | mk o t =>
    cases o with
    | error f =>
      rw [run_bind_of_error hm] at h
      cases h
    | ok a =>
      rw [run_bind_of_ok hm] at h
      exact ⟨a, t, rfl, h⟩

theorem mapM_ok {ε α β : Type} {f : α → Except ε β} : ∀ {xs : List α}, (∀ x ∈ xs, ∃ y, f x = .ok y) →
    ∃ ys, xs.mapM f = .ok ys ∧ List.Forall₂ (fun x y => f x = .ok y) xs ys
  | [], _ => ⟨[], rfl, .nil⟩
  | x :: xs, h => by
    obtain ⟨y, hy⟩ := h x List.mem_cons_self
    obtain ⟨ys, hys, hf⟩ := mapM_ok fun x hx => h x (List.mem_cons_of_mem _ hx)
    refine ⟨y :: ys, ?_, .cons hy hf⟩
    rw [List.mapM_cons, hy]
    simp only [bind, Except.bind, hys]
    rfl

theorem Forall₂.getElem? {α β : Type} {R : α → β → Prop} {xs : List α} {ys : List β}
    (h : List.Forall₂ R xs ys) {i : Nat} {x : α} (hx : xs[i]? = some x) : ∃ y, ys[i]? = some y ∧ R x y := by
  induction h generalizing i with
  | nil => simp at hx
  | cons hr _ ih =>
    cases i with
    | zero => simp only [List.getElem?_cons_zero, Option.some.injEq] at hx; subst hx; exact ⟨_, rfl, hr⟩
    | succ i => simp only [List.getElem?_cons_succ] at hx ⊢; exact ih hx

theorem Forall₂.exists_of_mem {α β : Type} {R : α → β → Prop} {xs : List α} {ys : List β}
    (h : List.Forall₂ R xs ys) {y : β} (hy : y ∈ ys) : ∃ x ∈ xs, R x y := by
  induction h with
  | nil => cases hy
  | cons hr _ ih =>
    rcases List.mem_cons.mp hy with rfl | hy
    · exact ⟨_, List.mem_cons_self, hr⟩
    · obtain ⟨x, hx, hr⟩ := ih hy
      exact ⟨x, List.mem_cons_of_mem _ hx, hr⟩

theorem bind_eq_ok {ε α β : Type} {m : Except ε α} {f : α → Except ε β} {y : β} (h : (m >>= f) = .ok y) :
    ∃ x, m = .ok x ∧ f x = .ok y := by
  cases m with
  | error => cases h
  | ok x => exact ⟨x, rfl, h⟩

theorem map_eq_ok {ε α β : Type} {m : Except ε α} {f : α → β} {y : β} (h : f <$> m = .ok y) :
    ∃ x, m = .ok x ∧ f x = y := by
  cases m with
  | error => cases h
  | ok x => cases h; exact ⟨x, rfl, rfl⟩

end Spmd
