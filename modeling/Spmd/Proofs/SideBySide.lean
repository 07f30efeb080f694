import Spmd.Proofs.Except

/-!
# Two runs side by side

Two runs go alike if they start in related states and both end in related states, and both fail or both give related results
(`RunsAlike`). Why they fail may differ. Steps that go alike can be put in a row.
-/

namespace Spmd

/-- Both fail, or both have related results. -/
inductive Alike {ε α β : Type} (R : α → β → Prop) : Except ε α → Except ε β → Prop
  | failed (f g : ε) : Alike R (.error f) (.error g)
  | ended {a : α} {b : β} (related : R a b) : Alike R (.ok a) (.ok b)

section
variable {ε α β γ δ : Type} {R : α → β → Prop} {Q : γ → δ → Prop}

theorem Alike.refl (x : Except ε α) : Alike Eq x x := by
  cases x with
  | error f => exact .failed f f
  | ok => exact .ended rfl

theorem Alike.symm {x : Except ε α} {y : Except ε β} (h : Alike R x y) : Alike (fun b a => R a b) y x := by
  cases h with
  | failed f g => exact .failed g f
  | ended related => exact .ended related

theorem Alike.trans {R' : β → γ → Prop} {P : α → γ → Prop} {x : Except ε α} {y : Except ε β} {z : Except ε γ} (h : Alike R x y)
    (h' : Alike R' y z) (hP : ∀ a b c, R a b → R' b c → P a c) : Alike P x z := by
  cases h with
  | failed f g =>
    cases h' with
    | failed _ g' => exact .failed f g'
  | ended related =>
    cases h' with
    | ended related' => exact .ended (hP _ _ _ related related')

theorem Alike.bind {x : Except ε γ} {y : Except ε δ} {k : γ → Except ε α} {l : δ → Except ε β} (h : Alike Q x y)
    (hk : ∀ c d, Q c d → Alike R (k c) (l d)) : Alike R (x >>= k) (y >>= l) := by
  cases h with
  | failed f g => exact .failed f g
  | ended related => exact hk _ _ related

theorem Alike.map {f : γ → α} {g : δ → β} {x : Except ε γ} {y : Except ε δ} (h : Alike Q x y)
    (hf : ∀ c d, Q c d → R (f c) (g d)) : Alike R (f <$> x) (g <$> y) := by
  cases h with
  | failed f g => exact .failed f g
  | ended related => exact .ended (hf _ _ related)

end

/-- From related states to related states, and alike. -/
def RunsAlike {ε σ α β : Type} (S : σ → σ → Prop) (R : α → β → Prop) (m : ExceptT ε (StateM σ) α)
    (m' : ExceptT ε (StateM σ) β) : Prop :=
  ∀ s s', S s s' → Alike R ((ExceptT.run m).run s).1 ((ExceptT.run m').run s').1 ∧
    S ((ExceptT.run m).run s).2 ((ExceptT.run m').run s').2

namespace RunsAlike

variable {ε σ α β γ δ : Type} {S : σ → σ → Prop} {R : α → β → Prop} {Q : γ → δ → Prop}

theorem pure {a : α} {b : β} (h : R a b) :
    RunsAlike S R (Pure.pure a : ExceptT ε (StateM σ) α) (Pure.pure b : ExceptT ε (StateM σ) β) :=
  fun _ _ hs => ⟨.ended h, hs⟩

theorem throw (f g : ε) : RunsAlike S R (MonadExcept.throw f : ExceptT ε (StateM σ) α) (MonadExcept.throw g) :=
  fun _ _ hs => ⟨.failed f g, hs⟩

theorem lift {x : Except ε α} {y : Except ε β} (h : Alike R x y) :
    RunsAlike S R (liftM x : ExceptT ε (StateM σ) α) (liftM y : ExceptT ε (StateM σ) β) :=
  fun _ _ hs => ⟨h, hs⟩

theorem bind {m : ExceptT ε (StateM σ) γ} {m' : ExceptT ε (StateM σ) δ} {k : γ → ExceptT ε (StateM σ) α}
    {k' : δ → ExceptT ε (StateM σ) β} (h : RunsAlike S Q m m') (hk : ∀ c d, Q c d → RunsAlike S R (k c) (k' d)) :
    RunsAlike S R (m >>= k) (m' >>= k') := by
  intro s s' hs
  obtain ⟨halike, hstate⟩ := h s s' hs
  cases hm : (ExceptT.run m).run s with
  | mk o t =>
    cases hm' : (ExceptT.run m').run s' with
    | mk o' t' =>
      rw [hm, hm'] at halike hstate
      cases halike with
      | failed f g =>
        rw [run_bind_of_error hm, run_bind_of_error hm']
        exact ⟨.failed f g, hstate⟩
      | ended related =>
        rw [run_bind_of_ok hm, run_bind_of_ok hm']
        exact hk _ _ related t t' hstate

theorem next {m m' : ExceptT ε (StateM σ) γ} {k : γ → ExceptT ε (StateM σ) α} {k' : γ → ExceptT ε (StateM σ) β}
    (h : RunsAlike S Eq m m') (hk : ∀ c, RunsAlike S R (k c) (k' c)) : RunsAlike S R (m >>= k) (m' >>= k') :=
  h.bind fun c _ hc => hc ▸ hk c

theorem meet {m : ExceptT ε (StateM σ) α} {m' : ExceptT ε (StateM σ) β} {n : ExceptT ε (StateM σ) γ}
    {R : α → γ → Prop} {R' : β → γ → Prop} {P : α → β → Prop} (h : RunsAlike S R m n) (h' : RunsAlike S R' m' n)
    (hrefl : ∀ s, S s s) (hS : ∀ s t u, S s u → S t u → S s t) (hP : ∀ a b c, R a c → R' b c → P a b) : RunsAlike S P m m' := by
  intro s s' hs
  obtain ⟨ha, ht⟩ := h s s' hs
  obtain ⟨ha', ht'⟩ := h' s' s' (hrefl s')
  exact ⟨ha.trans ha'.symm fun a c b hR hR' => hP a b c hR hR', hS _ _ _ ht ht'⟩

end RunsAlike

end Spmd
