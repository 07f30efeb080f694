import Spmd.Proofs.Session.Result
import Spmd.Proofs.Session.Secluded

/-!
# Pairs of passes

Two passes are related when they end without a fault in all sessions with the target, and their results are related
(`Check.Pairs`). A pass that looks at nothing but the target gives the same result on both sides.
-/

namespace Spmd.Check

def Pairs {α β : Type} (T : Target) (m : Check α) (m' : Check β) (R : α → β → Prop) : Prop :=
  ∀ s s' : Session, s.target = T → s'.target = T → ∃ a t b t', m.run s = (.ok a, t) ∧ m'.run s' = (.ok b, t') ∧
    t.target = T ∧ t'.target = T ∧ R a b

variable {T : Target} {α β γ δ : Type} {R : α → β → Prop}

theorem Pairs.bind {m : Check γ} {m' : Check δ} {k : γ → Check α} {k' : δ → Check β} {Q : γ → δ → Prop} (h : Pairs T m m' Q)
    (hk : ∀ c d, Q c d → Pairs T (k c) (k' d) R) : Pairs T (m >>= k) (m' >>= k') R := by
  intro s s' hs hs'
  obtain ⟨c, t, d, t', hm, hm', ht, ht', hq⟩ := h s s' hs hs'
  obtain ⟨a, u, b, u', ha, hb, hu, hu', hr⟩ := hk c d hq t t' ht ht'
  exact ⟨a, u, b, u', (run_bind hm).trans ha, (run_bind hm').trans hb, hu, hu', hr⟩

theorem Pairs.of_meets {m : Check α} {m' : Check β} {P : α → Log → Prop} {P' : β → Log → Prop} (h : Meets T m P)
    (h' : Meets T m' P') (hR : ∀ a b, (∃ new, P a new) → (∃ new, P' b new) → R a b) : Pairs T m m' R := by
  intro s s' hs hs'
  obtain ⟨a, new, found, ha, hp⟩ := h s hs
  obtain ⟨b, new', found', hb, hp'⟩ := h' s' hs'
  exact ⟨a, _, b, _, ha, hb, hs, hs', hR a b ⟨new, hp⟩ ⟨new', hp'⟩⟩

theorem Pairs.mono {m : Check α} {m' : Check β} {R' : α → β → Prop} (h : Pairs T m m' R) (hR : ∀ a b, R a b → R' a b) :
    Pairs T m m' R' := by
  intro s s' hs hs'
  obtain ⟨a, t, b, t', ha, hb, ht, ht', hr⟩ := h s s' hs hs'
  exact ⟨a, t, b, t', ha, hb, ht, ht', hR a b hr⟩

theorem Pairs.pure {a : α} {b : β} (h : R a b) : Pairs T (pure a) (pure b) R :=
  fun s s' hs hs' => ⟨a, s, b, s', rfl, rfl, hs, hs', h⟩

theorem Pairs.same {B : Bounds} {m : Check α} {P : α → Prop} {Q : α → Log → Prop} (h : Secluded B m P) (hT : B.admits T)
    (hm : Meets T m Q) :
    Pairs T m m fun a b => a = b ∧ P a ∧ (∃ new, Q a new) ∧ ∃ s s' : Session, s.target = T ∧ m.run s = (.ok a, s') := by
  intro s s' hs hs'
  obtain ⟨a, new, found, hrun, -, -, hp, hq⟩ := h.settles hT hm
  have hrun : ∀ s : Session, s.target = T → m.run s = (.ok a, s.after new found) := fun s hs => hrun s (hs ▸ hT)
  exact ⟨a, _, a, _, hrun s hs, hrun s' hs', hs, hs', rfl, hp, ⟨new, hq⟩, s, _, hs, hrun s hs⟩

theorem Pairs.reject {place place' : Option Location} {problem problem' : Problem} {R : Option α → Option β → Prop}
    (h : R none none) : Pairs T (reject place problem) (reject place' problem') R :=
  Pairs.bind (Pairs.of_meets (R := fun _ _ => True) (report_meets _ _) (report_meets _ _) fun _ _ _ _ => trivial)
    fun _ _ _ => Pairs.pure h

def Always (T : Target) (m : Check α) (a : α) : Prop :=
  ∀ s : Session, s.target = T → ∃ s', m.run s = (.ok a, s') ∧ s'.target = T

theorem Always.pure (a : α) : Always T (pure a) a := fun s hs => ⟨s, rfl, hs⟩

theorem Always.bind {m : Check γ} {c : γ} {k : γ → Check α} {a : α} (h : Always T m c) (hk : Always T (k c) a) :
    Always T (m >>= k) a := by
  intro s hs
  obtain ⟨t, hrun, ht⟩ := h s hs
  rw [run_bind hrun]
  exact hk t ht

theorem Meets.always {m : Check α} {a : α} (h : Meets T m fun b _ => b = a) : Always T m a := by
  intro s hs
  obtain ⟨b, new, found, hrun, rfl⟩ := h s hs
  exact ⟨_, hrun, hs⟩

theorem Pairs.always {m : Check α} {Q : α → Prop} (h : Pairs T m m fun a b => a = b ∧ Q a) : ∃ a, Always T m a ∧ Q a := by
  obtain ⟨a, t, -, -, hrun, -, -, -, -, hq⟩ := h { target := T } { target := T } rfl rfl
  refine ⟨a, fun s hs => ?_, hq⟩
  obtain ⟨b, u, c, u', hb, hc, hu, -, rfl, -⟩ := h s { target := T } hs rfl
  rw [hrun] at hc
  cases hc
  exact ⟨u, hb, hu⟩

theorem Always.left {m : Check γ} {c : γ} {k : γ → Check α} {m' : Check β} (h : Always T m c) (hk : Pairs T (k c) m' R) :
    Pairs T (m >>= k) m' R := by
  intro s s' hs hs'
  obtain ⟨t, hrun, ht⟩ := h s hs
  rw [run_bind hrun]
  exact hk t s' ht hs'

theorem Always.right {m' : Check γ} {c : γ} {k : γ → Check β} {m : Check α} (h : Always T m' c) (hk : Pairs T m (k c) R) :
    Pairs T m (m' >>= k) R := by
  intro s s' hs hs'
  obtain ⟨t, hrun, ht⟩ := h s' hs'
  rw [run_bind hrun]
  exact hk s t hs ht

/-- What is known of the results of the first pass holds of its result. -/
theorem Pairs.yields {m : Check (Option α)} {m' : Check β} {R : Option α → β → Prop} {P : α → Prop} (h : Pairs T m m' R)
    (hP : Yields T m P) : Pairs T m m' fun a b => R a b ∧ ∀ c ∈ a, P c := by
  intro s s' hs hs'
  obtain ⟨a, t, b, t', ha, hb, ht, ht', hr⟩ := h s s' hs hs'
  exact ⟨a, t, b, t', ha, hb, ht, ht', hr, (hP s hs _ _ ha).1⟩

theorem Pairs.reject_bind {place place' : Option Location} {problem problem' : Problem} {k : Option γ → Check (Option β)}
    {R : Option α → Option β → Prop} (h : R none none) (hk : k none = Pure.pure none) :
    Pairs T (Check.reject place problem) (Check.reject place' problem' >>= k) R := by
  have hreject : (Check.reject place' problem' >>= k) = Check.reject place' problem' := by
    simp only [Check.reject, bind_assoc, pure_bind, hk]
  exact hreject ▸ Pairs.reject h

end Spmd.Check
