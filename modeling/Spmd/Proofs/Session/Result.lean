import Spmd.Proofs.Session.Contract

/-!
# Results of passes

`Check.Gives` says what is known of a result once a pass ended without a fault, and leaves open whether it does. It is
put together along the steps of a pass, and every contract (`Check.Meets`) gives one. `Check.Yields` speaks of the
expression that a check may have as its result.
-/

namespace Spmd.Check

def Gives {α : Type} (T : Target) (m : Check α) (P : α → Prop) : Prop :=
  ∀ s : Session, s.target = T → ∀ a s', m.run s = (.ok a, s') → P a ∧ s'.target = T

variable {T : Target} {α β γ : Type} {P P' : α → Prop} {Q : β → Prop} {R : γ → Prop}

/-! ## Steps -/

theorem run_lift (x : Except Fault α) (s : Session) : (liftM x : Check α).run s = (x, s) := rfl

theorem run_bind_ok {m : Check β} {k : β → Check α} {s s' : Session} {a : α} (h : (m >>= k).run s = (.ok a, s')) :
    ∃ b t, m.run s = (.ok b, t) ∧ (k b).run t = (.ok a, s') := ok_of_run_bind h

theorem Gives.pure {a : α} (h : P a) : Gives T (pure a) P := by
  intro s hs b s' hb
  cases hb
  exact ⟨h, hs⟩

theorem Gives.bind {m : Check β} {k : β → Check α} (h : Gives T m Q) (hk : ∀ b, Q b → Gives T (k b) P) :
    Gives T (m >>= k) P := by
  intro s hs a s' ha
  obtain ⟨b, t, hb, ha⟩ := run_bind_ok ha
  obtain ⟨hq, ht⟩ := h s hs b t hb
  exact hk b hq t ht a s' ha

theorem Gives.mono {m : Check α} (h : Gives T m P) (hP : ∀ a, P a → P' a) : Gives T m P' := by
  intro s hs a s' ha
  obtain ⟨hp, ht⟩ := h s hs a s' ha
  exact ⟨hP a hp, ht⟩

theorem Gives.and {m : Check α} (h : Gives T m P) (h' : Gives T m P') : Gives T m fun a => P a ∧ P' a := by
  intro s hs a s' ha
  obtain ⟨hp, ht⟩ := h s hs a s' ha
  exact ⟨⟨hp, (h' s hs a s' ha).1⟩, ht⟩

theorem Gives.lift {x : Except Fault β} {k : β → Check α} (h : ∀ b, x = .ok b → Gives T (k b) P) :
    Gives T ((liftM x : Check β) >>= k) P := by
  intro s hs a s' ha
  obtain ⟨b, t, hb, ha⟩ := run_bind_ok ha
  rw [run_lift] at hb
  cases hb
  exact h b rfl s hs a s' ha

theorem Meets.gives {m : Check α} {Q : α → Log → Prop} (h : Meets T m Q) : Gives T m fun a => ∃ new, Q a new := by
  intro s hs a s' ha
  obtain ⟨b, new, found, hb, hq⟩ := h s hs
  rw [hb] at ha
  cases ha
  exact ⟨⟨new, hq⟩, hs⟩

theorem Meets.and_gives {m : Check α} {Q : α → Log → Prop} (h : Meets T m Q) (hP : Gives T m P) :
    Meets T m fun a new => Q a new ∧ P a := by
  intro s hs
  obtain ⟨a, new, found, hrun, hq⟩ := h s hs
  exact ⟨a, new, found, hrun, hq, (hP s hs _ _ hrun).1⟩

/-! ## Checks -/

/-- Whatever expression a check has as its result satisfies a property. -/
def Yields (T : Target) (m : Check (Option α)) (P : α → Prop) : Prop := Gives T m fun o => ∀ a, o = some a → P a

theorem Yields.some {a : α} (h : P a) : Yields T (return some a) P :=
  Gives.pure fun _ hb => by cases hb; exact h

theorem Yields.none : Yields T (return none) P := Gives.pure fun _ hb => by cases hb

theorem Yields.mono {m : Check (Option α)} (h : Yields T m P) (hP : ∀ a, P a → P' a) : Yields T m P' :=
  Gives.mono h fun _ ho a ha => hP a (ho a ha)

theorem Yields.and {m : Check (Option α)} (h : Yields T m P) (h' : Yields T m P') :
    Yields T m fun a => P a ∧ P' a :=
  Gives.mono (Gives.and h h') fun _ ho a ha => ⟨ho.1 a ha, ho.2 a ha⟩

theorem Delivers.yields {m : Check (Option α)} (h : Delivers T m P) : Yields T m P := by
  refine Gives.mono (Meets.gives h) fun o ho a ha => ?_
  obtain ⟨new, hout⟩ := ho
  rw [ha] at hout
  exact hout.2

/-- A check that has no result reports an error instead. -/
theorem Delivers.refused {m : Check (Option α)} (h : Delivers T m P) (hn : Yields T m fun _ => False) :
    Meets T m fun o _ => o = Option.none := by
  intro s hs
  obtain ⟨o, new, found, hrun, -⟩ := h s hs
  refine ⟨o, new, found, hrun, ?_⟩
  cases o with
  | none => rfl
  | some a => exact ((hn s hs _ _ hrun).1 a rfl).elim

theorem Yields.reject (place : Option Location) (problem : Problem) : Yields T (reject place problem) P :=
  (Delivers.reject place problem).yields

theorem Yields.bind {m : Check (Option β)} {k : Option β → Check (Option α)} (h : Yields T m Q)
    (hk : ∀ b, Q b → Yields T (k (Option.some b)) P) (hn : Yields T (k Option.none) P) : Yields T (m >>= k) P := by
  refine Gives.bind h fun o ho => ?_
  cases o with
  | none => exact hn
  | some b => exact hk b (ho b rfl)

theorem Yields.lift {x : Except Fault (Option α)} (h : ∀ a, x = .ok (Option.some a) → P a) :
    Yields T (liftM x : Check (Option α)) P := by
  intro s hs o s' ho
  rw [run_lift] at ho
  cases ho
  exact ⟨fun a ha => h a (by rw [ha]), hs⟩

theorem Yields.target {k : Target → Check (Option α)} (h : Yields T (k T) P) : Yields T (target >>= k) P := by
  refine Gives.bind (Meets.gives target_meets) fun t ht => ?_
  obtain ⟨-, rfl, -⟩ := ht
  exact h

theorem Yields.both {l : Check (Option β)} {r : Check (Option γ)} {k : Option β → Option γ → Check (Option α)}
    (hl : Yields T l Q) (hr : Yields T r R)
    (hk : ∀ b c, Q b → R c → Yields T (k (Option.some b) (Option.some c)) P)
    (hn : ∀ o, Yields T (k Option.none o) P) (hm : ∀ b, Yields T (k (Option.some b) Option.none) P) :
    Yields T (l >>= fun b => r >>= fun c => k b c) P := by
  refine Yields.bind hl (fun b hb => ?_) ?_
  · exact Yields.bind hr (fun c hc => hk b c hb hc) (hm b)
  · exact Yields.bind hr (fun c _ => hn (Option.some c)) (hn Option.none)

theorem Yields.law (T : Target) : Law (Yields T) where
  some := Yields.some
  bind hm hk hn := Yields.bind hm hk (hn ▸ Yields.none)
  both hl hr hk hn hm := Yields.both hl hr hk (fun o => hn o ▸ Yields.none) fun b => hm b ▸ Yields.none

/-! ## Checks that succeed -/

/-- A check has a result, and reports no error. -/
def Succeeds (T : Target) (m : Check (Option α)) : Prop := Meets T m fun o new => o.isSome = true ∧ Log.errors new = []

theorem Succeeds.some {a : α} : Succeeds T (return some a) := Meets.pure ⟨rfl, rfl⟩

theorem Succeeds.bind {m : Check (Option β)} {k : Option β → Check (Option α)} (h : Succeeds T m)
    (hk : ∀ b, Succeeds T (k (Option.some b))) : Succeeds T (m >>= k) := by
  refine Meets.bind h fun o new ho => ?_
  obtain ⟨b, rfl⟩ := Option.isSome_iff_exists.mp ho.1
  exact Meets.mono (hk b) fun _ more h => ⟨h.1, by rw [Log.errors_append, ho.2, h.2, List.append_nil]⟩

theorem Succeeds.after {m : Check β} {k : β → Check (Option α)} (h : Meets T m fun b new => Log.errors new = [] ∧ Q b)
    (hk : ∀ b, Q b → Succeeds T (k b)) : Succeeds T (m >>= k) := by
  refine Meets.bind h fun b new hb => ?_
  exact Meets.mono (hk b hb.2) fun _ more h => ⟨h.1, by rw [Log.errors_append, hb.1, h.2, List.append_nil]⟩

/-- A check has a result of which something is known, and reports no error. -/
def Accepts (T : Target) (m : Check (Option α)) (P : α → Prop) : Prop :=
  Meets T m fun o new => Log.errors new = [] ∧ ∃ a, o = some a ∧ P a

theorem Accepts.some {a : α} (h : P a) : Accepts T (return some a) P := Meets.pure ⟨rfl, a, rfl, h⟩

theorem Accepts.mono {m : Check (Option α)} (h : Accepts T m P) (hP : ∀ a, P a → P' a) : Accepts T m P' :=
  Meets.mono h fun _ _ ⟨hnew, a, ho, ha⟩ => ⟨hnew, a, ho, hP a ha⟩

theorem Succeeds.accepts {m : Check (Option α)} (h : Succeeds T m) : Accepts T m fun _ => True :=
  Meets.mono h fun _ _ ⟨ho, hnew⟩ => ⟨hnew, (Option.isSome_iff_exists.mp ho).imp fun _ ha => ⟨ha, trivial⟩⟩

theorem Accepts.after {m : Check β} {k : β → Check (Option α)} (h : Meets T m fun b new => Log.errors new = [] ∧ Q b)
    (hk : ∀ b, Q b → Accepts T (k b) P) : Accepts T (m >>= k) P :=
  Meets.bind h fun b _ hb => Meets.mono (hk b hb.2) fun _ _ ⟨hmore, ha⟩ =>
    ⟨by rw [Log.errors_append, hb.1, hmore, List.append_nil], ha⟩

theorem Accepts.bind {m : Check (Option β)} {k : Option β → Check (Option α)} (h : Accepts T m Q)
    (hk : ∀ b, Q b → Accepts T (k (Option.some b)) P) : Accepts T (m >>= k) P :=
  Accepts.after h fun _ ⟨b, ho, hb⟩ => ho ▸ hk b hb

theorem Accepts.read {x : Except Fault β} {b : β} {k : β → Check (Option α)} (hx : x = .ok b) (hk : Accepts T (k b) P) :
    Accepts T ((liftM x : Check β) >>= k) P := by
  rw [hx, lift_ok, pure_bind]
  exact hk

theorem Accepts.target {k : Target → Check (Option α)} (h : Accepts T (k T) P) : Accepts T (target >>= k) P :=
  Accepts.after (Meets.mono target_meets fun _ _ ⟨ht, hnew⟩ => ⟨by rw [hnew]; rfl, ht⟩) fun _ ht => ht ▸ h

end Spmd.Check
