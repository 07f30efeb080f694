import Spmd.Proofs.Except
import Spmd.Session

/-!
# Contracts of passes

A pass meets a contract when, started in any session with the target, it ends without a fault, leaves what the session
knew and adds messages such that the contract holds of its result and these messages (`Check.Meets`). Contracts are
put together along the steps of a pass. `Check.Delivers` is the contract of a check: a result comes without errors,
and no result comes with an error.
-/

namespace Spmd

theorem Log.errors_append (a b : Log) : Log.errors (a ++ b) = a.errors ++ b.errors :=
  List.filter_append ..

namespace Check

def Meets {α : Type} (T : Target) (m : Check α) (Q : α → Log → Prop) : Prop :=
  ∀ s : Session, s.target = T → ∃ a new found,
    m.run s = (.ok a, { s with log := s.log ++ new, findings := s.findings ++ found }) ∧ Q a new

variable {T : Target} {α β γ : Type}

/-! ## Steps -/

theorem lift_ok (a : α) : (liftM (Except.ok a : Except Fault α) : Check α) = pure a := rfl

theorem Meets.pure {a : α} {Q : α → Log → Prop} (h : Q a []) : Meets T (pure a) Q :=
  fun _ _ => ⟨a, [], [], by simp only [List.append_nil]; rfl, h⟩

theorem run_bind {m : Check α} {k : α → Check β} {s s' : Session} {a : α}
    (h : m.run s = (.ok a, s')) : (m >>= k).run s = (k a).run s' := run_bind_of_ok h

theorem Meets.bind {m : Check α} {k : α → Check β} {Q : α → Log → Prop} {R : β → Log → Prop} (h : Meets T m Q)
    (hk : ∀ a new, Q a new → Meets T (k a) fun b more => R b (new ++ more)) : Meets T (m >>= k) R := by
  intro s hs
  obtain ⟨a, new, found, hm, hq⟩ := h s hs
  obtain ⟨b, more, also, hb, hr⟩ := hk a new hq { s with log := s.log ++ new, findings := s.findings ++ found } hs
  refine ⟨b, new ++ more, found ++ also, ?_, hr⟩
  rw [run_bind hm, hb]
  simp only [List.append_assoc]

theorem Meets.mono {m : Check α} {Q R : α → Log → Prop} (h : Meets T m Q) (hQR : ∀ a new, Q a new → R a new) :
    Meets T m R := by
  intro s hs
  obtain ⟨a, new, found, hm, hq⟩ := h s hs
  exact ⟨a, new, found, hm, hQR a new hq⟩

/-- A pass has one run, so that two contracts speak of the same result. -/
theorem Meets.and {m : Check α} {Q R : α → Log → Prop} (hq : Meets T m Q) (hr : Meets T m R) :
    Meets T m fun a new => Q a new ∧ R a new := by
  intro s hs
  obtain ⟨a, new, found, hm, hqa⟩ := hq s hs
  obtain ⟨b, more, also, hm', hrb⟩ := hr s hs
  rw [hm] at hm'
  simp only [Prod.mk.injEq, Except.ok.injEq, Session.mk.injEq, List.append_cancel_left_eq, true_and] at hm'
  obtain ⟨rfl, rfl, -⟩ := hm'
  exact ⟨a, new, found, hm, hqa, hrb⟩

theorem report_meets (place : Option Location) (problem : Problem) :
    Meets T (report place problem) fun _ new => new = [⟨.error problem, place⟩] :=
  fun _ _ => ⟨(), _, [], by simp only [List.append_nil]; rfl, rfl⟩

theorem warn_meets (place : Option Location) (caution : Caution) :
    Meets T (warn place caution) fun _ new => new = [⟨.warning caution, place⟩] :=
  fun _ _ => ⟨(), _, [], by simp only [List.append_nil]; rfl, rfl⟩

theorem target_meets : Meets T target fun t new => t = T ∧ new = [] :=
  fun s hs => ⟨s.target, [], [], by simp only [List.append_nil]; rfl, hs, rfl⟩

theorem note_meets (f : FunctionName) : Meets T f.note fun _ new => new = [] := by
  unfold FunctionName.note
  cases f.node.tag with
  | none => exact Meets.pure rfl
  | some tag => exact fun _ _ => ⟨(), [], _, by simp only [List.append_nil]; rfl, rfl⟩

/-! ## Checks -/

/-- A result comes without errors, and no result comes with an error. -/
def Outcome (P : α → Prop) : Option α → Log → Prop
  | some a, new => new.errors = [] ∧ P a
  | none, new => new.errors ≠ []

def Delivers (T : Target) (m : Check (Option α)) (P : α → Prop) : Prop := Meets T m (Outcome P)

variable {P : α → Prop} {Q : β → Prop} {R : γ → Prop}

theorem Delivers.some {a : α} (h : P a) : Delivers T (return some a) P := Meets.pure ⟨rfl, h⟩

theorem Delivers.reject (place : Option Location) (problem : Problem) : Delivers T (reject place problem) P :=
  Meets.bind (report_meets place problem) fun _ new h => Meets.pure (by subst h; simp [Outcome, Log.errors, Message.isError])

theorem Delivers.mono {m : Check (Option α)} {P' : α → Prop} (h : Delivers T m P) (hP : ∀ a, P a → P' a) :
    Delivers T m P' := by
  refine Meets.mono h fun o new ho => ?_
  cases o with
  | none => exact ho
  | some a => exact ⟨ho.1, hP a ho.2⟩

/-- A first step that reports no errors. -/
theorem Delivers.after {m : Check β} {k : β → Check (Option α)} (h : Meets T m fun b new => new.errors = [] ∧ Q b)
    (hk : ∀ b, Q b → Delivers T (k b) P) : Delivers T (m >>= k) P := by
  refine Meets.bind h fun b new hb => Meets.mono (hk b hb.2) fun o more ho => ?_
  cases o with
  | none => intro hn; rw [Log.errors_append] at hn; exact ho (List.append_eq_nil_iff.mp hn).2
  | some a => exact ⟨by rw [Log.errors_append, hb.1, ho.1]; rfl, ho.2⟩

theorem Delivers.target {k : Target → Check (Option α)} (h : Delivers T (k T) P) : Delivers T (target >>= k) P := by
  have hread : Meets T Check.target fun t new => new.errors = [] ∧ t = T :=
    Meets.mono target_meets fun t new ht => ⟨by rw [ht.2]; rfl, ht.1⟩
  refine Delivers.after hread fun t ht => ?_
  rw [ht]
  exact h

/-- A first step without which there is no result. -/
theorem Delivers.needs {m : Check (Option β)} {k : Option β → Check (Option α)} (h : Delivers T m Q)
    (hk : ∀ b, Q b → Delivers T (k (Option.some b)) P) (hn : Meets T (k none) fun o _ => o = none) :
    Delivers T (m >>= k) P := by
  refine Meets.bind h fun o new ho => ?_
  cases o with
  | none =>
    refine Meets.mono hn fun o more hm => ?_
    subst hm
    intro he
    rw [Log.errors_append] at he
    exact ho (List.append_eq_nil_iff.mp he).1
  | some b =>
    refine Meets.mono (hk b ho.2) fun o more hb => ?_
    cases o with
    | none => intro he; rw [Log.errors_append] at he; exact hb (List.append_eq_nil_iff.mp he).2
    | some a => exact ⟨by rw [Log.errors_append, ho.1, hb.1]; rfl, hb.2⟩

/-- Nothing else happens after a first step without a result. -/
theorem Delivers.bind {m : Check (Option β)} {k : Option β → Check (Option α)} (h : Delivers T m Q)
    (hk : ∀ b, Q b → Delivers T (k (Option.some b)) P) (hn : k none = Pure.pure none) : Delivers T (m >>= k) P :=
  Delivers.needs h hk (hn ▸ Meets.pure rfl)

/-- Two steps that are both taken, and without which there is no result. -/
theorem Delivers.both {l : Check (Option β)} {r : Check (Option γ)} {k : Option β → Option γ → Check (Option α)}
    (hl : Delivers T l Q) (hr : Delivers T r R)
    (hk : ∀ b c, Q b → R c → Delivers T (k (Option.some b) (Option.some c)) P)
    (hn : ∀ o, k none o = Pure.pure none) (hm : ∀ b, k (Option.some b) none = Pure.pure none) :
    Delivers T (l >>= fun b => r >>= fun c => k b c) P := by
  refine Delivers.needs hl (fun b hb => Delivers.bind hr (fun c hc => hk b c hb hc) (hm b)) ?_
  exact Meets.bind hr fun c _ _ => hn c ▸ Meets.pure rfl

theorem Delivers.map {m : Check (Option β)} {f : β → α} (h : Delivers T m Q) (hf : ∀ b, Q b → P (f b)) :
    Delivers T (m >>= fun o => return o.map f) P :=
  Delivers.bind h (fun b hb => Delivers.some (hf b hb)) rfl

/-! ## Contracts of two passes in turn -/

/-- A contract that holds of two passes in turn, where there is no result without both of theirs. -/
structure Law (L : {α : Type} → Check (Option α) → (α → Prop) → Prop) : Prop where
  some : ∀ {α : Type} {P : α → Prop} {a : α}, P a → L (return some a) P
  bind : ∀ {α β : Type} {P : α → Prop} {Q : β → Prop} {m : Check (Option β)} {k : Option β → Check (Option α)}, L m Q →
    (∀ b, Q b → L (k (Option.some b)) P) → k none = pure none → L (m >>= k) P
  both : ∀ {α β γ : Type} {P : α → Prop} {Q : β → Prop} {R : γ → Prop} {l : Check (Option β)} {r : Check (Option γ)}
    {k : Option β → Option γ → Check (Option α)}, L l Q → L r R →
    (∀ b c, Q b → R c → L (k (Option.some b) (Option.some c)) P) → (∀ o, k none o = pure none) →
    (∀ b, k (Option.some b) none = pure none) → L (l >>= fun b => r >>= fun c => k b c) P

theorem Law.mono {L : {α : Type} → Check (Option α) → (α → Prop) → Prop} {P' : α → Prop} {m : Check (Option α)} (hL : Law L)
    (h : L m P) (hP : ∀ a, P a → P' a) : L m P' := by
  have hbind : L (m >>= Pure.pure) P' := hL.bind h (fun a ha => hL.some (hP a ha)) rfl
  rwa [bind_pure] at hbind

theorem Delivers.law (T : Target) : Law (Delivers T) where
  some := Delivers.some
  bind := Delivers.bind
  both := Delivers.both

/-! ## Folding -/

/-- A pass that always has a result, and reports nothing but errors about constants. -/
def Folds (T : Target) (m : Check (Option α)) (P : α → Prop) : Prop :=
  Meets T m fun o new => (∃ a, o = Option.some a ∧ P a) ∧ ∀ x ∈ new, x.isError = true ∧ x.category? = Option.some .constant

theorem Folds.some {a : α} (h : P a) : Folds T (return some a) P :=
  Meets.pure ⟨⟨a, rfl, h⟩, fun _ hx => by cases hx⟩

theorem Folds.mono {m : Check (Option α)} {P' : α → Prop} (h : Folds T m P) (hP : ∀ a, P a → P' a) : Folds T m P' :=
  Meets.mono h fun _ _ ⟨⟨a, ha, hp⟩, hnew⟩ => ⟨⟨a, ha, hP a hp⟩, hnew⟩

theorem Folds.and {m : Check (Option α)} {P' : α → Prop} (h : Folds T m P) (h' : Folds T m P') :
    Folds T m fun a => P a ∧ P' a := by
  refine Meets.mono (Meets.and h h') fun o new ho => ?_
  obtain ⟨⟨⟨a, ha, hp⟩, hnew⟩, ⟨b, hb, hp'⟩, -⟩ := ho
  refine ⟨⟨a, ha, hp, ?_⟩, hnew⟩
  rw [ha] at hb
  cases hb
  exact hp'

theorem Folds.bind {m : Check (Option β)} {k : Option β → Check (Option α)} (h : Folds T m Q)
    (hk : ∀ b, Q b → Folds T (k (Option.some b)) P) : Folds T (m >>= k) P := by
  refine Meets.bind h fun o new ho => ?_
  obtain ⟨⟨b, rfl, hq⟩, hnew⟩ := ho
  refine Meets.mono (hk b hq) fun o more ⟨ha, hmore⟩ => ⟨ha, fun x hx => ?_⟩
  rcases List.mem_append.mp hx with hx | hx
  · exact hnew x hx
  · exact hmore x hx

theorem Folds.after {m : Check β} {k : β → Check (Option α)}
    (h : Meets T m fun _ new => ∀ x ∈ new, x.isError = true ∧ x.category? = Option.some .constant)
    (hk : ∀ b, Folds T (k b) P) : Folds T (m >>= k) P := by
  refine Meets.bind h fun b new hnew => ?_
  refine Meets.mono (hk b) fun o more ⟨ha, hmore⟩ => ⟨ha, fun x hx => ?_⟩
  rcases List.mem_append.mp hx with hx | hx
  · exact hnew x hx
  · exact hmore x hx

end Check

end Spmd
