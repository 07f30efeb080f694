import Spmd.Proofs.Session.Result
import Spmd.Proofs.Session.Secluded

/-!
# Checks that report once

A terse pass reports one error at most, and none if its result is a good one (`Check.Terse`), and a check has a good result
when it has one at all (`Check.ReportsOnce`). Unlike the contracts of passes, this holds of trees that were never checked as
well, whether the pass ends with a result or a fault.
-/

namespace Spmd.Check

/-- What a pass makes of a session: it adds messages of which something is known, and the target stays. -/
def Adds {α : Type} (m : Check α) (Q : Except Fault α → Log → Prop) : Prop :=
  ∀ s : Session, ∃ new found, (m.run s).2 = s.after new found ∧ Q (m.run s).1 new

variable {α β : Type}

/-! ## Steps -/

theorem Meets.adds {m : Check α} {Q : α → Log → Prop} (h : ∀ T, Meets T m Q) :
    Adds m fun r new => ∃ a, r = .ok a ∧ Q a new := by
  intro s
  obtain ⟨a, new, found, hrun, hq⟩ := h s.target s rfl
  exact ⟨new, found, by rw [hrun]; rfl, a, by rw [hrun], hq⟩

theorem Adds.mono {m : Check α} {Q R : Except Fault α → Log → Prop} (h : Adds m Q) (hQR : ∀ r new, Q r new → R r new) :
    Adds m R := by
  intro s
  obtain ⟨new, found, hrun, hq⟩ := h s
  exact ⟨new, found, hrun, hQR _ _ hq⟩

theorem Adds.pure {a : α} {Q : Except Fault α → Log → Prop} (h : Q (.ok a) []) : Adds (pure a) Q :=
  fun s => ⟨[], [], s.after_nil.symm, h⟩

theorem Adds.bind {m : Check β} {k : β → Check α} {Q : Except Fault β → Log → Prop}
    {R : Except Fault α → Log → Prop} (h : Adds m Q) (hf : ∀ f new, Q (.error f) new → R (.error f) new)
    (hk : ∀ b new, Q (.ok b) new → Adds (k b) fun r more => R r (new ++ more)) : Adds (m >>= k) R := by
  intro s
  obtain ⟨new, found, hafter, hq⟩ := h s
  obtain ⟨r, s', hrun⟩ : ∃ r s', m.run s = (r, s') := ⟨_, _, rfl⟩
  rw [hrun] at hafter hq
  cases r with
  | error f =>
    have hfault : (m >>= k).run s = (.error f, s') := run_bind_of_error hrun
    rw [hfault]
    exact ⟨new, found, hafter, hf f new hq⟩
  | ok b =>
    obtain ⟨more, also, hafter', hr⟩ := hk b new hq s'
    have hok : (m >>= k).run s = (k b).run s' := run_bind_of_ok hrun
    rw [hok]
    refine ⟨new ++ more, found ++ also, ?_, hr⟩
    rw [hafter', show s' = s.after new found from hafter, Session.after_after]

theorem Adds.gives {m : Check α} {Q : Except Fault α → Log → Prop} (h : Adds m Q) (T : Target) :
    Gives T m fun a => ∃ new, Q (.ok a) new := by
  intro s hs a s' hrun
  obtain ⟨new, found, hafter, hq⟩ := h s
  rw [hrun] at hafter hq
  exact ⟨⟨new, hq⟩, by rw [show s' = s.after new found from hafter]; exact hs⟩

theorem Meets.adds_and {T : Target} {m : Check α} {Q : α → Log → Prop} {R : Except Fault α → Log → Prop}
    (h : Meets T m Q) (h' : Adds m R) : Meets T m fun a new => Q a new ∧ R (.ok a) new := by
  intro s hs
  obtain ⟨a, new, found, hrun, hq⟩ := h s hs
  obtain ⟨new', found', hafter, hr⟩ := h' s
  rw [hrun] at hafter hr
  simp only [Session.after, Session.mk.injEq, List.append_cancel_left_eq, true_and] at hafter
  obtain ⟨rfl, -⟩ := hafter
  exact ⟨a, new, found, hrun, hq, hr⟩

/-! ## Terse passes -/

/-- One error at most, and none beside a good result. -/
def Single (good : α → Prop) (result : Except Fault α) (new : Log) : Prop :=
  (Log.errors new).length ≤ 1 ∧ ∀ a, result = .ok a → good a → Log.errors new = []

def Terse (good : α → Prop) (m : Check α) : Prop := Adds m (Single good)

variable {good : α → Prop}

theorem Single.nil {r : Except Fault α} : Single good r [] := ⟨Nat.zero_le 1, fun _ _ _ => rfl⟩

theorem Single.append {r : Except Fault α} {new more : Log} (hnew : Log.errors new = []) (h : Single good r more) :
    Single good r (new ++ more) := by
  rw [Single, Log.errors_append, hnew, List.nil_append]
  exact h

theorem Terse.pure (a : α) : Terse good (pure a) := Adds.pure Single.nil

theorem Terse.report (place : Option Location) (problem : Problem) {a : α} (ha : ¬ good a) :
    Terse good (report place problem >>= fun _ => Pure.pure a) := by
  refine fun s => ⟨[⟨.error problem, place⟩], [], ?_, Nat.le_refl 1, fun b hb hgood => ?_⟩
  · rw [Session.after, List.append_nil]
    rfl
  cases hb
  exact absurd hgood ha

theorem Terse.after {m : Check β} {k : β → Check α} (h : Adds m fun _ new => Log.errors new = [])
    (hk : ∀ b, Terse good (k b)) : Terse good (m >>= k) :=
  Adds.bind h (fun _ _ hnew => ⟨by rw [hnew]; exact Nat.zero_le 1, nofun⟩)
    fun b _ hnew => Adds.mono (hk b) fun _ _ => Single.append hnew

theorem Terse.read {x : Except Fault β} {k : β → Check α} (hk : ∀ b, x = .ok b → Terse good (k b)) :
    Terse good ((liftM x : Check β) >>= k) := by
  cases x with
  | error f => exact fun s => ⟨[], [], s.after_nil.symm, Single.nil⟩
  | ok b =>
    rw [lift_ok, pure_bind]
    exact hk b rfl

theorem Terse.bind {found : β → Prop} {m : Check β} {k : β → Check α} (h : Terse found m)
    (hk : ∀ b, found b → Terse good (k b)) (hn : ∀ b, ¬ found b → ∃ a, k b = Pure.pure a ∧ ¬ good a) :
    Terse good (m >>= k) := by
  refine Adds.bind h (fun _ _ hf => ⟨hf.1, nofun⟩) fun b new hb => ?_
  by_cases hgood : found b
  · exact Adds.mono (hk b hgood) fun _ _ => Single.append (hb.2 b rfl hgood)
  · obtain ⟨a, ha, hbad⟩ := hn b hgood
    rw [ha]
    refine Adds.pure ⟨by rw [List.append_nil]; exact hb.1, fun c hc hgood => ?_⟩
    cases hc
    exact absurd hgood hbad

/-! ## Terse checks -/

/-- A check that reports one error at most, and none if it has a result. -/
abbrev ReportsOnce (m : Check (Option α)) : Prop := Terse (fun o => o.isSome = true) m

theorem ReportsOnce.reject (place : Option Location) (problem : Problem) :
    ReportsOnce (reject place problem : Check (Option α)) :=
  Terse.report place problem Bool.false_ne_true

theorem ReportsOnce.bind {m : Check (Option β)} {k : Option β → Check (Option α)} (h : ReportsOnce m)
    (hk : ∀ b, ReportsOnce (k (some b))) (hn : k none = Pure.pure none) : ReportsOnce (m >>= k) := by
  refine Terse.bind h (fun o ho => ?_) fun o ho => ?_
  · obtain ⟨b, rfl⟩ := Option.isSome_iff_exists.mp ho
    exact hk b
  · cases o with
    | none => exact ⟨none, hn, Bool.false_ne_true⟩
    | some b => exact absurd rfl ho

end Spmd.Check
