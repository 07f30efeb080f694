import Spmd.Proofs.Session.Result

/-!
# Passes that report nothing

A quiet pass ends without a fault and without a message, whatever session it is started in (`Check.Quiet`). It is a
contract like others, put together along the steps of the pass.
-/

namespace Spmd.Check

def Quiet {α : Type} (T : Target) (m : Check α) (P : α → Prop) : Prop := Meets T m fun a new => new = [] ∧ P a

variable {T : Target} {α β : Type} {P P' : α → Prop} {Q : β → Prop}

theorem Quiet.pure {a : α} (h : P a) : Quiet T (pure a) P := Meets.pure ⟨rfl, h⟩

theorem Quiet.bind {m : Check β} {k : β → Check α} (h : Quiet T m Q) (hk : ∀ b, Q b → Quiet T (k b) P) :
    Quiet T (m >>= k) P := by
  refine Meets.bind h fun b new ⟨hnew, hq⟩ => Meets.mono (hk b hq) fun a more ⟨hmore, hp⟩ => ⟨?_, hp⟩
  rw [hnew, hmore, List.append_nil]

theorem Quiet.mono {m : Check α} (h : Quiet T m P) (hP : ∀ a, P a → P' a) : Quiet T m P' :=
  Meets.mono h fun a _ ⟨hnew, hp⟩ => ⟨hnew, hP a hp⟩

theorem Quiet.then {m : Check β} {k : β → Check α} {b : β} (h : Quiet T m (· = b)) (hk : Quiet T (k b) P) :
    Quiet T (m >>= k) P :=
  Quiet.bind h fun _ hb => hb ▸ hk

theorem Quiet.read {x : Except Fault β} {b : β} {k : β → Check α} (hx : x = .ok b) (hk : Quiet T (k b) P) :
    Quiet T ((liftM x : Check β) >>= k) P := by
  rw [hx, lift_ok, pure_bind]
  exact hk

theorem Quiet.target {k : Target → Check α} (h : Quiet T (k T) P) : Quiet T (target >>= k) P :=
  Quiet.bind (Meets.mono target_meets fun _ _ ⟨ht, hnew⟩ => ⟨hnew, ht⟩) fun _ ht => ht ▸ h

theorem note_quiet (f : FunctionName) : Quiet T f.note fun _ => True :=
  Meets.mono (note_meets f) fun _ _ hnew => ⟨hnew, trivial⟩

theorem Quiet.accepts {m : Check (Option α)} (h : Quiet T m fun o => ∃ a, o = some a ∧ P a) : Accepts T m P :=
  Meets.mono h fun _ _ ⟨hnew, ha⟩ => ⟨by rw [hnew]; rfl, ha⟩

theorem Accepts.then {m : Check β} {k : β → Check (Option α)} {b : β} (h : Quiet T m (· = b)) (hk : Accepts T (k b) P) :
    Accepts T (m >>= k) P :=
  Accepts.after (Meets.mono h fun _ _ ⟨hnew, hb⟩ => ⟨by rw [hnew]; rfl, hb⟩) fun _ hb => hb ▸ hk

theorem Quiet.run {m : Check α} (h : Quiet T m P) {s : Session} (hs : s.target = T) :
    ∃ a s', m.run s = (.ok a, s') ∧ s'.target = s.target ∧ s'.log = s.log ∧ P a := by
  obtain ⟨a, new, found, hrun, hnew, hp⟩ := h s hs
  exact ⟨a, _, hrun, rfl, by rw [hnew]; exact List.append_nil _, hp⟩

end Spmd.Check
