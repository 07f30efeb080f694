import Spmd.Proofs.Session.Contract

/-!
# Passes that look at nothing but the target

A secluded pass does the same in every session with a target that its bounds admit: it ends the same way, and adds the
same messages and the same findings to those that are there (`Check.Secluded`). The contract also says what the findings
are, all of them and those of a pass without errors, and what is known of a result.
-/

namespace Spmd

/-- A session after more was reported and found out. -/
def Session.after (s : Session) (new : Log) (found : List Finding) : Session :=
  { s with log := s.log ++ new, findings := s.findings ++ found }

theorem Session.after_nil (s : Session) : s.after [] [] = s := by
  simp only [after, List.append_nil]

theorem Session.after_after (s : Session) (new more : Log) (found also : List Finding) :
    (s.after new found).after more also = s.after (new ++ more) (found ++ also) := by
  simp only [after, List.append_assoc]

namespace Check

/-- The sessions that a pass is run in, what it may find out there, and what it may find out while it reports no error. -/
structure Bounds where
  admits : Target → Prop
  finds : Finding → Prop
  learns : Finding → Prop

def Secluded {α : Type} (B : Bounds) (m : Check α) (R : α → Prop) : Prop :=
  ∃ x new found, (∀ s : Session, B.admits s.target → m.run s = (x, s.after new found)) ∧
    (∀ y ∈ found, B.finds y) ∧ (Log.errors new = [] → ∀ y ∈ found, B.learns y) ∧ ∀ a, x = .ok a → R a

variable {B : Bounds} {α β γ : Type} {m : Check α} {R R' : α → Prop} {Q : β → Prop} {W : γ → Prop}

/-! ## Steps -/

theorem Secluded.plain {m : Check α} (x : Except Fault α) (new : Log)
    (hrun : ∀ s : Session, B.admits s.target → m.run s = (x, s.after new [])) (hx : ∀ a, x = .ok a → R a) :
    Secluded B m R :=
  ⟨x, new, [], hrun, List.forall_mem_nil _, fun _ => List.forall_mem_nil _, hx⟩

theorem Secluded.pure {a : α} (h : R a) : Secluded B (pure a) R :=
  Secluded.plain (.ok a) [] (fun s _ => congrArg _ s.after_nil.symm) fun _ hb => by cases hb; exact h

theorem Secluded.fault (f : Fault) : Secluded B (throw f : Check α) R :=
  Secluded.plain (.error f) [] (fun s _ => congrArg _ s.after_nil.symm) fun _ hb => by cases hb

theorem Secluded.bind {m : Check β} {k : β → Check α} (h : Secluded B m Q) (hk : ∀ b, Q b → Secluded B (k b) R) :
    Secluded B (m >>= k) R := by
  obtain ⟨x, new, found, hrun, hfinds, hlearns, hx⟩ := h
  cases x with
  | error f =>
    exact ⟨.error f, new, found, fun s hs => run_bind_of_error (hrun s hs), hfinds, hlearns, fun _ ha => by cases ha⟩
  | ok b =>
    obtain ⟨y, more, also, hrun', hfinds', hlearns', hy⟩ := hk b (hx b rfl)
    refine ⟨y, new ++ more, found ++ also, fun s hs => ?_, List.forall_mem_append.mpr ⟨hfinds, hfinds'⟩, fun hn => ?_, hy⟩
    · exact ((run_bind (hrun s hs)).trans (hrun' _ hs)).trans (by rw [Session.after_after])
    · rw [Log.errors_append, List.append_eq_nil_iff] at hn
      exact List.forall_mem_append.mpr ⟨hlearns hn.1, hlearns' hn.2⟩

theorem Secluded.mono {m : Check α} (h : Secluded B m R) (hR : ∀ a, R a → R' a) : Secluded B m R' := by
  obtain ⟨x, new, found, hrun, hfinds, hlearns, hx⟩ := h
  exact ⟨x, new, found, hrun, hfinds, hlearns, fun a ha => hR a (hx a ha)⟩

theorem Secluded.lift {x : Except Fault α} (h : ∀ a, x = .ok a → R a) : Secluded B (liftM x : Check α) R :=
  Secluded.plain x [] (fun s _ => congrArg _ s.after_nil.symm) h

theorem Secluded.read {x : Except Fault β} {k : β → Check α} (hk : ∀ b, x = .ok b → Secluded B (k b) R) :
    Secluded B ((liftM x : Check β) >>= k) R :=
  Secluded.bind (Secluded.lift fun _ hb => hb) hk

theorem report_secluded (place : Option Location) (problem : Problem) :
    Secluded B (report place problem) fun _ => True :=
  Secluded.plain (.ok ()) [⟨.error problem, place⟩] (fun s _ => by rw [Session.after, List.append_nil]; rfl)
    fun _ _ => trivial

theorem warn_secluded (place : Option Location) (caution : Caution) : Secluded B (warn place caution) fun _ => True :=
  Secluded.plain (.ok ()) [⟨.warning caution, place⟩] (fun s _ => by rw [Session.after, List.append_nil]; rfl)
    fun _ _ => trivial

theorem Secluded.target {T : Target} {k : Target → Check α} (hT : ∀ t, B.admits t → t = T) (h : Secluded B (k T) R) :
    Secluded B (target >>= k) R :=
  Secluded.bind (Secluded.plain (.ok T) [] (fun s hs => by rw [Session.after_nil, ← hT _ hs]; rfl) fun _ hb => hb)
    fun _ hb => by cases hb; exact h

/-! ## Two contracts of a pass -/

theorem Secluded.result (h : Secluded B m R) {s s' : Session} (hs : B.admits s.target) {a : α}
    (hrun : m.run s = (.ok a, s')) : R a := by
  obtain ⟨x, new, found, hall, -, -, hx⟩ := h
  rw [hall s hs] at hrun
  cases hrun
  exact hx a rfl

theorem Meets.secluded {T : Target} {Q : α → Log → Prop} (h : Meets T m Q) (hT : B.admits T) (h' : Secluded B m R) :
    Meets T m fun a new => Q a new ∧ R a := by
  intro s hs
  obtain ⟨a, new, found, hrun, hq⟩ := h s hs
  exact ⟨a, new, found, hrun, hq, h'.result (hs ▸ hT) hrun⟩

/-- What a pass keeps to in one session is what it does in all of them. -/
theorem Secluded.settles {T : Target} {Q : α → Log → Prop} (h : Secluded B m R) (hT : B.admits T) (hm : Meets T m Q) :
    ∃ a new found, (∀ s : Session, B.admits s.target → m.run s = (.ok a, s.after new found)) ∧ (∀ y ∈ found, B.finds y) ∧
      (Log.errors new = [] → ∀ y ∈ found, B.learns y) ∧ R a ∧ Q a new := by
  obtain ⟨x, new, found, hrun, hfinds, hlearns, hx⟩ := h
  obtain ⟨a, new', found', hrun', hq⟩ := hm { target := T } rfl
  rw [hrun _ hT] at hrun'
  simp only [Session.after, Prod.mk.injEq, Session.mk.injEq, List.nil_append, true_and] at hrun'
  obtain ⟨rfl, rfl, -⟩ := hrun'
  exact ⟨a, new, found, hrun, hfinds, hlearns, hx a rfl, hq⟩

theorem Delivers.secluded {T : Target} {m : Check (Option α)} {P Q : α → Prop} (h : Delivers T m P) (hT : B.admits T)
    (h' : Secluded B m fun o => ∀ a ∈ o, Q a) : Delivers T m fun a => P a ∧ Q a := by
  refine Meets.mono (Meets.secluded h hT h') fun o new ho => ?_
  cases o with
  | none => exact ho.1
  | some a => exact ⟨ho.1.1, ho.1.2, ho.2 a rfl⟩

/-! ## Results that may be missing -/

theorem Secluded.some {a : α} (h : R a) : Secluded B (return some a) fun o => ∀ b ∈ o, R b :=
  Secluded.pure fun _ hb => by cases hb; exact h

theorem Secluded.none : Secluded B (return none) fun o => ∀ b ∈ o, R b :=
  Secluded.pure fun _ hb => by cases hb

theorem Secluded.reject (place : Option Location) (problem : Problem) :
    Secluded B (reject place problem) fun o => ∀ b ∈ o, R b :=
  Secluded.bind (report_secluded place problem) fun _ _ => Secluded.none

theorem Secluded.needs {m : Check (Option β)} {k : Option β → Check α} (h : Secluded B m fun o => ∀ b ∈ o, Q b)
    (hk : ∀ b, Q b → Secluded B (k (Option.some b)) R) (hn : Secluded B (k Option.none) R) : Secluded B (m >>= k) R :=
  Secluded.bind h fun o ho => by
    cases o with
    | none => exact hn
    | some b => exact hk b (ho b rfl)

theorem Secluded.both {l : Check (Option β)} {r : Check (Option γ)} {k : Option β → Option γ → Check α}
    (hl : Secluded B l fun o => ∀ b ∈ o, Q b) (hr : Secluded B r fun o => ∀ c ∈ o, W c)
    (hk : ∀ b c, Q b → W c → Secluded B (k (Option.some b) (Option.some c)) R)
    (hn : ∀ o, Secluded B (k Option.none o) R) (hm : ∀ b, Secluded B (k (Option.some b) Option.none) R) :
    Secluded B (l >>= fun b => r >>= fun c => k b c) R := by
  refine Secluded.needs hl (fun b hb => ?_) (Secluded.bind hr fun o _ => hn o)
  exact Secluded.needs hr (fun c hc => hk b c hb hc) (hm b)

theorem Secluded.law (B : Bounds) : Law fun m P => Secluded B m fun o => ∀ a ∈ o, P a where
  some := Secluded.some
  bind hm hk hn := Secluded.needs hm hk (hn ▸ Secluded.none)
  both hl hr hk hn hm := Secluded.both hl hr hk (fun o => hn o ▸ Secluded.none) fun b => hm b ▸ Secluded.none

/-! ## Function names -/

theorem note_secluded {f : FunctionName}
    (hf : ∀ tag, f.node.tag = Option.some tag →
      B.finds ⟨tag, f.choice, f.node.type⟩ ∧ B.learns ⟨tag, f.choice, f.node.type⟩) :
    Secluded B f.note fun _ => True := by
  unfold FunctionName.note
  cases htag : f.node.tag with
  | none => exact Secluded.pure trivial
  | some tag =>
    obtain ⟨hfinds, hlearns⟩ := hf tag htag
    refine ⟨.ok (), [], [⟨tag, f.choice, f.node.type⟩], fun s _ => ?_, ?_, fun _ => ?_, fun _ _ => trivial⟩
    · rw [Session.after, List.append_nil]
      rfl
    · exact List.forall_mem_singleton.mpr hfinds
    · exact List.forall_mem_singleton.mpr hlearns

/-- What is noted of a name that has no function is no finding of a pass without errors. -/
theorem Secluded.refused {f : FunctionName} {place : Option Location} {problem : Problem} {a : α}
    (hf : ∀ tag, f.node.tag = Option.some tag → B.finds ⟨tag, f.choice, f.node.type⟩) (ha : R a) :
    Secluded B (f.note >>= fun _ => report place problem >>= fun _ => Pure.pure a) R := by
  unfold FunctionName.note
  cases htag : f.node.tag with
  | none =>
    simp only [pure_bind]
    exact Secluded.bind (report_secluded _ _) fun _ _ => Secluded.pure ha
  | some tag =>
    refine ⟨.ok a, [⟨.error problem, place⟩], [⟨tag, f.choice, f.node.type⟩], fun s _ => rfl, ?_, fun hn => ?_, fun _ hb => ?_⟩
    · exact List.forall_mem_singleton.mpr (hf tag htag)
    · cases hn
    · cases hb
      exact ha

end Check

end Spmd
