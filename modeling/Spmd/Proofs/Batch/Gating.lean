import Mathlib.Data.List.Pairwise
import Spmd.Proofs.Batch.Independence

/-!
# Code for all expressions or for none

The same expressions can be run in a batch several times. As long as no error was reported, all that the batch knows of
their names is what checking may rely on, and every outcome is complete. An error that was reported stays reported
(`Batch.Sound`).
-/

namespace Spmd.Batch

open Check Spmd.Expr

/-! ## Known names -/

/-- What was found out is what lawful names keep. -/
def Recorded (T : Target) (P : Option Nat → FunctionName → Prop) (findings : List Finding) : Prop :=
  ∀ y ∈ findings, (onNames T P).learns y

/-- A name that is known, or that no function was found for. -/
def Tried (_ : Option Nat) (f : FunctionName) : Prop := f.choice = ⟨none, true⟩ ∨ Known f.settleType

variable {T : Target} {P : Option Nat → FunctionName → Prop} {us : List (Option Nat × FunctionName)}
  {findings found : List Finding} {new : Log} {e : Expr} {es : List Expr} {s : Session} {b : Batch}

theorem Recorded.append (h : Recorded T P findings) (h' : Recorded T P found) : Recorded T P (findings ++ found) :=
  List.forall_mem_append.mpr ⟨h, h'⟩

theorem recorded_of_finds (h : ∀ y ∈ found, (onNames T (Named Tried us)).finds y) : Recorded T (Named Tried us) found := by
  intro y hy
  obtain ⟨k, f, hf, htag, hchoice | hchoice, htype⟩ := h y hy
  · exact ⟨k, f, hf, htag, hchoice, htype⟩
  · exact ⟨k, { f with choice := ⟨none, true⟩ }, ⟨.inl rfl, hf.2⟩, htag, hchoice, htype⟩

theorem eq_of_tag (hd : (us.filterMap fun u => u.2.node.tag).Nodup) {u v : Option Nat × FunctionName} (hu : u ∈ us)
    (hv : v ∈ us) {tag : Nat} (htag : u.2.node.tag = some tag) (htag' : v.2.node.tag = some tag) : u = v := by
  by_contra hne
  have hpairs := List.pairwise_filterMap.mp hd
  have : Std.Symm fun u v : Option Nat × FunctionName =>
      ∀ x, u.2.node.tag = some x → ∀ y, v.2.node.tag = some y → x ≠ y := ⟨fun _ _ huv x hx y hy => (huv y hy x hx).symm⟩
  exact hpairs.forall hu hv hne tag htag tag htag' rfl

/-- A name that takes over what was found out about names of a law is lawful. -/
theorem recall_named (hd : (us.filterMap fun u => u.2.node.tag).Nodup) (h : Recorded T (Named P us) findings)
    {u : Option Nat × FunctionName} (hu : u ∈ us) (hP : P u.1 u.2) : Named P us u.1 (u.2.recall findings) := by
  rcases recall_cases findings u.2 with heq | ⟨y, hy, htag, heq⟩
  · rw [heq]
    exact ⟨hP, u, hu, rfl, rfl⟩
  · obtain ⟨k, f, ⟨hf, v, hv, rfl, horigin⟩, htag', hchoice, htype⟩ := h y hy
    obtain rfl := eq_of_tag hd hu hv htag ((FunctionName.tag_of_origin horigin).symm.trans htag')
    rw [heq, hchoice, htype, FunctionName.of_origin horigin.symm]
    exact ⟨hf, u, hu, rfl, horigin⟩

theorem refresh_named (hd : (us.filterMap fun u => u.2.node.tag).Nodup) (h : Recorded T (Named P us) findings)
    (hus : ∀ u ∈ e.uses none, u ∈ us) (hP : ∀ u ∈ e.uses none, P u.1 u.2) :
    ∀ u ∈ (e.refresh findings).uses none, Named P us u.1 u.2 := by
  intro u hu
  rw [uses_refresh] at hu
  obtain ⟨v, hv, rfl⟩ := List.mem_map.mp hu
  exact recall_named hd h (hus v hv) (hP v hv)

theorem refresh_prepared (h : Everywhere (Loaded T) e) (hu : ∀ u ∈ (e.refresh findings).uses none, Named Apt us u.1 u.2) :
    Everywhere (Prepared T) (e.refresh findings) := by
  refine prepared_of_uses (refresh_everywhere (fun e he h => ?_) (Everywhere.mono (fun _ h _ => h) h)) fun u h => (hu u h).1
  cases e with
  | function f => exact absurd rfl (he f)
  | _ => exact h

/-! ## Steps -/

/-- What a session knows of the names of some trees. -/
structure Informed (T : Target) (us : List (Option Nat × FunctionName)) (s : Session) : Prop where
  target_eq : s.target = T
  tried : Recorded T (Named Tried us) s.findings
  apt : s.log.errors = [] → Recorded T (Named Apt us) s.findings

/-- Trees whose names are told from all others by their tags. -/
structure Pool (T : Target) (us : List (Option Nat × FunctionName)) (es : List Expr) : Prop where
  nodup : (us.filterMap fun u => u.2.node.tag).Nodup
  loaded : ∀ e ∈ es, Everywhere (Loaded T) e
  uses : ∀ e ∈ es, ∀ u ∈ e.uses none, u ∈ us

theorem errors_after (h : s.log.errors ≠ []) (new : Log) (found : List Finding) : (s.after new found).log.errors ≠ [] := by
  intro hn
  rw [Session.after, Log.errors_append, List.append_eq_nil_iff] at hn
  exact h hn.1

/-- A run of an expression leaves the session informed. It ends with a complete outcome unless an error was reported. -/
theorem runOne_informed (hpool : Pool T us [e]) (hs : Informed T us s) :
    ∃ x new found, (runOne e).run s = (x, s.after new found) ∧ Informed T us (s.after new found) ∧
      ((s.after new found).log.errors = [] → ∃ o, x = .ok o ∧ o.source = e ∧ o.Complete) := by
  have he : Everywhere (Loaded T) e := hpool.loaded e (List.mem_singleton_self e)
  have hus := hpool.uses e (List.mem_singleton_self e)
  have hapt : ∀ u ∈ e.uses none, Apt u.1 u.2 := fun _ hu => apt_of_loaded (uses_everywhere he hu)
  have htried := refresh_named hpool.nodup hs.tried hus fun u hu => .inr (hapt u hu).known
  obtain ⟨x, new, found, hrun, hfinds, -, -⟩ :=
    outcomeOf_secluded (T := T) e (tried_lawful.named us) htried
  have hrecorded := hs.tried.append (recorded_of_finds hfinds)
  refine ⟨x, new, found, hrun s hs.target_eq, ?_⟩
  by_cases hclean : s.log.errors = []
  · have hnames := refresh_named hpool.nodup (hs.apt hclean) hus hapt
    obtain ⟨o, new', found', hrun', -, hlearns, hsource, hcomplete⟩ := Secluded.settles (T := T)
      (outcomeOf_secluded e (apt_lawful.named us) hnames) rfl (outcomeOf_meets (refresh_prepared he hnames))
    have heq := (hrun s hs.target_eq).symm.trans (hrun' s hs.target_eq)
    simp only [Session.after, Prod.mk.injEq, Session.mk.injEq, List.append_cancel_left_eq, true_and] at heq
    obtain ⟨rfl, rfl, rfl⟩ := heq
    have herrors : (s.after new found).log.errors = [] → new.errors = [] := fun hn => by
      rw [Session.after, Log.errors_append, List.append_eq_nil_iff] at hn
      exact hn.2
    exact ⟨⟨hs.target_eq, hrecorded, fun hn => (hs.apt hclean).append (hlearns (herrors hn))⟩,
      fun hn => ⟨o, rfl, hsource, hcomplete (herrors hn)⟩⟩
  · have hn := errors_after hclean new found
    exact ⟨⟨hs.target_eq, hrecorded, fun h => absurd h hn⟩, fun h => absurd h hn⟩

/-! ## Runs -/

theorem Pool.of_subset (h : Pool T us es) {part : List Expr} (hpart : ∀ e ∈ part, e ∈ es) : Pool T us part :=
  ⟨h.nodup, fun e he => h.loaded e (hpart e he), fun e he => h.uses e (hpart e he)⟩

/-- All that a run ends with: the outcomes of the expressions are complete unless an error was reported. -/
structure Ends (T : Target) (us : List (Option Nat × FunctionName)) (es : List Expr) (s : Session)
    (x : Except Fault (List Outcome)) (s' : Session) : Prop where
  informed : Informed T us s'
  errors : s.log.errors ≠ [] → s'.log.errors ≠ []
  complete : s'.log.errors = [] → ∃ os, x = .ok os ∧ os.map Outcome.source = es ∧ ∀ o ∈ os, o.Complete

theorem runAll_ends (hpool : Pool T us es) (hs : Informed T us s) :
    ∃ x s', (runAll es).run s = (x, s') ∧ Ends T us es s x s' := by
  induction es generalizing s with
  | nil => exact ⟨.ok [], s, runAll_nil s, hs, id, fun _ => ⟨[], rfl, rfl, List.forall_mem_nil _⟩⟩
  | cons e es ih =>
    obtain ⟨x, new, found, hrun, hinformed, hcomplete⟩ :=
      runOne_informed (hpool.of_subset fun c hc => List.mem_cons.mpr (.inl (List.mem_singleton.mp hc))) hs
    cases x with
    | error fault =>
      have herrors : (s.after new found).log.errors ≠ [] := fun hn => by
        obtain ⟨o, ho, -⟩ := hcomplete hn
        cases ho
      refine ⟨.error fault, s.after new found, ?_, hinformed, fun _ => herrors, fun hn => absurd hn herrors⟩
      rw [runAll]
      exact run_bind_of_error hrun
    | ok o =>
      obtain ⟨y, s', hrest, hends⟩ := ih (hpool.of_subset fun c hc => List.mem_cons_of_mem e hc) hinformed
      have hkept : s.log.errors ≠ [] → s'.log.errors ≠ [] := fun h => hends.errors (errors_after h new found)
      cases y with
      | error fault =>
        have herrors : s'.log.errors ≠ [] := fun hn => by
          obtain ⟨os, hos, -⟩ := hends.complete hn
          cases hos
        refine ⟨.error fault, s', ?_, hends.informed, fun _ => herrors, fun hn => absurd hn herrors⟩
        rw [runAll, run_bind hrun]
        exact run_bind_of_error hrest
      | ok os =>
        refine ⟨.ok (o :: os), s', runAll_cons hrun hrest, hends.informed, hkept, fun hn => ?_⟩
        obtain ⟨os', hos, hsources, hall⟩ := hends.complete hn
        obtain rfl := Except.ok.inj hos
        -- what is reported stays reported, so that no error was reported on the way
        have hclean : (s.after new found).log.errors = [] := by
          by_contra h
          exact hends.errors h hn
        obtain ⟨o', ho, hsource, hcomplete⟩ := hcomplete hclean
        obtain rfl := Except.ok.inj ho
        refine ⟨o :: os, rfl, ?_, List.forall_mem_cons.mpr ⟨hcomplete, hall⟩⟩
        rw [List.map_cons, hsource, hsources]

/-- A batch in which some expressions were run: their outcomes are complete unless an error was reported. -/
structure Sound (T : Target) (us : List (Option Nat × FunctionName)) (b : Batch) (es : List Expr) : Prop where
  informed : Informed T us b.session
  complete : b.log.errors = [] → b.outcomes.map Outcome.source = es ∧ ∀ o ∈ b.outcomes, o.Complete

theorem new_sound (T : Target) (us : List (Option Nat × FunctionName)) : Sound T us (.new T) [] :=
  ⟨⟨rfl, List.forall_mem_nil _, fun _ => List.forall_mem_nil _⟩, fun _ => ⟨rfl, List.forall_mem_nil _⟩⟩

theorem run_sound {g : List Expr} (hpool : Pool T us g) (hb : Sound T us b es) :
    Sound T us (b.run g).2 (es ++ g) ∧ Ends T us g b.session (b.run g).1 (b.run g).2.session := by
  obtain ⟨x, s', hrun, hends⟩ := runAll_ends hpool hb.informed
  cases x with
  | error fault =>
    have heq : b.run g = (.error fault, { b with session := s' }) := by rw [run, hrun]
    rw [heq]
    refine ⟨⟨hends.informed, fun hn => ?_⟩, hends⟩
    obtain ⟨os, hos, -⟩ := hends.complete hn
    cases hos
  | ok os =>
    rw [run_ok hrun]
    refine ⟨⟨hends.informed, fun hn => ?_⟩, hends⟩
    obtain ⟨os', hos, hsources, hall⟩ := hends.complete hn
    obtain rfl := Except.ok.inj hos
    have hclean : b.log.errors = [] := by
      by_contra h
      exact hends.errors h hn
    obtain ⟨hbefore, hcomplete⟩ := hb.complete hclean
    exact ⟨by rw [List.map_append, hbefore, hsources], List.forall_mem_append.mpr ⟨hcomplete, hall⟩⟩

theorem runGroups_sound {groups : List (List Expr)} (hpool : Pool T us groups.flatten) (hb : Sound T us b es) :
    Sound T us (b.runGroups groups).2 (es ++ groups.flatten) ∧
      (b.log.errors ≠ [] → (b.runGroups groups).2.log.errors ≠ []) := by
  induction groups generalizing b es with
  | nil => exact ⟨by rw [List.flatten_nil, List.append_nil]; exact hb, id⟩
  | cons g gs ih =>
    rw [List.flatten_cons] at hpool
    obtain ⟨hsound, hends⟩ := run_sound (hpool.of_subset fun e he => List.mem_append_left _ he) hb
    obtain ⟨hlater, herrors⟩ := ih (hpool.of_subset fun e he => List.mem_append_right _ he) hsound
    rw [List.flatten_cons, ← List.append_assoc]
    exact ⟨hlater, fun h => herrors (hends.errors h)⟩

/-! ## Emission -/

/-- The code for the expressions of some outcomes, one after the other, each of them after what was emitted before. -/
inductive Emitted : Code → List Outcome → List Value → Code → Prop
  | nil {c : Code} : Emitted c [] [] []
  | cons {c calls more : Code} {o : Outcome} {os : List Outcome} {e : Expr} {v : Value} {vs : List Value}
      (expression : o.expression = some e) (value : e.value.run c = (.ok v, c ++ calls)) (rest : Emitted (c ++ calls) os vs more) :
      Emitted c (o :: os) (v :: vs) (calls ++ more)

theorem Emitted.length_eq {c calls : Code} {os : List Outcome} {vs : List Value} (h : Emitted c os vs calls) :
    vs.length = os.length := by
  induction h with
  | nil => rfl
  | cons _ _ _ ih => exact congrArg (· + 1) ih

theorem valuesOf_emitted {os : List Outcome} (h : ∀ o ∈ os, o.Complete) (c : Code) :
    ∃ vs calls, (valuesOf os).run c = (.ok vs, c ++ calls) ∧ Emitted c os vs calls := by
  induction os generalizing c with
  | nil => exact ⟨[], [], congrArg _ (List.append_nil c).symm, .nil⟩
  | cons o os ih =>
    obtain ⟨e, n, he, -, -, hcode⟩ := h o List.mem_cons_self
    obtain ⟨v, calls, hv⟩ := hcode c
    obtain ⟨vs, more, hvs, hemitted⟩ := ih (fun o ho => h o (List.mem_cons_of_mem _ ho)) (c ++ calls)
    refine ⟨v :: vs, calls ++ more, ?_, .cons he hv hemitted⟩
    rw [valuesOf, he, ← List.append_assoc]
    exact (run_bind_of_ok hv).trans ((run_bind_of_ok hvs).trans rfl)

theorem emit_of_errors (h : b.log.errors ≠ []) (c : Code) : b.emit.run c = (.ok none, c) := by
  rw [emit, if_pos (by simpa using h)]
  rfl

theorem emit_of_complete (h : b.log.errors = []) (hb : ∀ o ∈ b.outcomes, o.Complete) (c : Code) :
    ∃ vs calls, b.emit.run c = (.ok (some vs), c ++ calls) ∧ Emitted c b.outcomes vs calls := by
  obtain ⟨vs, calls, hrun, hemitted⟩ := valuesOf_emitted hb c
  refine ⟨vs, calls, ?_, hemitted⟩
  rw [emit, if_neg (by simpa using h)]
  exact (run_bind_of_ok hrun).trans rfl

end Spmd.Batch
