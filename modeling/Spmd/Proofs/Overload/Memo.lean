import Mathlib.Logic.Relation
import Spmd.Forest
import Spmd.Proofs.Overload.Survivors
import Spmd.Proofs.Sharing.Walk
import Spmd.Typing.Check

/-!
# A name is resolved once

A function name can be checked, resolved and converted any number of times, by way of any tree of a forest that is the name.
Each of these steps leaves the name as it is, gives it the type of its function, or is the first attempt to choose a function
(`FunctionName.Moves`), and what one step does the name is in every tree of the forest (`Forest.Holds`). So the first attempt
decides (`Forest.resolved_once`).
-/

namespace Spmd

/-! ## Names -/

namespace FunctionName

/-- A function was looked for, and there is none. -/
def failed (f : FunctionName) : Bool := f.choice.attempted && f.choice.chosen.isNone

/-- How many errors about overloads were reported for a name. -/
def refusals (f : FunctionName) : Nat := if f.failed then 1 else 0

/-- What an attempt to choose a function for some arguments makes of a name. -/
def tried (arguments : List Argument) (f : FunctionName) : FunctionName :=
  if f.choice.chosen.isSome || f.choice.attempted then f
  else
    match Spmd.resolve f.candidates arguments with
    | .resolved s => settleType { f with choice := ⟨some s, true⟩ }
    | _ => { f with choice := ⟨none, true⟩ }

/-- What one step may make of a name. -/
inductive Moves (f : FunctionName) : FunctionName → Prop
  | stay : Moves f f
  | settle : Moves f f.settleType
  | attempt (arguments : List Argument) : Moves f (f.tried arguments)

/-- The function that was chosen is a candidate, and the name has the type of its function if it has any. -/
structure Sound (f : FunctionName) : Prop where
  chosen : ∀ s, f.choice.chosen = some s → s ∈ f.candidates ∧ f.node.type = some s.type
  type_eq : ∀ t, f.node.type = some t → ∃ s, f.function? = some s ∧ t = s.type

/-- Nothing is left to find out about a name. -/
structure Final (f : FunctionName) : Prop where
  settled : f.settleType = f
  tried_eq : ∀ arguments, f.tried arguments = f

variable {f g : FunctionName} {s : Symbol} {arguments : List Argument}

theorem failed_eq_true : f.failed = true ↔ f.choice.attempted = true ∧ f.choice.chosen = none := by
  rw [failed, Bool.and_eq_true, Option.isNone_iff_eq_none]

theorem tried_of_chosen (h : f.choice.chosen = some s) : f.tried arguments = f := by
  rw [tried, if_pos (by rw [h]; rfl)]

theorem tried_of_attempted (h : f.choice.attempted = true) : f.tried arguments = f := by
  rw [tried, if_pos (by rw [h, Bool.or_true])]

/-- Only the first attempt counts: it settles on a candidate, or leaves no choice. -/
theorem tried_cases (f : FunctionName) (arguments : List Argument) :
    ((f.choice.chosen.isSome || f.choice.attempted) = true ∧ f.tried arguments = f) ∨
    (f.choice = {} ∧ ∃ s, Spmd.resolve f.candidates arguments = .resolved s ∧
      f.tried arguments = settleType { f with choice := ⟨some s, true⟩ }) ∨
    (f.choice = {} ∧ f.tried arguments = { f with choice := ⟨none, true⟩ }) := by
  unfold tried
  by_cases hopen : (f.choice.chosen.isSome || f.choice.attempted) = true
  · exact .inl ⟨hopen, if_pos hopen⟩
  · rw [if_neg hopen]
    split
    · rename_i s hs
      exact .inr (.inl ⟨choice_of_open hopen, s, hs, rfl⟩)
    · exact .inr (.inr ⟨choice_of_open hopen, rfl⟩)

theorem tried_failed_iff (f : FunctionName) (arguments : List Argument) :
    (f.tried arguments).failed = true ↔ (f.tried arguments).choice.chosen = none := by
  have hdecided : ((f.tried arguments).choice.chosen.isSome || (f.tried arguments).choice.attempted) = true := by
    rcases f.tried_cases arguments with ⟨hopen, h⟩ | ⟨-, s, -, h⟩ | ⟨-, h⟩
    · rw [h]
      exact hopen
    · rw [h, settleType_choice]
      rfl
    · rw [h]
      rfl
  rw [failed_eq_true, and_iff_right_iff_imp]
  intro hnone
  rwa [hnone, Option.isSome_none, Bool.false_or] at hdecided

theorem resolve_of_chosen (h : f.choice.chosen = some s) (arguments : List Argument) (session : Session) :
    (f.resolve arguments).run session = (.ok (some s, f), session) := by
  unfold FunctionName.resolve
  rw [if_pos (by rw [h]; rfl), h]
  rfl

/-! ## Steps keep what is known of a name -/

theorem Moves.origin_eq (h : f.Moves g) : g.origin = f.origin := by
  cases h with
  | stay => rfl
  | settle => exact f.origin_settleType
  | attempt arguments =>
    rcases f.tried_cases arguments with ⟨-, h⟩ | ⟨-, s, -, h⟩ | ⟨-, h⟩
    · rw [h]
    · rw [h, origin_settleType]
      rfl
    · rw [h]
      rfl

theorem settleType_type (h : f.node.type = none) (hs : f.function? = some s) : f.settleType.node.type = some s.type := by
  unfold settleType
  rw [hs]
  dsimp only
  rw [if_pos (by rw [h]; rfl)]

theorem settleType_of_none (h : f.function? = none) : f.settleType = f := by
  unfold settleType
  rw [h]

theorem Sound.settleType (h : f.Sound) : f.settleType.Sound := by
  cases ht : f.node.type with
  | some t =>
    rw [settleType_of_type ht]
    exact h
  | none =>
    cases hs : f.function? with
    | none =>
      rw [settleType_of_none hs]
      exact h
    | some s =>
      have htype := settleType_type ht hs
      refine ⟨fun u hu => ?_, fun t ht => ⟨s, by rw [settleType_function, hs], ?_⟩⟩
      · rw [settleType_choice] at hu
        have hnone := (h.chosen u hu).2
        rw [ht] at hnone
        cases hnone
      · rw [htype] at ht
        exact (Option.some.inj ht).symm

theorem Sound.pick (h : f.Sound) (hc : f.choice = {}) (hs : s ∈ f.candidates) :
    (FunctionName.settleType { f with choice := ⟨some s, true⟩ }).Sound := by
  have htype : (FunctionName.settleType { f with choice := ⟨some s, true⟩ }).node.type = some s.type := by
    cases ht : f.node.type with
    | none => exact settleType_type ht rfl
    | some t =>
      -- a name that has a type already has no other candidate
      obtain ⟨u, hu, rfl⟩ := h.type_eq t ht
      rw [Expr.candidates_of_function hc hu, List.mem_singleton] at hs
      subst hs
      rw [settleType_of_type (f := { f with choice := ⟨some s, true⟩ }) ht]
      exact ht
  refine ⟨fun u hu => ?_, fun t ht => ⟨s, by rw [settleType_function]; rfl, ?_⟩⟩
  · rw [settleType_choice] at hu
    cases hu
    exact ⟨by rw [settleType_candidates]; exact hs, htype⟩
  · rw [htype] at ht
    exact (Option.some.inj ht).symm

theorem Moves.sound (h : f.Moves g) (hf : f.Sound) : g.Sound := by
  cases h with
  | stay => exact hf
  | settle => exact hf.settleType
  | attempt arguments =>
    rcases f.tried_cases arguments with ⟨-, h⟩ | ⟨hc, s, hs, h⟩ | ⟨hc, h⟩
    · rw [h]
      exact hf
    · rw [h]
      exact hf.pick hc (resolve_resolved hs).1
    · rw [h]
      refine ⟨fun s hs => (by cases hs), fun t ht => ?_⟩
      obtain ⟨s, hs, rfl⟩ := hf.type_eq t ht
      refine ⟨s, ?_, rfl⟩
      rw [function?, hc] at hs
      exact hs

theorem Moves.type_eq {t : Ty} (h : f.Moves g) (ht : f.node.type = some t) : g.node.type = some t := by
  cases h with
  | stay => exact ht
  | settle => rw [settleType_of_type ht, ht]
  | attempt arguments =>
    rcases f.tried_cases arguments with ⟨-, h⟩ | ⟨-, s, -, h⟩ | ⟨-, h⟩
    · rw [h, ht]
    · rw [h, settleType_of_type (f := { f with choice := ⟨some s, true⟩ }) ht]
      exact ht
    · rw [h]
      exact ht

theorem Sound.type_eq_none (h : f.Sound) (hf : f.function? = none) : f.node.type = none := by
  cases ht : f.node.type with
  | none => rfl
  | some t =>
    obtain ⟨s, hs, -⟩ := h.type_eq t ht
    rw [hf] at hs
    cases hs

theorem Final.eq (h : f.Final) (hm : f.Moves g) : g = f := by
  cases hm with
  | stay => rfl
  | settle => exact h.settled
  | attempt arguments => exact h.tried_eq arguments

theorem Sound.final_of_chosen (h : f.Sound) (hs : f.choice.chosen = some s) : f.Final :=
  ⟨settleType_of_type (h.chosen s hs).2, fun _ => tried_of_chosen hs⟩

/-- Without a choice, a name that has not just one candidate has no function. -/
theorem function_eq_none (hc : f.choice.chosen = none) (hn : f.candidates.length ≠ 1) : f.function? = none := by
  unfold function?
  rw [hc]
  match hcandidates : f.candidates with
  | [] | _ :: _ :: _ => rfl
  | [_] =>
    rw [hcandidates] at hn
    exact absurd rfl hn

theorem final_of_failed (hf : f.failed = true) (hn : f.candidates.length ≠ 1) : f.Final :=
  ⟨settleType_of_none (function_eq_none (failed_eq_true.mp hf).2 hn), fun _ => tried_of_attempted (failed_eq_true.mp hf).1⟩

/-! ## Runs of steps -/

open Relation

theorem kept_of_moves {P : FunctionName → Prop} (hP : ∀ {f g}, Moves f g → P f → P g) (h : ReflTransGen Moves f g) (hf : P f) :
    P g := by
  induction h with
  | refl => exact hf
  | tail _ hm ih => exact hP hm ih

theorem origin_of_moves (h : ReflTransGen Moves f g) : g.origin = f.origin :=
  kept_of_moves (P := fun k => k.origin = f.origin) (fun hm hk => hm.origin_eq.trans hk) h rfl

theorem Sound.of_moves (h : ReflTransGen Moves f g) (hf : f.Sound) : g.Sound := kept_of_moves Moves.sound h hf

theorem type_of_moves {t : Ty} (h : ReflTransGen Moves f g) (ht : f.node.type = some t) : g.node.type = some t :=
  kept_of_moves (P := fun k => k.node.type = some t) Moves.type_eq h ht

theorem Final.of_moves (h : ReflTransGen Moves f g) (hf : f.Final) : g = f :=
  kept_of_moves (P := fun k => k = f) (fun hm hk => hf.eq (hk ▸ hm)) h rfl

/-- Of a name that nothing was found out about, all that is known holds trivially. -/
theorem sound_of_origin (h : f.origin = f) : f.Sound := by
  rw [← h]
  exact ⟨fun s hs => (by cases hs), fun t ht => (by cases ht)⟩

theorem refusals_of_origin (h : f.origin = f) : f.refusals = 0 := by
  rw [← h]
  rfl

end FunctionName

/-! ## Findings -/

/-- Whether a message is the verdict of a failed resolution: that there is no matching function, or more than one. -/
def Message.isVerdict (m : Message) : Bool :=
  match m.report with
  | .error (.noOverload ..) | .error (.ambiguousOverload ..) => true
  | _ => false

namespace FunctionName

variable {f g : FunctionName} {tag : Nat}

theorem recall_nil (f : FunctionName) : f.recall [] = f := Expr.recall_of_not_mem (List.forall_mem_nil _)

theorem recall_tag (found : List Finding) (f : FunctionName) : (f.recall found).node.tag = f.node.tag := by
  rcases Expr.recall_cases found f with h | ⟨y, -, -, h⟩ <;> rw [h]

theorem recall_append (found also : List Finding) (f : FunctionName) :
    f.recall (found ++ also) = (f.recall found).recall also := by
  cases htag : f.node.tag with
  | none => simp only [FunctionName.recall, htag, Option.bind_none]
  | some tag =>
    have htag' : (f.recall found).node.tag = some tag := by rw [recall_tag, htag]
    unfold FunctionName.recall at htag' ⊢
    rw [htag', htag]
    simp only [Option.bind_some, List.reverse_append, List.find?_append]
    cases also.reverse.find? fun x => x.tag == tag with
    | none => rfl
    | some y => cases found.reverse.find? fun x => x.tag == tag <;> rfl

/-- A finding says all of a name that may change. -/
theorem recall_finding (htag : f.node.tag = some tag) (hg : g.origin = f.origin) :
    f.recall [⟨tag, g.choice, g.node.type⟩] = g := by
  unfold FunctionName.recall
  rw [htag]
  simp only [Option.bind_some, List.reverse_singleton, List.find?_singleton, beq_self_eq_true, if_true]
  exact of_origin hg.symm

theorem note_run (htag : g.node.tag = some tag) (s : Session) :
    g.note.run s = (.ok (), s.after [] [⟨tag, g.choice, g.node.type⟩]) := by
  unfold note
  rw [htag, Session.after, List.append_nil]
  rfl

end FunctionName

/-! ## Passes -/

/-- A step over a name. -/
inductive NameStep where
  | check
  | typecheck
  | resolve (arguments : List Argument)
  | convert (target : Ty) (context : String)

/-- The pass over a name that a step takes. To choose a function gives no tree. -/
def NameStep.pass (f : FunctionName) : NameStep → Check (Option Expr)
  | .check => Check.check (.function f)
  | .typecheck => Check.typecheck (.function f)
  | .resolve arguments => do
    let _ ← f.resolve arguments
    return none
  | .convert target context => Check.convert (.function f) target context

namespace Check

variable {α β : Type} {f g h : FunctionName} {tag : Nat}

/-- A pass that finds out, in every session alike, what turns a name from one into another, and reports the verdicts that it
takes. -/
def Carries (m : Check α) (f g : FunctionName) (x : Except Fault α) : Prop :=
  ∃ new found, (∀ s : Session, m.run s = (x, s.after new found)) ∧ f.recall found = g ∧
    f.refusals + new.countP Message.isVerdict = g.refusals

theorem Carries.pure (f : FunctionName) (a : α) : Carries (pure a) f f (.ok a) :=
  ⟨[], [], fun s => congrArg _ s.after_nil.symm, f.recall_nil, rfl⟩

theorem Carries.bind {m : Check β} {k : β → Check α} {b : β} {x : Except Fault α} (hm : Carries m f g (.ok b))
    (hk : Carries (k b) g h x) : Carries (m >>= k) f h x := by
  obtain ⟨new, found, hrun, hrecall, hcount⟩ := hm
  obtain ⟨more, also, hrun', hrecall', hcount'⟩ := hk
  refine ⟨new ++ more, found ++ also, fun s => ?_, ?_, ?_⟩
  · exact ((run_bind (hrun s)).trans (hrun' _)).trans (by rw [Session.after_after])
  · rw [FunctionName.recall_append, hrecall, hrecall']
  · rw [List.countP_append, ← Nat.add_assoc, hcount, hcount']

theorem Carries.fault {m : Check β} {k : β → Check α} {fault : Fault} (hm : Carries m f g (.error fault)) :
    Carries (m >>= k) f g (.error fault) := by
  obtain ⟨new, found, hrun, hknown⟩ := hm
  exact ⟨new, found, fun s => run_bind_of_error (hrun s), hknown⟩

theorem Carries.lift (f : FunctionName) (x : Except Fault α) : Carries (liftM x : Check α) f f x :=
  ⟨[], [], fun s => congrArg _ s.after_nil.symm, f.recall_nil, rfl⟩

theorem Carries.report (f : FunctionName) (place : Option Location) {problem : Problem}
    (hp : Message.isVerdict ⟨.error problem, place⟩ = false) : Carries (report place problem) f f (.ok ()) := by
  refine ⟨[⟨.error problem, place⟩], [], fun s => ?_, f.recall_nil, ?_⟩
  · rw [Session.after, List.append_nil]
    rfl
  · rw [List.countP_singleton, hp]
    rfl

theorem Carries.reject (f : FunctionName) (place : Option Location) {problem : Problem}
    (hp : Message.isVerdict ⟨.error problem, place⟩ = false) :
    Carries (reject place problem : Check (Option α)) f f (.ok none) :=
  Carries.bind (Carries.report f place hp) (Carries.pure f none)

theorem Carries.note (htag : f.node.tag = some tag) (hg : g.origin = f.origin) (hr : f.refusals = g.refusals) :
    Carries g.note f g (.ok ()) :=
  ⟨[], _, FunctionName.note_run ((FunctionName.tag_of_origin hg).trans htag), FunctionName.recall_finding htag hg, hr⟩

/-- The verdict on a name that nothing was chosen for. -/
theorem Carries.refuse (htag : f.node.tag = some tag) (hc : f.choice = {}) (place : Option Location) {problem : Problem}
    (hp : Message.isVerdict ⟨.error problem, place⟩ = true) (a : α) :
    Carries (do FunctionName.note { f with choice := ⟨none, true⟩ }; Check.report place problem; return a) f
      { f with choice := ⟨none, true⟩ } (.ok a) := by
  refine ⟨[⟨.error problem, place⟩], [⟨tag, ⟨none, true⟩, f.node.type⟩], fun s => ?_, ?_, ?_⟩
  · have hnote := FunctionName.note_run (g := { f with choice := ⟨none, true⟩ }) htag s
    refine (run_bind hnote).trans ?_
    rw [Session.after, Session.after, List.append_nil]
    rfl
  · exact FunctionName.recall_finding (g := { f with choice := ⟨none, true⟩ }) htag rfl
  · rw [List.countP_singleton, hp, FunctionName.refusals, FunctionName.failed, hc]
    rfl

/-! ## Steps -/

/-- An attempt to choose a function gives what is remembered of the first. -/
theorem resolve_carries (htag : f.node.tag = some tag) (arguments : List Argument) :
    Carries (f.resolve arguments) f (f.tried arguments) (.ok ((f.tried arguments).choice.chosen, f.tried arguments)) := by
  unfold FunctionName.resolve FunctionName.tried
  split
  · exact Carries.pure f _
  · rename_i hopen
    have hc := FunctionName.choice_of_open hopen
    cases Spmd.resolve f.candidates arguments with
    | resolved s =>
      have hnote : Carries (FunctionName.note (FunctionName.settleType { f with choice := ⟨some s, true⟩ })) f
          (FunctionName.settleType { f with choice := ⟨some s, true⟩ }) (.ok ()) := by
        refine Carries.note htag (FunctionName.origin_settleType _) ?_
        rw [FunctionName.refusals, FunctionName.refusals, FunctionName.failed, FunctionName.failed, hc,
          FunctionName.settleType_choice]
        rfl
      rw [FunctionName.settleType_choice]
      exact Carries.bind hnote (Carries.pure _ _)
    | none => exact Carries.refuse htag hc _ rfl _
    | ambiguous ss => exact Carries.refuse htag hc _ rfl _

theorem settle_carries (htag : f.node.tag = some tag) :
    Carries (check (.function f)) f f.settleType (.ok (some (.function f.settleType))) := by
  unfold check
  refine Carries.bind (Carries.note htag f.origin_settleType ?_) (Carries.pure _ _)
  rw [FunctionName.refusals, FunctionName.refusals, FunctionName.failed, FunctionName.failed, FunctionName.settleType_choice]

/-- What a step over a name may leave in its place: the name, or a cast of it. -/
inductive Shown (f : FunctionName) : Expr → Prop
  | name : Shown f (.function f)
  | cast (node : Node) (target : Ty) : Shown f (.cast node target (.function f) false)

theorem Shown.name_of_use {e : Expr} (h : Shown f e) {u : Option Nat × FunctionName} (hu : u ∈ e.uses none) : u.2 = f := by
  cases h with
  | name =>
    rw [Expr.uses, List.mem_singleton] at hu
    rw [hu]
  | cast node target =>
    rw [Expr.uses, ite_self, Expr.uses, List.mem_singleton] at hu
    rw [hu]

theorem Shown.withTags {e : Expr} (h : Shown f e) (htag : f.node.tag = some tag) (n : Nat) :
    Shown f (e.withTags.run n).1 := by
  have hname : (Expr.function f).withTags = pure (.function f) := by
    unfold Expr.withTags Expr.traverse Expr.tagNode
    rw [Expr.node, htag]
  cases h with
  | name =>
    rw [hname]
    exact .name
  | cast node target =>
    have hcast : (Expr.cast node target (.function f) false).withTags = Expr.tagNode (.cast node target (.function f) false) := by
      unfold Expr.withTags at hname ⊢
      rw [Expr.traverse, hname, pure_bind]
    rw [hcast]
    unfold Expr.tagNode
    cases htag' : (Expr.cast node target (.function f) false).node.tag with
    | some other => exact .cast node target
    | none => exact .cast _ target

/-- A step ends with the name, a cast of it or nothing, unless it reads the type of a name that has none. -/
def Ends (f : FunctionName) : Except Fault (Option Expr) → Prop
  | .ok o => ∀ e ∈ o, Shown f e
  | .error fault => fault = .notSet "type" ∧ f.node.type = none

theorem Ends.none (f : FunctionName) : Ends f (.ok none) := nofun

theorem typecheck_carries (htag : f.node.tag = some tag) :
    ∃ x, Carries (typecheck (.function f)) f f.settleType x ∧ Ends f.settleType x := by
  have hresolved : ∃ x, Carries (resolved (some (.function f.settleType))) f.settleType f.settleType x ∧
      Ends f.settleType x := by
    unfold resolved
    dsimp only
    split
    · refine ⟨.ok (some (.function f.settleType)), Carries.pure _ _, fun e he => ?_⟩
      cases he
      exact .name
    · exact ⟨.ok none, Carries.reject _ _ rfl, Ends.none _⟩
  obtain ⟨x, hx, hends⟩ := hresolved
  exact ⟨x, Carries.bind (settle_carries htag) hx, hends⟩

theorem canConvert_carries (f : FunctionName) (place : Option Location) (context : String) (source target : Ty) :
    ∃ b, Carries (canConvert place context false source target) f f (.ok b) := by
  unfold canConvert
  split
  · exact ⟨true, Carries.pure f true⟩
  · exact ⟨false, Carries.bind (Carries.report f place rfl) (Carries.pure f false)⟩

/-- Becoming a function pointer is an attempt to choose a function. -/
theorem pick_carries (htag : f.node.tag = some tag) (target : Ty) :
    ∃ g o, f.Moves g ∧ Carries (pickOverload f target) f g (.ok o) ∧ (o = none ∨ o = some g) := by
  unfold pickOverload
  cases pointedParameters? target with
  | none => exact ⟨f, some f, .stay, Carries.pure f _, .inr rfl⟩
  | some parameters =>
    refine ⟨_, _, .attempt _, Carries.bind (resolve_carries htag _) (Carries.pure _ _), ?_⟩
    split
    · exact .inr rfl
    · exact .inl rfl

theorem convert_carries (htag : f.node.tag = some tag) (target : Ty) (context : String) :
    ∃ g x, f.Moves g ∧ Carries (convert (.function f) target context) f g x ∧ Ends g x := by
  unfold convert convertFunction
  obtain ⟨g, o, hmoves, hpick, ho⟩ := pick_carries htag target
  -- a name that stays without a function is refused; otherwise its type decides, if it has one
  rcases ho with rfl | rfl
  · exact ⟨g, .ok none, hmoves, Carries.bind hpick (Carries.pure g none), Ends.none _⟩
  cases hresolved : g.isResolved with
  | false =>
    refine ⟨g, .ok none, hmoves, Carries.bind hpick ?_, Ends.none _⟩
    dsimp only
    rw [hresolved]
    exact Carries.reject g g.node.place rfl
  | true =>
    cases htype : g.node.type with
    | none =>
      have hread : (Expr.function g).type = .error (.notSet "type") := by
        rw [Expr.type, Expr.node, Node.checked, htype]
      refine ⟨g, .error (.notSet "type"), hmoves, Carries.bind hpick ?_, rfl, htype⟩
      dsimp only
      rw [hresolved, hread]
      exact Carries.fault (Carries.lift g _)
    | some source =>
      have hread : (Expr.function g).type = .ok source := by
        rw [Expr.type, Expr.node, Node.checked, htype]
      obtain ⟨b, hb⟩ := canConvert_carries g g.node.place context source target
      cases b with
      | false =>
        refine ⟨g, .ok none, hmoves, Carries.bind hpick ?_, Ends.none _⟩
        dsimp only
        rw [hresolved, hread]
        exact Carries.bind (Carries.lift g _) (Carries.bind hb (Carries.pure g none))
      | true =>
        refine ⟨g, .ok (some (if source.same target then .function g
          else .cast (.typed g.node.place target) target (.function g) false)), hmoves, Carries.bind hpick ?_, fun e he => ?_⟩
        · dsimp only
          rw [hresolved, hread]
          exact Carries.bind (Carries.lift g _) (Carries.bind hb (Carries.pure g _))
        · cases he
          split
          · exact .name
          · exact .cast _ target

/-- Whatever the step, it moves the name. -/
theorem pass_carries (htag : f.node.tag = some tag) (step : NameStep) :
    ∃ g x, f.Moves g ∧ Carries (step.pass f) f g x ∧ Ends g x := by
  cases step with
  | check =>
    refine ⟨f.settleType, _, .settle, settle_carries htag, fun e he => ?_⟩
    cases he
    exact .name
  | typecheck =>
    obtain ⟨x, hx, hends⟩ := typecheck_carries htag
    exact ⟨f.settleType, x, .settle, hx, hends⟩
  | resolve arguments =>
    exact ⟨f.tried arguments, .ok none, .attempt arguments, Carries.bind (resolve_carries htag arguments) (Carries.pure _ none), Ends.none _⟩
  | convert target context => exact convert_carries htag target context

end Check

/-! ## Forests -/

namespace Forest

/-- Runs a pass and adds its result to the trees. A pass that ends in a fault has none. -/
def push (forest : Forest) (pass : Check (Option Expr)) : Forest :=
  match forest.run pass with
  | (.ok e, forest) => (forest.add e).2
  | (.error _, forest) => forest

/-- Takes a step over the tree at an index, if this is the name that has the tag. -/
def step (tag : Nat) (forest : Forest) (step : Nat × NameStep) : Forest :=
  match forest.tree? step.1 with
  | some (.function f) => if f.node.tag = some tag then forest.push (step.2.pass f) else forest
  | _ => forest

def after (forest : Forest) (tag : Nat) (steps : List (Nat × NameStep)) : Forest := steps.foldl (Forest.step tag) forest

/-- A name is one of the trees of a forest between two passes, and is the same wherever its node is in a tree. -/
structure Holds (forest : Forest) (tag : Nat) (f : FunctionName) : Prop where
  findings_eq : forest.session.findings = []
  tag_eq : f.node.tag = some tag
  mem : some (.function f) ∈ forest.trees
  same : ∀ e, some e ∈ forest.trees → ∀ u ∈ e.uses none, u.2.node.tag = some tag → u.2 = f

/-- From one forest to another, as many verdicts were reported as a name took. -/
def Accounts (before after : Forest) (f g : FunctionName) : Prop :=
  ∃ new, after.session.log = before.session.log ++ new ∧ f.refusals + new.countP Message.isVerdict = g.refusals

variable {α : Type} {forest : Forest} {tag : Nat} {f g : FunctionName}

theorem Accounts.refl (forest : Forest) (f : FunctionName) : forest.Accounts forest f f :=
  ⟨[], (List.append_nil _).symm, rfl⟩

theorem Accounts.trans {forest' forest'' : Forest} {k : FunctionName} (h : forest.Accounts forest' f g)
    (h' : forest'.Accounts forest'' g k) : forest.Accounts forest'' f k := by
  obtain ⟨new, hlog, hcount⟩ := h
  obtain ⟨more, hlog', hcount'⟩ := h'
  refine ⟨new ++ more, by rw [hlog', hlog, List.append_assoc], ?_⟩
  rw [List.countP_append, ← Nat.add_assoc, hcount, hcount']

/-! ### One step -/

/-- What a pass finds out about a name is told to every tree. -/
theorem Holds.run {m : Check α} {x : Except Fault α} (h : forest.Holds tag f) (hm : Check.Carries m f g x) :
    (forest.run m).1 = x ∧ (forest.run m).2.Holds tag g ∧ forest.Accounts (forest.run m).2 f g := by
  obtain ⟨new, found, hrun, hrecall, hcount⟩ := hm
  have hforest : forest.run m = (x, ⟨{ forest.session with log := forest.session.log ++ new },
      forest.trees.map fun e => e.map (Expr.refresh found), forest.nextTag⟩) := by
    unfold Forest.run
    rw [hrun, Session.after, h.findings_eq, List.nil_append]
    simp only [h.findings_eq]
  rw [hforest]
  refine ⟨rfl, ⟨h.findings_eq, ?_, ?_, ?_⟩, new, rfl, hcount⟩
  · rw [← hrecall, FunctionName.recall_tag]
    exact h.tag_eq
  · refine List.mem_map.mpr ⟨_, h.mem, ?_⟩
    rw [Option.map_some, ← hrecall, ← Expr.learn_function]
    rfl
  · intro e he u hu htag
    obtain ⟨o, ho, hoe⟩ := List.mem_map.mp he
    obtain ⟨d, rfl, rfl⟩ := Option.map_eq_some_iff.mp hoe
    rw [Expr.uses_refresh] at hu
    obtain ⟨v, hv, rfl⟩ := List.mem_map.mp hu
    rw [FunctionName.recall_tag] at htag
    rw [h.same d ho v hv htag]
    exact hrecall

theorem Holds.add (h : forest.Holds tag f) {o : Option Expr} (ho : ∀ e ∈ o, Check.Shown f e) :
    (forest.add o).2.Holds tag f ∧ (forest.add o).2.session = forest.session := by
  obtain ⟨o', ho', htrees, hsession⟩ : ∃ o' : Option Expr, (∀ e ∈ o', Check.Shown f e) ∧
      (forest.add o).2.trees = forest.trees ++ [o'] ∧ (forest.add o).2.session = forest.session := by
    cases o with
    | none => exact ⟨none, nofun, rfl, rfl⟩
    | some e =>
      refine ⟨some (e.withTags.run forest.nextTag).1, fun d hd => ?_, rfl, rfl⟩
      cases hd
      exact (ho e rfl).withTags h.tag_eq _
  refine ⟨⟨hsession ▸ h.findings_eq, h.tag_eq, ?_, fun e he u hu => ?_⟩, hsession⟩
  · rw [htrees]
    exact List.mem_append_left _ h.mem
  · rw [htrees, List.mem_append, List.mem_singleton] at he
    rcases he with he | rfl
    · exact h.same e he u hu
    · exact fun _ => (ho' e rfl).name_of_use hu

theorem Holds.push {m : Check (Option Expr)} {x : Except Fault (Option Expr)} (h : forest.Holds tag f)
    (hm : Check.Carries m f g x) (hx : Check.Ends g x) :
    (forest.push m).Holds tag g ∧ forest.Accounts (forest.push m) f g := by
  obtain ⟨hresult, hholds, haccounts⟩ := h.run hm
  unfold Forest.push
  cases hrun : forest.run m with
  | mk result forest' =>
    rw [hrun] at hresult hholds haccounts
    subst hresult
    cases result with
    | error fault => exact ⟨hholds, haccounts⟩
    | ok o =>
      obtain ⟨hadded, hsession⟩ := hholds.add hx
      refine ⟨hadded, ?_⟩
      unfold Accounts
      rw [hsession]
      exact haccounts

theorem Holds.eq_of_tree {i : Nat} (h : forest.Holds tag f) (ht : forest.tree? i = some (.function g))
    (htag : g.node.tag = some tag) : g = f := by
  have hmem : some (Expr.function g) ∈ forest.trees := List.mem_of_getElem? (Option.join_eq_some_iff.mp ht)
  exact h.same _ hmem (none, g) List.mem_cons_self htag

theorem Holds.step (h : forest.Holds tag f) (s : Nat × NameStep) :
    ∃ g, f.Moves g ∧ (forest.step tag s).Holds tag g ∧ forest.Accounts (forest.step tag s) f g := by
  unfold Forest.step
  split
  · rename_i g ht
    split
    · rename_i htag
      rw [h.eq_of_tree ht htag]
      obtain ⟨k, x, hmoves, hx, hends⟩ := Check.pass_carries h.tag_eq s.2
      exact ⟨k, hmoves, h.push hx hends⟩
    · exact ⟨f, .stay, h, .refl forest f⟩
  · exact ⟨f, .stay, h, .refl forest f⟩

/-! ### All steps -/

open Relation

theorem after_append (forest : Forest) (tag : Nat) (steps more : List (Nat × NameStep)) :
    forest.after tag (steps ++ more) = (forest.after tag steps).after tag more :=
  List.foldl_append

theorem Holds.after (h : forest.Holds tag f) (steps : List (Nat × NameStep)) :
    ∃ g, ReflTransGen FunctionName.Moves f g ∧ (forest.after tag steps).Holds tag g ∧
      forest.Accounts (forest.after tag steps) f g := by
  induction steps generalizing forest f with
  | nil => exact ⟨f, .refl, h, .refl forest f⟩
  | cons s steps ih =>
    obtain ⟨g, hmove, hholds, haccounts⟩ := h.step s
    obtain ⟨k, hmoves, hholds', haccounts'⟩ := ih hholds
    exact ⟨k, .head hmove hmoves, hholds', haccounts.trans haccounts'⟩

/-- However a name that nothing was found out about is checked, resolved and converted, the function that is chosen for it is a
candidate and stays chosen, and every resolution gives it. A name that has a type keeps it, and it is that of its function. A
name that has not just one candidate and was refused stays as it is, without a function and a type. A resolution always ends,
and refuses the name if it gives no function; all that another step can end in is that there is no type to read. There is one
verdict in all if the name was refused, and none if not. -/
theorem resolved_once (h : forest.Holds tag f) (hf : f.origin = f) (steps more : List (Nat × NameStep)) :
    ∃ g g', (forest.after tag steps).Holds tag g ∧ (forest.after tag (steps ++ more)).Holds tag g' ∧
      (∀ s, g.choice.chosen = some s → s ∈ f.candidates ∧ g' = g ∧
        ∀ arguments session, (g.resolve arguments).run session = (.ok (some s, g), session)) ∧
      (∀ t, g.node.type = some t → g'.node.type = some t ∧ ∃ s, g.function? = some s ∧ t = s.type) ∧
      (f.candidates.length ≠ 1 → g.failed = true → g' = g ∧ g.isResolved = false ∧ g.node.type = none) ∧
      (∀ arguments, ∃ r, ((forest.after tag steps).run (g.resolve arguments)).1 = .ok (r.choice.chosen, r) ∧
        ((forest.after tag steps).run (g.resolve arguments)).2.Holds tag r ∧ (r.failed = true ↔ r.choice.chosen = none)) ∧
      (∀ step fault, ((forest.after tag steps).run (NameStep.pass g step)).1 = .error fault →
        fault = .notSet "type" ∧ g.node.type = none) ∧
      ∃ new, (forest.after tag steps).session.log = forest.session.log ++ new ∧
        new.countP Message.isVerdict = if g.failed then 1 else 0 := by
  -- all that is claimed is an invariant of moves, or is read off the name after the steps
  obtain ⟨g, hmoves, hholds, new, hlog, hcount⟩ := h.after steps
  obtain ⟨g', hmoves', hholds', -⟩ := hholds.after more
  have hsound : g.Sound := .of_moves hmoves (FunctionName.sound_of_origin hf)
  have horigin : g.origin = f.origin := FunctionName.origin_of_moves hmoves
  have hcandidates : g.candidates = f.candidates := congrArg (fun f => f.candidates) horigin
  rw [FunctionName.refusals_of_origin hf, Nat.zero_add] at hcount
  refine ⟨g, g', hholds, after_append forest tag steps more ▸ hholds', fun s hs => ?_, fun t ht => ?_, fun hn hfailed => ?_,
    fun arguments => ?_, fun step fault hfault => ?_, new, hlog, hcount⟩
  · exact ⟨hcandidates ▸ (hsound.chosen s hs).1, (hsound.final_of_chosen hs).of_moves hmoves', FunctionName.resolve_of_chosen hs⟩
  · exact ⟨FunctionName.type_of_moves hmoves' ht, hsound.type_eq t ht⟩
  · rw [← hcandidates] at hn
    have hfunction := FunctionName.function_eq_none (FunctionName.failed_eq_true.mp hfailed).2 hn
    exact ⟨(FunctionName.final_of_failed hfailed hn).of_moves hmoves', by rw [FunctionName.isResolved, hfunction]; rfl,
      hsound.type_eq_none hfunction⟩
  · obtain ⟨hresult, hresolved, -⟩ := hholds.run (Check.resolve_carries hholds.tag_eq arguments)
    exact ⟨g.tried arguments, hresult, hresolved, g.tried_failed_iff arguments⟩
  · obtain ⟨k, x, hmove, hx, hends⟩ := Check.pass_carries hholds.tag_eq step
    obtain ⟨hresult, -⟩ := hholds.run hx
    rw [hresult] at hfault
    subst hfault
    refine ⟨hends.1, ?_⟩
    cases ht : g.node.type with
    | none => rfl
    | some t => cases (hmove.type_eq ht).symm.trans hends.2

/-- The name of three functions, as the only tree. -/
def overloadedForest : Forest := ofTrees .standard [.function ⟨{}, "f", numberOverloads, {}⟩]

def overloadedName : FunctionName := ⟨{ tag := some 0 }, "f", numberOverloads, {}⟩

theorem overloadedForest_holds : overloadedForest.Holds 0 overloadedName where
  findings_eq := rfl
  tag_eq := rfl
  mem := List.mem_singleton.mpr rfl
  same e he u hu _ := by
    have htrees : overloadedForest.trees = [some (.function overloadedName)] := rfl
    rw [htrees, List.mem_singleton] at he
    cases he
    rw [Expr.uses, List.mem_singleton] at hu
    rw [hu]

/-- A name that was called with a literal zero keeps the function that takes a pointer, though it is then converted to a pointer
to another. -/
theorem resolved_once_overloaded : overloadedForest.Holds 0 overloadedName ∧ overloadedName.origin = overloadedName ∧
    ∃ g, (overloadedForest.after 0 [(0, .resolve [literalZero])]).Holds 0 g ∧
      (overloadedForest.after 0 [(0, .resolve [literalZero]), (0, .convert (.pointer (.function .void [.int32] false) {}) "cast"),
        (0, .check)]).Holds 0 g ∧
      g.choice.chosen = some (procedure [numberPointer]) ∧ g.node.type = some (procedure [numberPointer]).type ∧
      ∃ new, (overloadedForest.after 0 [(0, .resolve [literalZero])]).session.log = overloadedForest.session.log ++ new ∧
        new.countP Message.isVerdict = 0 := by
  obtain ⟨g, g', hg, hg', hchosen, -, -, -, -, new, hlog, hcount⟩ := resolved_once overloadedForest_holds rfl
    [(0, .resolve [literalZero])] [(0, .convert (.pointer (.function .void [.int32] false) {}) "cast"), (0, .check)]
  have hname : overloadedName.tried [literalZero] = g := hg.eq_of_tree (i := 0) rfl rfl
  subst hname
  obtain ⟨-, hkept, -⟩ := hchosen (procedure [numberPointer]) rfl
  rw [hkept] at hg'
  exact ⟨overloadedForest_holds, rfl, _, hg, hg', rfl, rfl, new, hlog, hcount⟩

/-- A name that was refused has no function for any later call. -/
example : (overloadedName.tried []).failed = true ∧ (overloadedName.tried []).tried [literalZero] = overloadedName.tried [] :=
  ⟨rfl, rfl⟩

end Forest

end Spmd
