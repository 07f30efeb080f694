import Spmd.Proofs.Batch.Compile

/-!
# Expressions of a batch do not depend on each other

However the expressions of a program are put into runs, each of them becomes what it becomes in a batch of its own, and
reports what it reports there (`Batch.runs_independent`).
-/

namespace Spmd.Batch

open Check Spmd.Expr

def runGroups (b : Batch) : List (List Expr) → List (Except Fault (List Outcome)) × Batch
  | [] => ([], b)
  | g :: gs =>
    let (first, b) := b.run g
    let (rest, b) := b.runGroups gs
    (first :: rest, b)

/-- A run of one expression in a batch of its own. -/
def alone (target : Target) (e : Expr) : Except Fault (List Outcome) × Batch := (new target).run [e]

variable {T : Target} {e : Expr} {es : List Expr} {s : Session}

/-! ## Steps -/

theorem runAll_nil (s : Session) : (runAll []).run s = (.ok [], s) := rfl

theorem runAll_cons {s' s'' : Session} {o : Outcome} {os : List Outcome} (h : (runOne e).run s = (.ok o, s'))
    (hs : (runAll es).run s' = (.ok os, s'')) : (runAll (e :: es)).run s = (.ok (o :: os), s'') := by
  rw [runAll, run_bind h, run_bind hs]
  rfl

theorem run_ok {b : Batch} {os : List Outcome} (h : (runAll es).run b.session = (.ok os, s)) :
    b.run es = (.ok os, ⟨s, b.outcomes ++ os⟩) := by
  rw [run, h]

/-- An expression is not touched by what was found out about names that it does not have. -/
theorem runOne_alone (h : Everywhere (Loaded T) e) :
    ∃ o found, (alone T e).1 = .ok [o] ∧ (∀ y ∈ found, y.tag ∈ e.nameTags) ∧
      ∀ s : Session, s.target = T → (∀ y ∈ s.findings, y.tag ∉ e.nameTags) →
        (runOne e).run s = (.ok o, s.after (alone T e).2.log found) := by
  have hlaw : ∀ u ∈ e.uses none, Named (fun _ f => Known f.settleType) (e.uses none) u.1 u.2 := fun u hu =>
    ⟨(settle_fresh (uses_everywhere h hu)).toKnown, u, hu, rfl, rfl⟩
  obtain ⟨o, new, found, hrun, hfinds, -, -, -⟩ := Secluded.settles (T := T)
    (outcomeOf_secluded e (known_lawful.named _) hlaw) rfl (outcomeOf_meets (prepared_of_loaded h))
  have hone : ∀ s : Session, s.target = T → (∀ y ∈ s.findings, y.tag ∉ e.nameTags) →
      (runOne e).run s = (.ok o, s.after new found) := by
    intro s hs hfresh
    rw [runOne_run, refresh_of_not_mem fun u hu y hy htag => hfresh y hy (List.mem_filterMap.mpr ⟨u, hu, htag⟩)]
    exact hrun s hs
  have halone : alone T e = (.ok [o], ⟨Session.after { target := T } new found, [o]⟩) := by
    have hall := runAll_cons (hone { target := T } rfl (List.forall_mem_nil _)) (runAll_nil _)
    unfold alone
    exact run_ok (b := .new T) hall
  refine ⟨o, found, by rw [halone], fun y hy => ?_, fun s hs hfresh => ?_⟩
  · obtain ⟨k, f, ⟨-, u, hu, -, hf⟩, htag, -⟩ := hfinds y hy
    exact List.mem_filterMap.mpr ⟨u, hu, (FunctionName.tag_of_origin hf).symm.trans htag⟩
  · have hlog : (alone T e).2.log = new := by
      rw [halone]
      exact List.nil_append new
    rw [hlog]
    exact hone s hs hfresh

/-! ## Runs -/

theorem runAll_alone (h : ∀ e ∈ es, Everywhere (Loaded T) e) (hd : (es.flatMap nameTags).Nodup) (hs : s.target = T)
    (hfresh : ∀ y ∈ s.findings, y.tag ∉ es.flatMap nameTags) :
    ∃ os found, (runAll es).run s = (.ok os, s.after (es.flatMap fun e => (alone T e).2.log) found) ∧
      (∀ y ∈ found, y.tag ∈ es.flatMap nameTags) ∧ List.Forall₂ (fun e o => (alone T e).1 = .ok [o]) es os := by
  induction es generalizing s with
  | nil => exact ⟨[], [], by rw [List.flatMap_nil, s.after_nil, runAll_nil], List.forall_mem_nil _, .nil⟩
  | cons e es ih =>
    simp only [List.flatMap_cons, List.nodup_append, List.mem_append, not_or] at hd hfresh
    obtain ⟨-, hrest, hapart⟩ := hd
    obtain ⟨o, found, halone, hfound, hone⟩ := runOne_alone (h e List.mem_cons_self)
    -- what the first expression finds out is about its own names, which the others do not have
    obtain ⟨os, also, hall, halso, hsame⟩ := ih (s := s.after (alone T e).2.log found)
      (fun c hc => h c (List.mem_cons_of_mem _ hc)) hrest hs fun y hy => by
        rcases List.mem_append.mp hy with hy | hy
        · exact (hfresh y hy).2
        · exact fun hm => hapart y.tag (hfound y hy) y.tag hm rfl
    refine ⟨o :: os, found ++ also, ?_, fun y hy => ?_, .cons halone hsame⟩
    · rw [List.flatMap_cons, ← Session.after_after]
      exact runAll_cons (hone s hs fun y hy => (hfresh y hy).1) hall
    · rw [List.flatMap_cons, List.mem_append]
      exact (List.mem_append.mp hy).imp (hfound y) (halso y)

theorem runGroups_alone {b : Batch} {groups : List (List Expr)} (h : ∀ e ∈ groups.flatten, Everywhere (Loaded T) e)
    (hd : (groups.flatten.flatMap nameTags).Nodup) (hb : b.session.target = T)
    (hfresh : ∀ y ∈ b.session.findings, y.tag ∉ groups.flatten.flatMap nameTags) :
    ∃ results found, b.runGroups groups =
        (results.map .ok, ⟨b.session.after (groups.flatten.flatMap fun e => (alone T e).2.log) found, b.outcomes ++ results.flatten⟩) ∧
      List.Forall₂ (List.Forall₂ fun e o => (alone T e).1 = .ok [o]) groups results := by
  induction groups generalizing b with
  | nil =>
    refine ⟨[], [], ?_, .nil⟩
    rw [runGroups, List.flatten_nil, List.flatMap_nil, Session.after_nil, List.flatten_nil, List.append_nil, List.map_nil]
  | cons g gs ih =>
    simp only [List.flatten_cons, List.flatMap_append, List.nodup_append, List.mem_append, not_or] at h hd hfresh
    obtain ⟨hfirst, hrest, hapart⟩ := hd
    obtain ⟨os, found, hall, hfound, hsame⟩ :=
      runAll_alone (fun e he => h e (.inl he)) hfirst hb fun y hy => (hfresh y hy).1
    obtain ⟨results, also, hgroups, hsames⟩ := ih (b := ⟨b.session.after (g.flatMap fun e => (alone T e).2.log) found, b.outcomes ++ os⟩)
      (fun e he => h e (.inr he)) hrest hb fun y hy => by
        rcases List.mem_append.mp hy with hy | hy
        · exact (hfresh y hy).2
        · exact fun hm => hapart y.tag (hfound y hy) y.tag hm rfl
    refine ⟨os :: results, found ++ also, ?_, .cons hsame hsames⟩
    rw [runGroups, run_ok hall]
    simp only [hgroups, Session.after_after, List.flatten_cons, List.flatMap_append, List.append_assoc, List.map_cons]

/-- However the expressions of a program are ordered and put into groups, and whatever tags they have, each of them gives the
same outcome as in a batch of its own. What is reported about them is what each of them reports there, in the order of the
runs. -/
theorem runs_independent {file : String} {json : Option Json} {p : Program} {groups : List (List Expr)}
    (hp : Program.read T file json = .ok p) (hes : es.map untagged = p.expressions) (hd : (es.flatMap nameTags).Nodup)
    (hg : groups.flatten.Perm es) :
    ∃ results b, (new T).runGroups groups = (results.map .ok, b) ∧
      List.Forall₂ (List.Forall₂ fun e o => (alone T e).1 = .ok [o]) groups results ∧ b.outcomes = results.flatten ∧
        b.log = groups.flatten.flatMap fun e => (alone T e).2.log := by
  have hloaded : ∀ e ∈ groups.flatten, Everywhere (Loaded T) e := fun e he =>
    loaded_of_untagged (Program.loaded hp (hes ▸ List.mem_map_of_mem (hg.mem_iff.mp he)))
  have hd : (groups.flatten.flatMap nameTags).Nodup := (hg.flatMap_right nameTags).nodup_iff.mpr hd
  obtain ⟨results, found, hrun, hsame⟩ := runGroups_alone (b := .new T) hloaded hd rfl (List.forall_mem_nil _)
  exact ⟨results, _, hrun, hsame, List.nil_append _, List.nil_append _⟩

/-! ## A call and a name -/

/-- `f(1)` and `f`, where two functions are named `f`. -/
def namesJson : Json :=
  let function (parameters : List Json) : Json := .object [("function", .string "int32"), ("parameters", .array parameters)]
  .object [("symbols", .array [.object [("name", .string "f"), ("type", function [])],
      .object [("name", .string "f"), ("type", function [.string "int32"])]]),
    ("expressions", .array [.object [("call", .object [("symbol", .string "f")]),
        ("args", .array [.object [("const", .string "1"), ("type", .string "int32")]])],
      .object [("symbol", .string "f")]])]

def sharedName (tag : Option Nat) : FunctionName :=
  { node := { tag }, name := "f", candidates := [⟨"f", .function .int32 [] false, .function, none, none⟩,
      ⟨"f", .function .int32 [.int32] false, .function, none, none⟩] }

/-- The call, with a name that can be told from others by its tag. -/
def callExpr (tag : Option Nat) : Expr :=
  .call {} (.function (sharedName tag)) [.const (.typed none Ty.int32.asConst) ⟨.int32, 8, [.int 1]⟩] false none none

theorem namesProgram_read : ∃ scope, Program.read .standard "program" (some namesJson) =
    .ok ⟨scope, [callExpr none, .function (sharedName none)]⟩ := ⟨_, rfl⟩

theorem runs_independent_names : ∃ results b,
    (new .standard).runGroups [[.function (sharedName (some 1))], [callExpr (some 0)]] = (results.map .ok, b) ∧
      List.Forall₂ (List.Forall₂ fun e o => (alone .standard e).1 = .ok [o])
        [[.function (sharedName (some 1))], [callExpr (some 0)]] results ∧ b.outcomes = results.flatten ∧
      b.log = [.function (sharedName (some 1)), callExpr (some 0)].flatMap fun e => (alone .standard e).2.log := by
  obtain ⟨scope, hread⟩ := namesProgram_read
  have hperm : [[Expr.function (sharedName (some 1))], [callExpr (some 0)]].flatten.Perm
      [callExpr (some 0), .function (sharedName (some 1))] := List.Perm.swap ..
  exact runs_independent hread rfl (by decide) hperm

/-- The call is accepted, and the name alone is rejected. -/
example : ((new .standard).runGroups [[.function (sharedName (some 1))], [callExpr (some 0)]]).2.log =
    [⟨.error (.unresolved "f"), none⟩] := rfl

end Spmd.Batch
