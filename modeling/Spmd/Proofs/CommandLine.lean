import Spmd.CommandLine
import Spmd.Proofs.Batch.Gating

/-!
# What is printed

The command ends well only after it printed what became of every expression of every file, for then no expression was
rejected (`CommandLine.batch_gates`).
-/

namespace Spmd.CommandLine

open Check Spmd.Expr Batch

variable {T : Target} {us : List (Option Nat × FunctionName)} {o : Options} {b : Batch}

/-! ## Files -/

theorem readFiles_ok {contents : Contents} {files : List String} {texts : List (String × String)}
    (h : readFiles contents files = .ok texts) :
    List.Forall₂ (fun file t => t.1 = file ∧ contents file = .ok t.2) files texts := by
  unfold readFiles at h
  split at h
  · cases h
  · rename_i hnone
    obtain rfl := Except.ok.inj h
    unfold firstUnreadable? at hnone
    rw [Option.or_eq_none_iff] at hnone
    have hall := List.filterMap_eq_nil_iff.mp (List.head?_eq_none_iff.mp hnone.2)
    clear h hnone
    induction files with
    | nil => exact .nil
    | cons file files ih =>
      have hfile := hall file List.mem_cons_self
      cases hc : contents file with
      | error e => rw [hc] at hfile; cases hfile
      | ok text =>
        rw [List.filterMap_cons, hc]
        exact .cons ⟨rfl, hc⟩ (ih fun f hf => hall f (List.mem_cons_of_mem _ hf))

/-- A program that was read from a file with the contents. -/
def ReadFrom (T : Target) (contents : Contents) (file : String) (fp : String × Program) : Prop :=
  fp.1 = file ∧ ∃ text, contents file = .ok text ∧ Program.parse T file text = .ok fp.2

theorem readPrograms_ok {contents : Contents} {files : List String} {texts : List (String × String)}
    {programs : List (String × Program)} (htexts : List.Forall₂ (fun file t => t.1 = file ∧ contents file = .ok t.2) files texts)
    (h : readPrograms T texts = .ok programs) : List.Forall₂ (ReadFrom T contents) files programs := by
  induction htexts generalizing programs with
  | nil => cases h; exact .nil
  | @cons file t files texts hfile _ ih =>
    obtain ⟨_, text⟩ := t
    obtain ⟨rfl, hcontents⟩ := hfile
    rw [readPrograms] at h
    obtain ⟨p, hp, h⟩ := bind_eq_ok h
    obtain ⟨rest, hrest, h⟩ := bind_eq_ok h
    cases h
    exact .cons ⟨rfl, text, hcontents, hp⟩ (ih hrest)

theorem ReadFrom.read {contents : Contents} {file : String} {fp : String × Program} (h : ReadFrom T contents file fp) :
    ∃ json, Program.read T file json = .ok fp.2 := by
  obtain ⟨-, text, -, hparse⟩ := h
  unfold Program.parse at hparse
  split at hparse
  · exact ⟨_, hparse⟩
  · cases hparse

/-! ## Runs -/

/-- All expressions of the programs are printed, each of them with what it was optimized to. -/
inductive Printed (o : Options) : List (String × Program) → String → Prop
  | nil : Printed o [] ""
  | cons {file : String} {p : Program} {rest : List (String × Program)} {os : List Outcome} {others : String}
      (sources : os.map Outcome.source = p.expressions)
      (accepted : ∀ x ∈ os, ∃ e n, x.expression = some e ∧ x.cost = some n) (later : Printed o rest others) :
      Printed o ((file, p) :: rest) (String.join (os.map (reportOf o file)) ++ others)

theorem runPrograms_printed {programs : List (String × Program)} {es : List Expr} {stdout : String} {d : Batch}
    (hpool : Pool T us (programs.flatMap fun p => p.2.expressions)) (hb : Sound T us b es)
    (hrun : runPrograms o b programs = (stdout, .ok d)) :
    (b.log.errors ≠ [] → d.log.errors ≠ []) ∧ (d.log.errors = [] → Printed o programs stdout) := by
  induction programs generalizing b es stdout with
  | nil => cases hrun; exact ⟨id, fun _ => .nil⟩
  | cons fp rest ih =>
    obtain ⟨file, p⟩ := fp
    rw [List.flatMap_cons] at hpool
    obtain ⟨hsound, hends⟩ := run_sound (hpool.of_subset fun e he => List.mem_append_left _ he) hb
    rw [runPrograms] at hrun
    cases hfirst : b.run p.expressions with
    | mk x b' =>
      rw [hfirst] at hrun hsound hends
      cases x with
      | error fault => cases hrun
      | ok os =>
        cases hothers : runPrograms o b' rest with
        | mk others result =>
          simp only [hothers, Prod.mk.injEq] at hrun
          obtain ⟨rfl, rfl⟩ := hrun
          obtain ⟨hkept, hprinted⟩ := ih (hpool.of_subset fun e he => List.mem_append_right _ he) hsound hothers
          refine ⟨fun h => hkept (hends.errors h), fun hn => ?_⟩
          have hclean : b'.log.errors = [] := by
            by_contra h
            exact hkept h hn
          obtain ⟨os', hos, hsources, hall⟩ := hends.complete hclean
          obtain rfl := Except.ok.inj hos
          exact .cons hsources (fun x hx => (hall x hx).accepted) (hprinted hn)

theorem pool_of_programs {programs : List (String × Program)} {contents : Contents} {files : List String} (h : List.Forall₂ (ReadFrom T contents) files programs) :
    Pool T ((programs.flatMap fun p => p.2.expressions).flatMap (uses none)) (programs.flatMap fun p => p.2.expressions) := by
  have hunshared : ∀ e ∈ programs.flatMap fun p => p.2.expressions, Everywhere (Unshared T) e := by
    intro e he
    obtain ⟨fp, hfp, he⟩ := List.mem_flatMap.mp he
    obtain ⟨file, -, hfile⟩ := Forall₂.exists_of_mem h hfp
    obtain ⟨json, hread⟩ := hfile.read
    exact (Program.read_unshared hread).2 e he
  refine ⟨?_, fun e he => Everywhere.mono (fun _ h => h.1) (hunshared e he), fun e he u hu => List.mem_flatMap.mpr ⟨e, he, hu⟩⟩
  rw [List.filterMap_flatMap]
  refine (List.flatMap_eq_nil_iff.mpr fun e he => ?_) ▸ List.nodup_nil
  exact nameTags_of_unshared (hunshared e he)

/-- What the command ends with when it ends well: all files could be read, and all expressions in them are printed. -/
def Succeeds (contents : Contents) (args : List String) (stdout : String) : Prop :=
  ∃ o target programs, Options.ofArguments args = some o ∧ o.target = .ok target ∧
    List.Forall₂ (ReadFrom target contents) o.files programs ∧ Printed o programs stdout

theorem outputOf_printed {programs : List (String × Program)} {contents : Contents} {files : List String}
    (h : List.Forall₂ (ReadFrom T contents) files programs) (hexit : (outputOf o T programs).exitCode = 0) :
    Printed o programs (outputOf o T programs).stdout := by
  have hpool := pool_of_programs h
  unfold outputOf at hexit ⊢
  cases hrun : runPrograms o (.new T) programs with
  | mk stdout result =>
    rw [hrun] at hexit
    cases result with
    | error fault => cases hexit
    | ok d =>
      refine (runPrograms_printed hpool (new_sound T _) hrun).2 ?_
      dsimp only at hexit
      split at hexit
      · cases hexit
      · rename_i hfailed
        rw [Batch.failed, Bool.or_eq_true, not_or] at hfailed
        simpa using hfailed.1

theorem run_succeeds {contents : Contents} {args : List String} (hexit : (run contents args).exitCode = 0) :
    Succeeds contents args (run contents args).stdout := by
  unfold run at hexit ⊢
  cases ho : Options.ofArguments args with
  | none => rw [ho] at hexit; cases hexit
  | some o =>
    rw [ho] at hexit
    dsimp only at hexit ⊢
    cases ht : o.target with
    | error e => rw [ht] at hexit; cases hexit
    | ok target =>
      rw [ht] at hexit
      dsimp only at hexit ⊢
      cases htexts : readFiles contents o.files with
      | error message => rw [htexts] at hexit; cases hexit
      | ok texts =>
        rw [htexts] at hexit
        dsimp only at hexit ⊢
        cases hprograms : readPrograms target texts with
        | error e => rw [hprograms] at hexit; cases hexit
        | ok programs =>
          rw [hprograms] at hexit
          dsimp only at hexit ⊢
          have hread := readPrograms_ok (readFiles_ok htexts) hprograms
          exact ⟨o, target, programs, ho, ht, hread, outputOf_printed hread hexit⟩

/-! ## Gating -/

/-- A file with a program of one expression. -/
def oneFile : Contents := fun file =>
  if file = "p" then .ok "\x7b\"expressions\":[\x7b\"const\":true\x7d]\x7d" else .error .missing

theorem oneFile_exit : (run oneFile ["p"]).exitCode = 0 := by decide +kernel

/-- What is printed about the program. -/
example : (run oneFile ["p"]).stdout = "p: true\n  const true : const uniform bool\n" := by decide +kernel

end Spmd.CommandLine
