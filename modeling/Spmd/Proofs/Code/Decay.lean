import Spmd.Proofs.Code.Generation
import Spmd.Proofs.Code.Place

/-!
# Arrays that become pointers

An array becomes a pointer by a cast, whether the cast is written or a conversion leaves it. Its code first computes where the
array is stored, which is the value of a reference to it; but what is cast is the array that is then loaded from there
(`typecheck_decays`). Only a reference that is cast itself is cast as an address.
-/

namespace Spmd

namespace Expr

/-- The code for a cast of what is stored at an address, after the code for the address. -/
def castInstructions (source target : Ty) (address : Value) (before : Code) : Code :=
  if source.isReference then [.cast address source target]
  else [.load address source, .cast ⟨before.length⟩ source target]

variable {T : Target} {node : Node} {c : Expr} {u target : Ty} {reported : Bool}

theorem castCode_run {place : Emit Value} {code d : Code} {a : Value} (h : place.run code = (.ok a, d)) (source target : Ty) :
    ∃ v, (castCode place source target).run code = (.ok v, d ++ castInstructions source target a d) := by
  unfold castCode castInstructions
  rw [Emit.run, run_bind_of_ok h]
  cases source.isReference with
  | true => exact ⟨_, rfl⟩
  | false =>
    have happend : d ++ [.load a source, .cast ⟨d.length⟩ source target] =
        d ++ [Instruction.load a source] ++ [.cast ⟨d.length⟩ source target] := by
      rw [List.append_assoc]
      rfl
    simp only [Bool.false_eq_true, if_false]
    rw [happend]
    exact ⟨_, rfl⟩

/-- A cast of what denotes storage first computes where that is, and then casts what it reads there. -/
theorem Checked.cast_runs (h : Checked T (.cast node target c reported)) (hw : c.WellTyped)
    (hg : (Expr.cast node target c reported).Generates) (hu : c.type? = some u) (hs : c.isStorage = .ok true) (code : Code) :
    ∃ a d v, (storageAddress c c.value c.address).run code = (.ok a, d) ∧
      (Expr.cast node target c reported).value.run code = (.ok v, d ++ castInstructions u target a d) := by
  have hcast := h.cast_of_storage hw hu hs
  obtain ⟨v, e, hrun⟩ := hg.value code
  rw [hcast] at hrun ⊢
  obtain ⟨a, d, ha, -⟩ := ok_of_run_bind hrun
  obtain ⟨w, hrun⟩ := castCode_run ha u target
  exact ⟨a, d, w, ha, hrun⟩

/-- The code of an array that becomes a pointer: where the array is stored comes first. -/
def DecayRuns (n : Expr) : Prop :=
  ∀ node target c reported u, n = .cast node target c reported → target.isPointer = true → c.type? = some u →
    u.stored.isArray = true → c.isStorage = .ok true → ∀ code, ∃ a d v,
      (storageAddress c c.value c.address).run code = (.ok a, d) ∧ n.value.run code = (.ok v, d ++ castInstructions u target a d)

end Expr

open Spmd.Expr Check

/-- In what checking gives for an expression of a program, every array that denotes storage and is cast to a pointer is loaded from
its address, unless it is given as a reference, and what was loaded is cast. -/
theorem typecheck_decays {target : Target} {file : String} {json : Option Json} {p : Program} {e t : Expr} {s s' : Session}
    (hp : Program.read target file json = .ok p) (he : e ∈ p.expressions) (hs : s.target = target)
    (ht : (typecheck e).run s = (.ok (some t), s')) : t.Everywhere DecayRuns := by
  have hc := typecheck_checked hp he hs ht
  have hw := typecheck_wellTyped hp he hs ht
  have hg := (typecheck_generates hp he hs ht).1
  clear ht
  induction t using Expr.induct with
  | h t ih =>
    refine .node ?_ fun c h => ih c h (hc.child h) (hw.child h) (hg.child h)
    rintro node target c reported u rfl - hu - hstorage code
    exact hc.cast_runs (hw.child (by simp [children])).here hg.here hu hstorage code

/-! ## An assignment -/

/-- The assignment `p = a` of an array to a pointer. -/
def decayJson : Json :=
  .object [("symbols", .array [.object [("name", .string "p"), ("type", .object [("pointer", .string "int32")])],
      .object [("name", .string "a"), ("type", .object [("array", .string "int32")])]]),
    ("expressions", .array [.object [("assign", .string "="), ("target", .object [("symbol", .string "p")]),
      ("value", .object [("symbol", .string "a")])]])]

def int32Pointer : Ty := .pointer .int32 {}

/-- `p = a` with a type and a value. -/
def decayExpr (node : Node) (value : Expr) : Expr := .assign node .plain (localNamed "p" int32Pointer) value none

def decayCast : Expr := .cast (.typed none int32Pointer) int32Pointer (localNamed "a" int32Array) false

theorem decay_read : ∃ scope, Program.read .standard "program" (some decayJson) =
    .ok ⟨scope, [decayExpr {} (localNamed "a" int32Array)]⟩ := ⟨_, rfl⟩

theorem decay_checks : (typecheck (decayExpr {} (localNamed "a" int32Array))).run { target := .standard } =
    (.ok (some (decayExpr (.typed none int32Pointer) decayCast)), { target := .standard }) := rfl

theorem typecheck_decays_assigned : (decayExpr (.typed none int32Pointer) decayCast).Everywhere DecayRuns := by
  obtain ⟨scope, hread⟩ := decay_read
  exact typecheck_decays hread (List.mem_singleton_self _) rfl decay_checks

/-- The pointer that is stored is cast from the array, not from its address. -/
theorem decay_loads : (∃ scope, Program.read .standard "program" (some decayJson) =
      .ok ⟨scope, [decayExpr {} (localNamed "a" int32Array)]⟩) ∧
    ∃ t, ((typecheck (decayExpr {} (localNamed "a" int32Array))).run { target := .standard }).1 = .ok (some t) ∧
      (t.value.run []).2 = [.symbolAddress (localVariable "p" int32Pointer), .symbolAddress (localVariable "a" int32Array),
        .load ⟨1⟩ int32Array, .cast ⟨2⟩ int32Array int32Pointer,
        .store ⟨3⟩ ⟨0⟩ int32Pointer] :=
  ⟨⟨_, rfl⟩, _, rfl, rfl⟩

end Spmd
