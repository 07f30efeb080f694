import Spmd.Code.Emission
import Spmd.Proofs.Except

/-!
# Effects of code

The instructions that do more than compute a value leave a sequence of effects (`Code.effects`). `Emit.Performs` says
that an emission never faults and appends code with given effects, and is put together along the steps of the emission.
-/

namespace Spmd

/-- What an instruction does beside computing a value, without the values it does it with. -/
inductive Effect where
  | store (type : Ty)
  | call (varying : Bool) (count : Nat) (signature : Signature)
  | launch (count : Nat) (signature : Signature)
  | sync
  | allocate (type : Ty) (counted : Bool) (pointer : Ty)

/-- The effect of an instruction. A call through a varying pointer may be told from other calls or not. -/
def Instruction.effect? (told : Bool) : Instruction → Option Effect
  | store _ _ t => some (.store t)
  | call varying _ args s => some (.call (told && varying) args.length s)
  | launch _ args _ s => some (.launch args.length s)
  | sync => some .sync
  | allocate t n p => some (.allocate t n.isSome p)
  | _ => none

theorem Instruction.isSome_effect? (told : Bool) (i : Instruction) : (i.effect? told).isSome = i.isEffect := by
  cases i <;> rfl

namespace Code

def effects (told : Bool) (code : Code) : List Effect := code.filterMap (Instruction.effect? told)

theorem effects_append (told : Bool) (c d : Code) : effects told (c ++ d) = effects told c ++ effects told d :=
  List.filterMap_append

end Code

namespace Emit

variable {told : Bool} {α β : Type} {P P' : α → Prop} {Q : β → Prop} {es fs : List Effect}

theorem lift_ok (a : α) : (liftM (Except.ok a : Except Fault α) : Emit α) = pure a := rfl

/-- Whatever code there is, the emission has a result and adds code with the effects to it. -/
def Performs (told : Bool) (m : Emit α) (P : α → Prop) (es : List Effect) : Prop :=
  ∀ c : Code, ∃ a new, m.run c = (.ok a, c ++ new) ∧ P a ∧ Code.effects told new = es

theorem Performs.pure {a : α} (h : P a) : Performs told (pure a) P [] := by
  intro c
  exact ⟨a, [], by rw [List.append_nil]; rfl, h, rfl⟩

theorem Performs.bind {m : Emit β} {k : β → Emit α} (h : Performs told m Q es) (hk : ∀ b, Q b → Performs told (k b) P fs) :
    Performs told (m >>= k) P (es ++ fs) := by
  intro c
  obtain ⟨b, new, hm, hq, rfl⟩ := h c
  obtain ⟨a, more, hb, hp, rfl⟩ := hk b hq (c ++ new)
  refine ⟨a, new ++ more, ?_, hp, Code.effects_append told new more⟩
  rw [← List.append_assoc]
  exact (run_bind_of_ok hm).trans hb

theorem Performs.mono {m : Emit α} (h : Performs told m P es) (hP : ∀ a, P a → P' a) : Performs told m P' es := by
  intro c
  obtain ⟨a, new, hm, hp, he⟩ := h c
  exact ⟨a, new, hm, hP a hp, he⟩

theorem Performs.congr {m : Emit α} (h : Performs told m P es) (he : es = fs) : Performs told m P fs := he ▸ h

theorem Performs.read {x : Except Fault β} {b : β} {k : β → Emit α} (h : x = .ok b) (hk : Performs told (k b) P es) :
    Performs told ((liftM x : Emit β) >>= k) P es := by
  rw [h, lift_ok, pure_bind]
  exact hk

theorem emit_performs (i : Instruction) : Performs told (emit i) (fun _ => True) (i.effect? told).toList := by
  intro c
  refine ⟨⟨c.length⟩, [i], rfl, trivial, ?_⟩
  unfold Code.effects
  cases h : i.effect? told with
  | none => rw [List.filterMap_cons_none h]; rfl
  | some e => rw [List.filterMap_cons_some h]; rfl

/-! ## Values and addresses -/

/-- A value is computed with the effects. -/
def Computes (told : Bool) (m : Emit α) (es : List Effect) : Prop := Performs told m (fun _ => True) es

/-- An address is found with the effects, or is not there and nothing is done about it. -/
def Finds (told found : Bool) (m : Emit (Option Value)) (es : List Effect) : Prop :=
  Performs told m (fun a => a.isSome = found) (if found then es else [])

/-- An emission that may be absent, and has no effect then. -/
def MayCompute (told : Bool) (es : List Effect) : Option (Emit α) → Prop
  | none => es = []
  | some m => Computes told m es

theorem Computes.pure (a : α) : Computes told (pure a) [] := Performs.pure trivial

theorem Computes.bind {m : Emit β} {k : β → Emit α} (h : Computes told m es) (hk : ∀ b, Computes told (k b) fs) :
    Computes told (m >>= k) (es ++ fs) :=
  Performs.bind h fun b _ => hk b

theorem Computes.bind_quiet {m : Emit β} {k : β → Emit α} (h : Computes told m es) (hk : ∀ b, Computes told (k b) []) :
    Computes told (m >>= k) es :=
  Performs.congr (Computes.bind h hk) (List.append_nil es)

theorem Computes.quiet_bind {m : Emit β} {k : β → Emit α} (h : Computes told m []) (hk : ∀ b, Computes told (k b) es) :
    Computes told (m >>= k) es :=
  Computes.bind h hk

theorem Computes.read {x : Except Fault β} {b : β} {k : β → Emit α} (h : x = .ok b) (hk : Computes told (k b) es) :
    Computes told ((liftM x : Emit β) >>= k) es :=
  Performs.read h hk

theorem computes_emit (i : Instruction) : Computes told (emit i) (i.effect? told).toList := emit_performs i

end Emit

end Spmd
