import Spmd.Code.Emission
import Spmd.Proofs.Except

/-!
# What emissions keep

Code is read from its start: an instruction is judged by the code before it (`Code.Each`). An emission keeps such a property
if what it adds has it (`Emit.Keeps`), and a sequence of emissions keeps what each of them keeps.
-/

namespace Spmd

namespace Code

variable {Q : Code → Instruction → Prop} {c d : Code} {i : Instruction}

/-- What holds of every instruction and the code before it. -/
def Each (Q : Code → Instruction → Prop) (c : Code) : Prop := ∀ (d : Code) (i : Instruction), d ++ [i] <+: c → Q d i

theorem Each.nil : Each Q [] := by
  intro d i h
  rw [List.prefix_nil] at h
  exact absurd h (by simp)

theorem Each.snoc (h : Each Q c) (hi : Q c i) : Each Q (c ++ [i]) := by
  intro d j hd
  rcases List.prefix_concat_iff.mp hd with heq | hp
  · obtain ⟨rfl, hij⟩ := List.append_inj' heq rfl
    cases hij
    exact hi
  · exact h d j hp

end Code

namespace Emit

variable {α β : Type} {I : Code → Prop} {c : Code} {P P' : α → Code → Prop} {Q : β → Code → Prop}

/-- What holds of the result and the code if an emission ends without a fault: it only adds code, which keeps the property. -/
def Keeps (I : Code → Prop) (c : Code) (m : Emit α) (P : α → Code → Prop) : Prop :=
  I c → ∀ a d, m.run c = (.ok a, d) → c <+: d ∧ I d ∧ P a d

theorem Keeps.pure {a : α} (h : P a c) : Keeps I c (pure a) P := by
  intro hc b d hb
  cases hb
  exact ⟨List.prefix_refl c, hc, h⟩

theorem Keeps.bind {m : Emit β} {k : β → Emit α} (h : Keeps I c m Q)
    (hk : ∀ b d, c <+: d → Q b d → Keeps I d (k b) P) : Keeps I c (m >>= k) P := by
  intro hc a e ha
  obtain ⟨b, d, hb, ha⟩ := ok_of_run_bind ha
  obtain ⟨hcd, hd, hq⟩ := h hc b d hb
  obtain ⟨hde, he, hp⟩ := hk b d hcd hq hd a e ha
  exact ⟨hcd.trans hde, he, hp⟩

theorem Keeps.mono {m : Emit α} (h : Keeps I c m P) (hP : ∀ a d, P a d → P' a d) : Keeps I c m P' := by
  intro hc a d ha
  obtain ⟨hcd, hd, hp⟩ := h hc a d ha
  exact ⟨hcd, hd, hP a d hp⟩

theorem Keeps.lift {x : Except Fault β} {k : β → Emit α} (h : ∀ b, x = .ok b → Keeps I c (k b) P) :
    Keeps I c ((liftM x : Emit β) >>= k) P := by
  intro hc a d ha
  obtain ⟨b, e, hb, ha⟩ := ok_of_run_bind ha
  cases hb
  exact h b rfl hc a d ha

theorem Keeps.read {x : Except Fault β} {b : β} {k : β → Emit α} (hx : x = .ok b) (h : Keeps I c (k b) P) :
    Keeps I c ((liftM x : Emit β) >>= k) P := by
  refine Keeps.lift fun b' hb => ?_
  rw [hx] at hb
  cases hb
  exact h

theorem Keeps.throw (f : Fault) : Keeps I c (throw f : Emit α) P := by
  intro _ a d ha
  cases ha

/-- Where an expression denotes storage is told by its value if it is a reference, and by its address otherwise. -/
theorem Keeps.located {e : Expr} {value : Emit Value} {address : Emit (Option Value)} {P : Value → Code → Prop}
    (hv : ∀ t, e.type = .ok t → t.isReference = true → Keeps I c value P)
    (ha : ∀ t, e.type = .ok t → t.isReference = false → Keeps I c address fun a d => ∀ v, a = some v → P v d) :
    Keeps I c (e.storageAddress value address) P := by
  unfold Expr.storageAddress
  refine Keeps.lift fun t ht => ?_
  split
  · rename_i hr
    exact hv t ht hr
  · rename_i hr
    refine Keeps.bind (ha t ht (Bool.eq_false_iff.mpr hr)) fun a d _ h => ?_
    cases a with
    | none => exact Keeps.throw _
    | some v => exact Keeps.pure (h v rfl)

theorem keeps_emit {Q : Code → Instruction → Prop} {i : Instruction} {P : Value → Code → Prop} (h : Q c i)
    (hP : P ⟨c.length⟩ (c ++ [i])) : Keeps (Code.Each Q) c (emit i) P := by
  intro hc v d hv
  cases hv
  exact ⟨List.prefix_append c [i], hc.snoc h, hP⟩

end Emit

end Spmd
