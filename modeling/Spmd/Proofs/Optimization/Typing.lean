import Spmd.Proofs.Optimization.Rewriting

/-!
# The optimizer keeps types

Optimizing a checked tree always gives a checked tree of the same type up to top-level `const`, and reports nothing but
errors about constants (`Check.optimize_folds`).
-/

namespace Spmd

namespace Check

open Spmd.Expr

variable {T U : Target} {R : Expr → Expr → Prop} {e o : Expr}

theorem IsLiteral.refined {node : Node} {L : Nat → Scalar → Prop} (h : IsLiteral T node L o)
    (ht : e.type? = node.type) (hl : e.isList = false) : Refined T e o := by
  obtain ⟨s, c, hs, rfl, hsuits, -⟩ := h
  refine ⟨literal_checked hsuits _, ⟨_, ht.trans hs⟩, fun u hu => ?_, fun n es he => by rw [he] at hl; cases hl⟩
  rw [ht, hs] at hu
  cases hu
  exact hasType_iff.mpr ⟨_, rfl, Ty.core_asConst _⟩

theorem checked_given {count count' : Option Expr} (hR : ∀ c c', R c c' → Refined T c c')
    (h : Option.Rel R count count') : ∀ c ∈ count'.toList, Checked T c := by
  cases h with
  | some h => exact checked_single (hR _ _ h).checked
  | none => exact nofun

section
variable (h : Checked T e) (hR : ∀ c c', R c c' → Refined T c c')
include h hR

theorem Held.refined {c' : Expr} (hc : Held R e c') : Refined T e c' := by
  cases hc with
  | symbol => exact Refined.refl h
  | other _ _ hc => exact hR _ _ hc

/-- What the optimizer makes of a checked node can stand for the node. -/
theorem Rewritten.refined (ho : Rewritten T R e o) : Refined T e o := by
  have hf := h.here
  obtain ⟨t, htype, hlegal⟩ := h.typed
  cases ho with
  | leaf => exact Refined.refl h
  | value _ hlit => exact hlit.refined rfl rfl
  | unary hn hc =>
    exact Refined.of_node (hf.unary hn (hR _ _ hc)) (checked_single (hR _ _ hc).checked) hn rfl
  | foldedUnary _ _ hlit => exact hlit.refined rfl rfl
  | step hn hc =>
    have hc := hc.refined (h.child (by simp [children])) hR
    exact Refined.of_node ⟨⟨t, hn.trans htype, hlegal⟩, trivial, trivial⟩ (checked_single hc.checked) hn rfl
  | binary hn hl hr =>
    have hl := hR _ _ hl
    have hr := hR _ _ hr
    exact Refined.of_node (hf.binary hn hl hr) (checked_pair hl.checked hr.checked) hn rfl
  | foldedBinary _ _ _ _ _ _ hlit => exact hlit.refined rfl rfl
  -- what is left has the type of the comma only up to `const`: the comma has that of the value read from it
  | comma _ _ hr _ hu href =>
    obtain ⟨t, w, ht, hw, hcore⟩ := hf.grounded
    obtain ⟨w', hw', hcw⟩ := (hR _ _ hr).type hw
    obtain rfl := Option.some.inj (hu.symm.trans hw')
    refine Refined.of_hasType (hR _ _ hr).checked ht (hasType_iff.mpr ⟨_, hu, ?_⟩) rfl
    rw [hcore, ← Ty.stored_core_eq hcw, Ty.stored_of_not_reference href]
  | @readComma node x i l r l' r' reported a _ _ hr _ hu =>
    obtain ⟨t, w, ht, hw, hcore⟩ := hf.grounded
    obtain ⟨w', hw', hcw⟩ := (hR _ _ hr).type hw
    obtain rfl := Option.some.inj (hu.symm.trans hw')
    have hchecked := (hR _ _ hr).checked
    have hx : (Expr.dereference (.typed r'.place x) r').Formed T := ⟨⟨x, rfl, (hchecked.legal hu).2⟩, trivial, trivial⟩
    refine Refined.of_hasType (.one hx rfl hchecked) ht (hasType_iff.mpr ⟨x, rfl, ?_⟩) rfl
    exact (Ty.stored_core_eq hcw).trans hcore.symm
  | assign hn ht hv =>
    have ht := ht.refined (h.child (by simp [children])) hR
    have hv := hR _ _ hv
    exact Refined.of_node (hf.assign hn ht hv) (checked_pair ht.checked hv.checked) hn rfl
  | select hn ht _ ha hb _ =>
    have ht := hR _ _ ht
    have ha := hR _ _ ha
    have hb := hR _ _ hb
    refine Refined.of_node (hf.select hn ht ha hb) ?_ hn rfl
    exact List.forall_mem_cons.mpr ⟨ht.checked, checked_pair ha.checked hb.checked⟩
  | @branch node test a b test' a' b' c v _ _ ha hb _ _ _ =>
    obtain ⟨t, w, hn, -, hat, hbt⟩ := hf.coherent
    cases v with
    | true => exact Refined.of_hasType (hR _ _ ha).checked hn ((hR _ _ ha).hasType hat) rfl
    | false => exact Refined.of_hasType (hR _ _ hb).checked hn ((hR _ _ hb).hasType hbt) rfl
  | foldedSelect _ _ _ _ _ _ _ _ hlit => exact hlit.refined rfl rfl
  | list hn hes =>
    have hes := hes.imp hR
    refine ⟨.node ⟨⟨t, hn.trans htype, hlegal⟩, trivial, ?_⟩ (checked_of_refined hes), ⟨t, htype⟩, fun u hu => ?_,
      fun n items hitems => ?_⟩
    · intro el i hel
      exact hf.grounded el i (hn.symm.trans hel)
    · exact hasType_of_type (hn.trans hu)
    · cases hitems
      exact ⟨_, _, rfl, hes.length_eq.symm⟩
  | @call node node' callee callee' args args' launch count count' signature hn hc has hcount =>
    have has := has.imp hR
    refine Refined.of_node (hf.call hn (hR _ _ hc) has fun n hn => ?_) ?_ hn rfl
    · cases hcount with
      | some hcount =>
        cases hn
        exact ⟨_, rfl, hR _ _ hcount⟩
      | none => cases hn
    · refine List.forall_mem_cons.mpr ⟨(hR _ _ hc).checked, ?_⟩
      exact List.forall_mem_append.mpr ⟨checked_of_refined has, checked_given hR hcount⟩
  | index hn hb hp =>
    exact Refined.of_node (hf.index hn (hR _ _ hp)) (checked_pair (hR _ _ hb).checked (hR _ _ hp).checked) hn rfl
  | member hn hb =>
    exact Refined.of_node ⟨⟨t, hn.trans htype, hlegal⟩, trivial, hf.grounded⟩ (checked_single (hR _ _ hb).checked) hn rfl
  | cast hn hc =>
    exact Refined.of_node (hf.cast hn (hR _ _ hc)) (checked_single (hR _ _ hc).checked) hn rfl
  | droppedCast hc hu hsame =>
    obtain ⟨hn, -, -⟩ := hf.grounded
    exact Refined.of_hasType (hR _ _ hc).checked hn (hasType_iff.mpr ⟨_, hu, Ty.core_eq_of_same hsame⟩) rfl
  | foldedCast _ _ hlit => exact hlit.refined rfl rfl
  | reference hn hc =>
    have hc := hc.refined (h.child (by simp [children])) hR
    exact Refined.of_node ⟨⟨t, hn.trans htype, hlegal⟩, trivial, trivial⟩ (checked_single hc.checked) hn rfl
  | dereference hn hc =>
    exact Refined.of_node ⟨⟨t, hn.trans htype, hlegal⟩, trivial, trivial⟩ (checked_single (hR _ _ hc).checked) hn rfl
  | addressOf hn hc =>
    have hc := hc.refined (h.child (by simp [children])) hR
    exact Refined.of_node ⟨⟨t, hn.trans htype, hlegal⟩, trivial, trivial⟩ (checked_single hc.checked) hn rfl
  | new hn hcount hinit =>
    refine Refined.of_node ⟨hf.retyped hn, trivial, trivial⟩ ?_ hn rfl
    exact List.forall_mem_append.mpr ⟨checked_given hR hcount, checked_given hR hinit⟩

end

/-- The optimizer always has a result for a checked tree, and the result can stand for the tree. -/
theorem optimize_folds (h : Checked T e) : Folds U (optimize e) (Refined T e) := by
  induction e using Expr.induct with
  | h e ih =>
  refine Folds.mono (optimize_rewrites h (fun _ _ => id) fun c hc => ih c hc (h.child hc)) fun o ho => ?_
  exact ho.refined h fun _ _ => id

end Check

end Spmd
