import Spmd.Proofs.Expr.Formed

/-!
# Trees that stand for checked trees

A checked tree can stand for another of the same type up to top-level `const` (`Expr.Refined`): a node around such children is
formed as the node that it stands for.
-/

namespace Spmd

namespace Expr

variable {T : Target} {e e' : Expr} {t : Ty}

def isList : Expr → Bool
  | list .. => true
  | _ => false

/-! ## Refinement -/

/-- A checked tree that can stand for another: it has the same type up to `const`, and stands for a list only as a list
of the same length. -/
structure Refined (T : Target) (e e' : Expr) : Prop where
  checked : Checked T e'
  typed : ∃ t, e.type? = some t
  alike : ∀ t, e.type? = some t → e'.HasType t
  list : ∀ n es, e = .list n es → ∃ n' es', e' = .list n' es' ∧ es'.length = es.length

theorem Refined.refl (h : Checked T e) : Refined T e e :=
  ⟨h, h.typed.imp fun _ => And.left, fun _ => hasType_of_type, fun n es he => ⟨n, es, he, rfl⟩⟩

theorem Refined.type (h : Refined T e e') (ht : e.type? = some t) : ∃ t', e'.type? = some t' ∧ t'.core = t.core :=
  hasType_iff.mp (h.alike t ht)

theorem Refined.hasType (h : Refined T e e') (ht : e.HasType t) : e'.HasType t := by
  obtain ⟨u, hu, hcore⟩ := hasType_iff.mp ht
  exact (h.alike u hu).congr hcore

theorem Refined.fits (h : Refined T e e') (ht : e.Fits t) : e'.Fits t := by
  by_cases hl : ∃ n es, e = .list n es
  · obtain ⟨n, es, rfl⟩ := hl
    obtain ⟨n', es', rfl, hlen⟩ := h.list n es rfl
    have htype := h.hasType ht
    unfold Fits
    unfold filling at htype ⊢
    cases t with
    | array el m o => cases m <;> simpa [hlen] using htype
    | _ => exact htype
  · rw [Fits, filling_not_list (fun n es he => hl ⟨n, es, he⟩)] at ht
    exact (h.hasType ht).fits_of_checked h.checked

theorem Refined.of_node (hf : Formed T e') (hc : ∀ c ∈ e'.children, Checked T c) (ht : e'.type? = e.type?)
    (hl : e.isList = false) : Refined T e e' :=
  ⟨.node hf hc, hf.typed.imp fun _ hu => ht.symm.trans hu.1, fun _ hu => hasType_of_type (ht.trans hu),
    fun n es he => by rw [he] at hl; cases hl⟩

theorem Refined.of_hasType (hc : Checked T e') (ht : e.type? = some t) (h : e'.HasType t) (hl : e.isList = false) :
    Refined T e e' :=
  ⟨hc, ⟨t, ht⟩, fun u hu => h.congr (by rw [ht] at hu; cases hu; rfl), fun n es he => by rw [he] at hl; cases hl⟩

theorem checked_single {c : Expr} (hc : Checked T c) : ∀ d ∈ [c], Checked T d := List.forall_mem_singleton.mpr hc

theorem checked_pair {b c : Expr} (hb : Checked T b) (hc : Checked T c) : ∀ d ∈ [b, c], Checked T d :=
  List.forall_mem_cons.mpr ⟨hb, checked_single hc⟩

theorem fits_of_refined {es es' : List Expr} (h : List.Forall₂ (Refined T) es es') :
    ∀ {ts : List Ty}, List.Forall₂ Fits es ts → List.Forall₂ Fits es' ts := by
  induction h with
  | nil => intro ts hts; cases hts; exact .nil
  | cons hr _ ih =>
    intro ts hts
    cases hts with
    | cons hf hfs => exact .cons (hr.fits hf) (ih hfs)

theorem checked_of_refined {es es' : List Expr} (h : List.Forall₂ (Refined T) es es') : ∀ e ∈ es', Checked T e := by
  induction h with
  | nil => exact fun _ he => by cases he
  | cons hr _ ih =>
    intro c hc
    rcases List.mem_cons.mp hc with rfl | hc
    · exact hr.checked
    · exact ih c hc

/-! ## Nodes around refined children -/

theorem Formed.retyped (hf : Formed T e) (h : e'.type? = e.type?) : ∃ t, e'.type? = some t ∧ t.Legal :=
  h ▸ hf.typed

section
variable {n n' : Node} (hn : n'.type = n.type)
include hn

theorem Formed.unary {op : ValueOp} (hf : (Expr.unary n op e).Formed T) (h : Refined T e e') :
    (Expr.unary n' op e').Formed T := by
  obtain ⟨t, u, ht, hu, hcore⟩ := hf.grounded
  obtain ⟨u', hu', hcu⟩ := h.type hu
  refine ⟨hf.retyped hn, trivial, t, u', hn.trans ht, hu', hcore.trans (Ty.stored_core_eq hcu).symm⟩

theorem Formed.binary {op : BinaryOp} {l r l' r' : Expr} {reported reported' : Bool}
    (hf : (Expr.binary n op l r reported).Formed T) (hl : Refined T l l') (hr : Refined T r r') :
    (Expr.binary n' op l' r' reported').Formed T := by
  have htyped : ∃ t, (Expr.binary n' op l' r' reported').type? = some t ∧ t.Legal := hf.retyped hn
  cases op with
  | arith op =>
    obtain ⟨t, a, b, ht, ha, hb, har⟩ := hf.coherent
    obtain ⟨a', ha', hca⟩ := hl.type ha
    obtain ⟨b', hb', hcb⟩ := hr.type hb
    exact ⟨htyped, ⟨t, a', b', hn.trans ht, ha', hb', har.congr hca hcb⟩, trivial⟩
  | compare op =>
    obtain ⟨t, ht, hlt, hrt⟩ := hf.coherent
    exact ⟨htyped, ⟨t, hn.trans ht, hl.hasType hlt, hr.hasType hrt⟩, trivial⟩
  | logic op =>
    obtain ⟨v, w, ht, hlt, hrt⟩ := hf.grounded
    exact ⟨htyped, trivial, v, w, hn.trans ht, hl.hasType hlt, hr.hasType hrt⟩
  | comma =>
    obtain ⟨t, u, ht, hu, hcore⟩ := hf.grounded
    obtain ⟨u', hu', hcu⟩ := hr.type hu
    exact ⟨htyped, trivial, t, u', hn.trans ht, hu', hcore.trans (Ty.stored_core_eq hcu).symm⟩

theorem Formed.assign {op : AssignOp} {target value target' value' : Expr} {operandType : Option Ty}
    (hf : (Expr.assign n op target value operandType).Formed T) (ht : Refined T target target')
    (hv : Refined T value value') : (Expr.assign n' op target' value' operandType).Formed T := by
  refine ⟨hf.retyped hn, ?_, trivial⟩
  cases op with
  | plain =>
    obtain ⟨t, htype, hval⟩ := hf.coherent
    obtain ⟨t', ht', hcore⟩ := ht.type htype
    exact ⟨t', ht', (hv.hasType hval).congr (Ty.stored_core_eq hcore).symm⟩
  | compound op =>
    obtain ⟨t, o, htype, ho, hval⟩ := hf.coherent
    obtain ⟨t', ht', hcore⟩ := ht.type htype
    refine ⟨t', o, ht', ho, ?_⟩
    rw [Ty.isPointer_eq (Ty.stored_core_eq hcore), Ty.variability_eq (Ty.stored_core_eq hcore)]
    exact hv.hasType hval

theorem Formed.select {test a b test' a' b' : Expr} (hf : (Expr.select n test a b).Formed T)
    (ht : Refined T test test') (ha : Refined T a a') (hb : Refined T b b') :
    (Expr.select n' test' a' b').Formed T := by
  obtain ⟨t, v, htype, htest, hat, hbt⟩ := hf.coherent
  obtain ⟨u, w, hu, hw, hvarying⟩ := hf.grounded
  obtain ⟨w', hw', hcore⟩ := ht.type hw
  refine ⟨hf.retyped hn, ⟨t, v, hn.trans htype, ht.hasType htest, ha.hasType hat, hb.hasType hbt⟩,
    u, w', hn.trans hu, hw', fun s hs hv => hvarying s hs ?_⟩
  rw [← Ty.isVarying_eq hcore]
  exact hv

theorem Formed.call {callee callee' : Expr} {args args' : List Expr} {launch : Bool} {count count' : Option Expr}
    {signature : Option Signature} (hf : (Expr.call n callee args launch count signature).Formed T)
    (hcallee : Refined T callee callee') (hargs : List.Forall₂ (Refined T) args args')
    (hcount : ∀ c', count' = some c' → ∃ c, count = some c ∧ Refined T c c') :
    (Expr.call n' callee' args' launch count' signature).Formed T := by
  obtain ⟨s, t, hs, ht, hcalled, hfits, hc⟩ := hf.coherent
  obtain ⟨t', ht', hcore⟩ := hcallee.type ht
  have hcalled' : t'.stored.called.sameIgnoringConst s.type = true := by
    rw [Ty.sameIgnoringConst_iff] at hcalled ⊢
    exact (Ty.called_core_eq (Ty.stored_core_eq hcore)).trans hcalled
  refine ⟨hf.retyped hn, ⟨s, t', hs, ht', hcalled', fits_of_refined hargs hfits, fun c' hc' => ?_⟩, trivial⟩
  obtain ⟨c, h, href⟩ := hcount c' hc'
  exact href.hasType (hc c h)

theorem Formed.index {base position base' position' : Expr} (hf : (Expr.index n base position).Formed T)
    (hp : Refined T position position') : (Expr.index n' base' position').Formed T := by
  obtain ⟨v, hv⟩ := hf.coherent
  exact ⟨hf.retyped hn, ⟨v, hp.hasType hv⟩, trivial⟩

theorem Formed.cast {target : Ty} {reported reported' : Bool} (hf : (Expr.cast n target e reported).Formed T)
    (h : Refined T e e') : (Expr.cast n' target e' reported').Formed T := by
  obtain ⟨ht, hvoid, hvarying⟩ := hf.grounded
  obtain ⟨u, hu⟩ := h.typed
  refine ⟨hf.retyped hn, trivial, hn.trans ht, fun hv u' hu' => ?_, fun s' t hs' htt hv => ?_⟩
  · rw [Ty.isVoid_eq ((h.alike u hu).core_eq hu')]
    exact hvoid hv u hu
  · obtain ⟨s, rfl, -, hvar⟩ := Ty.scalar_of_core ((h.alike u hu).core_eq hs').symm
    exact hvarying s t hu htt (hvar.trans hv)

end

end Expr

end Spmd
