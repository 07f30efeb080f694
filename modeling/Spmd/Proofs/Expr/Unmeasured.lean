import Spmd.Proofs.Code.Generation
import Spmd.Proofs.Expr.Outline
import Spmd.Proofs.SideBySide

/-!
# Trees without what `sizeof` measures

`Expr.unmeasured` keeps of the operand of a `sizeof` nothing but its type, so that two trees without their measured operands are
one where they differ in these only. It decides the types of the nodes, what storage they denote, and the cost of a tree but for
that of the operands (`Expr.cost_unmeasured`).
-/

namespace Spmd

namespace Expr

mutual
/-- The tree with a null pointer of the same type in the place of each operand of `sizeof`. -/
def unmeasured : Expr → Expr
  | unary n op e => unary n op e.unmeasured
  | step n s e amount => step n s e.unmeasured amount
  | binary n op l r reported => binary n op l.unmeasured r.unmeasured reported
  | assign n op t v operandType => assign n op t.unmeasured v.unmeasured operandType
  | select n t a b => select n t.unmeasured a.unmeasured b.unmeasured
  | list n es => list n (unmeasuredEach es)
  | call n c args launch count signature =>
    call n c.unmeasured (unmeasuredEach args) launch (unmeasuredOf count) signature
  | index n b i => index n b.unmeasured i.unmeasured
  | member n b name arrow access => member n b.unmeasured name arrow access
  | const n v => const n v
  | cast n t e reported => cast n t e.unmeasured reported
  | reference n e => reference n e.unmeasured
  | dereference n e => dereference n e.unmeasured
  | addressOf n e => addressOf n e.unmeasured
  | sizeOf n e => sizeOf n (null { type := e.type?.map Ty.bare })
  | sizeOfType n t => sizeOfType n t
  | symbol n s => symbol n s
  | function f => function f
  | sync n => sync n
  | null n => null n
  | new n t count init varying => new n t (unmeasuredOf count) (unmeasuredOf init) varying
def unmeasuredEach : List Expr → List Expr
  | [] => []
  | e :: es => e.unmeasured :: unmeasuredEach es
def unmeasuredOf : Option Expr → Option Expr
  | none => none
  | some e => some e.unmeasured
end

mutual
/-- The operands of `sizeof` in a tree. -/
def measured : Expr → List Expr
  | unary _ _ e => e.measured
  | step _ _ e _ => e.measured
  | binary _ _ l r _ => l.measured ++ r.measured
  | assign _ _ t v _ => t.measured ++ v.measured
  | select _ t a b => t.measured ++ (a.measured ++ b.measured)
  | list _ es => measuredEach es
  | call _ c args _ count _ => c.measured ++ (measuredEach args ++ measuredOf count)
  | index _ b i => b.measured ++ i.measured
  | member _ b .. => b.measured
  | cast _ _ e _ => e.measured
  | reference _ e => e.measured
  | dereference _ e => e.measured
  | addressOf _ e => e.measured
  | sizeOf _ e => [e]
  | new _ _ count init _ => measuredOf count ++ measuredOf init
  | const .. | sizeOfType .. | symbol .. | function .. | sync .. | null .. => []
def measuredEach : List Expr → List Expr
  | [] => []
  | e :: es => e.measured ++ measuredEach es
def measuredOf : Option Expr → List Expr
  | none => []
  | some e => e.measured
end

variable {e : Expr}

theorem unmeasuredEach_eq (es : List Expr) : unmeasuredEach es = es.map unmeasured := by
  induction es with
  | nil => rfl
  | cons e es ih => rw [unmeasuredEach, ih, List.map_cons]

theorem unmeasuredOf_eq (o : Option Expr) : unmeasuredOf o = o.map unmeasured := by cases o <;> rfl

theorem measuredEach_eq (es : List Expr) : measuredEach es = es.flatMap measured := by
  induction es with
  | nil => rfl
  | cons e es ih => rw [measuredEach, ih, List.flatMap_cons]

theorem measuredOf_eq (o : Option Expr) : measuredOf o = o.toList.flatMap measured := by
  cases o with
  | none => rfl
  | some e => rw [measuredOf, Option.toList_some, List.flatMap_singleton]

/-! ## Nodes -/

theorem node_unmeasured (e : Expr) : e.unmeasured.node = e.node := by cases e <;> rfl

theorem type_unmeasured (e : Expr) : e.unmeasured.type = e.type := congrArg Node.checked e.node_unmeasured

theorem place_unmeasured (e : Expr) : e.unmeasured.place = e.place := congrArg Node.place e.node_unmeasured

theorem isFunctionName_unmeasured (e : Expr) : e.unmeasured.isFunctionName = e.isFunctionName := by cases e <;> rfl

theorem isVaryingCallee_unmeasured (e : Expr) : e.unmeasured.isVaryingCallee = e.isVaryingCallee := by
  unfold isVaryingCallee
  rw [isFunctionName_unmeasured, type_unmeasured]

theorem constant_unmeasured (e : Expr) : e.unmeasured.constant? = e.constant? := by cases e <;> rfl

theorem isSymbol_unmeasured (e : Expr) : Check.isSymbol e.unmeasured = Check.isSymbol e := by cases e <;> rfl

theorem children_unmeasured (h : ∀ n a, e ≠ sizeOf n a) :
    e.unmeasured.children = e.children.map unmeasured ∧ e.measured = e.children.flatMap measured := by
  cases e with
  | sizeOf n a => exact absurd rfl (h n a)
  | list n es => exact ⟨unmeasuredEach_eq es, measuredEach_eq es⟩
  | call n c args launch count signature =>
    rw [unmeasured, measured, unmeasuredEach_eq, unmeasuredOf_eq, measuredEach_eq, measuredOf_eq]
    cases count <;> simp [children]
  | new n t count init varying =>
    rw [unmeasured, measured, unmeasuredOf_eq, unmeasuredOf_eq, measuredOf_eq, measuredOf_eq]
    cases count <;> cases init <;> simp [children]
  | _ => simp [unmeasured, measured, children]

/-! ## Addresses -/

theorem storageVariability_alike {x y : Except Fault (Option Ty)} (h : Alike Eq x y) (t : Except Fault Ty) :
    Alike Eq (storageVariability x t) (storageVariability y t) :=
  h.bind fun _ _ hc => hc ▸ Alike.refl _

theorem addressType_unmeasured (e : Expr) : Alike Eq e.addressType e.unmeasured.addressType := by
  induction e using Expr.induct with
  | h e ih =>
  have storage : ∀ b ∈ e.children, Alike Eq (storageVariability b.addressType b.type)
      (storageVariability b.unmeasured.addressType b.unmeasured.type) := by
    intro b hb
    rw [type_unmeasured]
    exact storageVariability_alike (ih b hb) _
  cases e with
  | index n base position =>
    have hstorage := (storage base (by simp [children])).map (f := Option.isSome) (g := Option.isSome) fun _ _ h => congrArg _ h
    rw [unmeasured, addressType, addressType, type_unmeasured, type_unmeasured]
    rw [type_unmeasured] at hstorage
    refine Alike.bind (Alike.refl _) fun t _ ht => ?_
    subst ht
    unfold elementAddressType
    split
    · exact Alike.refl _
    · exact hstorage.bind fun _ _ hb => hb ▸ Alike.refl _
    · exact hstorage.bind fun _ _ hb => hb ▸ Alike.refl _
    · exact Alike.refl _
  | member n base name arrow access =>
    have hstorage := storage base (by simp [children])
    cases access with
    | none => exact .failed _ _
    | some x =>
      rw [unmeasured]
      simp only [addressType]
      split
      · exact Alike.refl _
      · cases arrow with
        | true =>
          simp only [if_true, type_unmeasured]
          exact Alike.refl _
        | false => exact hstorage.bind fun _ _ hb => hb ▸ Alike.refl _
  | reference n c => exact ih c (by simp [children])
  | dereference n c =>
    rw [unmeasured, addressType, addressType, type_unmeasured]
    exact Alike.refl _
  | _ => exact Alike.refl _

/-! ## Costs -/

theorem ownCost_unmeasured (e : Expr) : e.unmeasured.ownCost = e.ownCost := by
  cases e with
  | call n c args launch count signature =>
    rw [unmeasured]
    simp only [ownCost, isFunctionName_unmeasured, isVaryingCallee_unmeasured]
  | index n b i =>
    rw [unmeasured]
    simp only [ownCost, type_unmeasured]
  | member n b name arrow access =>
    rw [unmeasured]
    simp only [ownCost, type_unmeasured]
  | dereference n c =>
    rw [unmeasured]
    simp only [ownCost, type_unmeasured]
  | cast n t c reported =>
    rw [unmeasured]
    simp only [ownCost, type_unmeasured]
    rfl
  | _ => rfl

/-- The cost of a tree is that of the unmeasured tree and that of the operands of `sizeof`. -/
def SplitsCost (e : Expr) : Prop := ∀ c, e.cost = .ok c ↔
  ∃ k n, e.unmeasured.cost = .ok k ∧ sumCosts (e.measured.map cost) = .ok n ∧ c = k + n

theorem sumCosts_splits {es : List Expr} (h : ∀ e ∈ es, e.SplitsCost) (c : Nat) : sumCosts (es.map cost) = .ok c ↔
    ∃ k n, sumCosts ((es.map unmeasured).map cost) = .ok k ∧ sumCosts ((es.flatMap measured).map cost) = .ok n ∧ c = k + n := by
  induction es generalizing c with
  | nil =>
    refine ⟨fun h => ⟨0, 0, rfl, rfl, (Except.ok.inj h).symm⟩, ?_⟩
    rintro ⟨k, n, ⟨⟩, ⟨⟩, rfl⟩
    rfl
  | cons e es ih =>
    have hfirst := h e List.mem_cons_self
    have hrest := ih fun d hd => h d (List.mem_cons_of_mem e hd)
    simp only [List.map_cons, List.flatMap_cons, List.map_append, sumCosts_cons, sumCosts_append]
    constructor
    · rintro ⟨a, b, ha, hb, rfl⟩
      obtain ⟨k, n, hk, hn, rfl⟩ := (hfirst a).mp ha
      obtain ⟨k', n', hk', hn', rfl⟩ := (hrest b).mp hb
      exact ⟨k + k', n + n', ⟨k, k', hk, hk', rfl⟩, ⟨n, n', hn, hn', rfl⟩, Nat.add_add_add_comm k n k' n'⟩
    · rintro ⟨-, -, ⟨k, k', hk, hk', rfl⟩, ⟨n, n', hn, hn', rfl⟩, rfl⟩
      exact ⟨k + n, k' + n', (hfirst _).mpr ⟨k, n, hk, hn, rfl⟩, (hrest _).mpr ⟨k', n', hk', hn', rfl⟩,
        (Nat.add_add_add_comm k n k' n').symm⟩

theorem cost_unmeasured (e : Expr) : e.SplitsCost := by
  induction e using Expr.induct with
  | h e ih =>
  intro c
  by_cases hsize : ∃ m a, e = sizeOf m a
  · obtain ⟨m, a, rfl⟩ := hsize
    have hzero : (sizeOf m a).unmeasured.cost = .ok 0 := rfl
    have hcost : (sizeOf m a).cost = .ok c ↔ a.cost = .ok c := by
      rw [cost, sumCosts_cons, sumCosts_singleton]
      refine ⟨?_, fun h => ⟨0, c, rfl, h, (Nat.zero_add c).symm⟩⟩
      rintro ⟨-, b, ⟨⟩, hb, rfl⟩
      rwa [Nat.zero_add]
    rw [hcost, hzero, measured, List.map_singleton, sumCosts_singleton]
    refine ⟨fun h => ⟨0, c, rfl, h, (Nat.zero_add c).symm⟩, ?_⟩
    rintro ⟨k, n, ⟨⟩, hn, rfl⟩
    rwa [Nat.zero_add]
  · obtain ⟨hchildren, hmeasured⟩ := children_unmeasured (e := e) fun m a h => hsize ⟨m, a, h⟩
    rw [cost_eq, cost_eq e.unmeasured, ownCost_unmeasured, hchildren, hmeasured]
    simp only [sumCosts_cons, sumCosts_splits ih]
    constructor
    · rintro ⟨a, b, ha, ⟨k, n, hk, hn, rfl⟩, rfl⟩
      exact ⟨a + k, n, ⟨a, k, ha, hk, rfl⟩, hn, (Nat.add_assoc a k n).symm⟩
    · rintro ⟨-, n, ⟨a, k, ha, hk, rfl⟩, hn, rfl⟩
      exact ⟨a, k + n, ha, ⟨k, n, hk, hn, rfl⟩, Nat.add_assoc a k n⟩

end Expr

end Spmd
