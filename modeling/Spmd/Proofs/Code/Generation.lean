import Spmd.Proofs.Optimization.Effects

/-!
# Generation of code cannot fail

For an expression that was checked, and for what the optimizer makes of it, code for the value and for the address can be
emitted after any other code, and the address type and the cost can be told (`typecheck_generates`).
-/

namespace Spmd

namespace Expr

variable {T : Target} {told : Bool} {e : Expr}

/-! ## Costs -/

theorem sumCosts_ok : ∀ {cs : List (Except Fault Nat)}, (∀ c ∈ cs, ∃ n, c = .ok n) → ∃ n, sumCosts cs = .ok n
  | [], _ => ⟨0, rfl⟩
  | c :: cs, h => by
    obtain ⟨n, hn⟩ := h c List.mem_cons_self
    obtain ⟨m, hm⟩ := sumCosts_ok fun d hd => h d (List.mem_cons_of_mem c hd)
    refine ⟨n + m, ?_⟩
    rw [sumCosts, bind_ok hn, bind_ok hm]

theorem sumCosts_singleton (c : Except Fault Nat) : sumCosts [c] = c := by
  cases c <;> rfl

theorem sumCosts_cons {c : Except Fault Nat} {cs : List (Except Fault Nat)} {n : Nat} :
    sumCosts (c :: cs) = .ok n ↔ ∃ a b, c = .ok a ∧ sumCosts cs = .ok b ∧ n = a + b := by
  rw [sumCosts]
  constructor
  · intro h
    obtain ⟨a, ha, h⟩ := bind_eq_ok h
    obtain ⟨b, hb, h⟩ := bind_eq_ok h
    exact ⟨a, b, ha, hb, (Except.ok.inj h).symm⟩
  · rintro ⟨a, b, rfl, hb, rfl⟩
    exact bind_ok hb

theorem sumCosts_append {cs ds : List (Except Fault Nat)} {n : Nat} :
    sumCosts (cs ++ ds) = .ok n ↔ ∃ a b, sumCosts cs = .ok a ∧ sumCosts ds = .ok b ∧ n = a + b := by
  induction cs generalizing n with
  | nil =>
    refine ⟨fun h => ⟨0, n, rfl, h, (Nat.zero_add n).symm⟩, ?_⟩
    rintro ⟨a, b, ⟨⟩, hb, rfl⟩
    rw [Nat.zero_add]
    exact hb
  | cons c cs ih =>
    rw [List.cons_append, sumCosts_cons]
    constructor
    · rintro ⟨a, b, rfl, h, rfl⟩
      obtain ⟨b, d, hb, hd, rfl⟩ := ih.mp h
      exact ⟨a + b, d, sumCosts_cons.mpr ⟨a, b, rfl, hb, rfl⟩, hd, (Nat.add_assoc a b d).symm⟩
    · rintro ⟨a, d, h, hd, rfl⟩
      obtain ⟨a, b, rfl, hb, rfl⟩ := sumCosts_cons.mp h
      exact ⟨a, b + d, rfl, ih.mpr ⟨b, d, hb, hd, rfl⟩, Nat.add_assoc a b d⟩

theorem costs_eq : ∀ es : List Expr, costs es = es.map cost
  | [] => rfl
  | e :: es => by rw [costs, costs_eq es, List.map_cons]

/-- The cost of a tree is what its node costs, and what its children cost. -/
theorem cost_eq (e : Expr) : e.cost = sumCosts (e.ownCost :: e.children.map cost) := by
  cases e with
  | list node es => rw [cost, costs_eq]; rfl
  | call node c args launch count signature =>
    cases count <;> simp [cost, costs_eq, children]
  | new node t count init varying => cases count <;> cases init <;> rw [cost] <;> rfl
  | const | sizeOfType | symbol | function | sync | null => rw [cost]; exact (sumCosts_singleton _).symm
  | _ => rw [cost]; rfl

theorem Checked.ownCost_ok (h : Checked T e) : ∃ n, e.ownCost = .ok n := by
  have typed : ∀ c ∈ e.children, ∃ t, c.type = .ok t := fun c hc => by
    obtain ⟨t, ht, -⟩ := Checked.typed (h.child hc)
    exact ⟨t, type_ok ht⟩
  cases e with
  | call node callee args launch count signature =>
    obtain ⟨t, ht⟩ := typed callee (by simp [children])
    simp only [ownCost, isVaryingCallee, ht]
    cases launch <;> cases callee.isFunctionName <;> exact ⟨_, rfl⟩
  | index node base position =>
    obtain ⟨t, ht⟩ := typed base (by simp [children])
    obtain ⟨u, hu⟩ := typed position (by simp [children])
    simp only [ownCost, ht, hu]
    exact ⟨_, rfl⟩
  | member node base name arrow access =>
    obtain ⟨t, ht⟩ := typed base (by simp [children])
    simp only [ownCost, ht]
    cases arrow <;> exact ⟨_, rfl⟩
  | dereference node c =>
    obtain ⟨t, ht⟩ := typed c (by simp [children])
    simp only [ownCost, ht]
    exact ⟨_, rfl⟩
  | cast node target c reported =>
    obtain ⟨t, ht⟩ := typed c (by simp [children])
    obtain ⟨u, hu, -⟩ := h.typed
    simp only [ownCost, ht, type_ok hu]
    exact ⟨_, rfl⟩
  | _ => exact ⟨_, rfl⟩

theorem Checked.cost_ok (h : Checked T e) : ∃ n, e.cost = .ok n := by
  induction e using Expr.induct with
  | h e ih =>
  rw [cost_eq]
  refine sumCosts_ok fun c hc => ?_
  rcases List.mem_cons.mp hc with rfl | hc
  · exact h.ownCost_ok
  · obtain ⟨d, hd, rfl⟩ := List.mem_map.mp hc
    exact ih d hd (h.child hd)

/-! ## Code -/

/-- Everything that is asked of an expression after it was checked has an answer: the code for its value and for its address
after any other code, the type of that address, which is there exactly when the address is, its cost, and the type that a
dump shows on its line. -/
structure Generates (e : Expr) : Prop where
  value : ∀ c : Code, ∃ v d, e.value.run c = (.ok v, d)
  address : ∃ a, e.addressType = .ok a ∧ ∀ c : Code, ∃ v d, e.address.run c = (.ok v, d) ∧ v.isSome = a.isSome
  cost : ∃ n, e.cost = .ok n
  shown : ∃ t, e.type? = some t

theorem Checked.generates (h : Checked T e) (hr : Everywhere (Ready told) e) : e.Generates := by
  obtain ⟨hvalue, haddress⟩ := performs h hr
  obtain ⟨a, ha⟩ := h.addressType_ok
  refine ⟨fun c => ?_, ⟨a, ha, fun c => ?_⟩, h.cost_ok, h.typed.imp fun _ => And.left⟩
  · obtain ⟨v, new, hrun, -⟩ := hvalue c
    exact ⟨v, _, hrun⟩
  · obtain ⟨v, new, hrun, hfound, -⟩ := haddress c
    exact ⟨v, _, hrun, hfound.trans (hasAddress_of_ok ha)⟩

theorem Checked.generates_everywhere (h : Checked T e) (hr : Everywhere (Ready told) e) : Everywhere Generates e := by
  induction e using Expr.induct with
  | h e ih => exact .node (h.generates hr) fun c hc => ih c hc (h.child hc) (hr.child hc)

end Expr

open Check Spmd.Expr

/-- Code can be generated for every node of what checking gives for an expression of a program, and for every node of what
the optimizer makes of that. -/
theorem typecheck_generates {target : Target} {file : String} {json : Option Json} {p : Program} {e t : Expr} {s s' : Session}
    (hp : Program.read target file json = .ok p) (he : e ∈ p.expressions) (hs : s.target = target)
    (ht : (typecheck e).run s = (.ok (some t), s')) :
    Everywhere Generates t ∧
      ∀ r : Session, ∃ o r', (optimize t).run r = (.ok (some o), r') ∧ Everywhere Generates o := by
  have hc := typecheck_checked hp he hs ht
  have hready : Everywhere (Ready false) t := ready_everywhere hc (typecheck_wellTyped hp he hs ht) nofun
  refine ⟨hc.generates_everywhere hready, fun r => ?_⟩
  obtain ⟨result, new, found, hrun, ⟨o, rfl, ho⟩, -⟩ :=
    optimize_faithful (U := r.target) hc (typecheck_wellTyped hp he hs ht) hready r rfl
  exact ⟨o, _, hrun, ho.checked.generates_everywhere ho.ready⟩

theorem typecheck_generates_sum : Everywhere Generates (sumExpr (.typed none .int32)) ∧
    ∀ r : Session, ∃ o r', (optimize (sumExpr (.typed none .int32))).run r = (.ok (some o), r') ∧ Everywhere Generates o :=
  typecheck_generates sumProgram_read (List.mem_singleton_self _) rfl sumExpr_checks

end Spmd
