import Spmd.Proofs.Optimization.Program
import Spmd.Proofs.Session.Quiet
import Spmd.Proofs.Session.Result

/-!
# Optimizing again

What the optimizer makes of a checked tree is stable: optimizing it once more gives the same tree and reports nothing, not
even the folds that failed before (`Check.optimize_stable`).
-/

namespace Spmd

theorem Node.renewed_eq {n m : Node} (h : n.renewed = .ok m) : ∃ t, n.type = some t ∧ m = .typed n.place t := by
  obtain ⟨t, ht, hm⟩ := bind_eq_ok h
  cases hm
  unfold checked at ht
  split at ht <;> cases ht
  exact ⟨t, ‹_›, rfl⟩

namespace Check

open Spmd.Expr

variable {T U : Target} {α β : Type} {node m : Node} {e c l r : Expr} {reported : Bool}

/-! ## Silent passes -/

/-- A pass that neither reads nor changes its session. -/
def Silent (pass : Check α) : Prop := ∃ x : Except Fault α, pass = liftM x

theorem Silent.pure (a : α) : Silent (pure a) := ⟨.ok a, rfl⟩

theorem Silent.read {x : Except Fault β} {k : β → Check α} (hk : ∀ b, Silent (k b)) :
    Silent ((liftM x : Check β) >>= k) := by
  cases x with
  | error f => exact ⟨.error f, rfl⟩
  | ok b => rw [lift_ok, pure_bind]; exact hk b

theorem Silent.quiet {pass : Check α} (h : Silent pass) {s s' : Session} {a : α} (ha : pass.run s = (.ok a, s')) :
    Quiet T pass (· = a) := by
  obtain ⟨x, rfl⟩ := h
  rw [run_lift] at ha
  cases ha
  exact Quiet.pure rfl

/-! ## Renewed nodes -/

section
variable (h : node.renewed = .ok m)
include h

theorem renewed_again : m.renewed = .ok m := by
  obtain ⟨t, -, rfl⟩ := Node.renewed_eq h
  rfl

theorem checked_renewed : m.checked = node.checked := by
  obtain ⟨t, ht, rfl⟩ := Node.renewed_eq h
  exact (Node.checked_ok ht).symm

theorem folded_renewed (v : Constant) : folded m v = folded node v := by
  unfold folded
  rw [checked_renewed h]
  obtain ⟨t, -, rfl⟩ := Node.renewed_eq h
  rfl

theorem optimizeUnary_renewed (op : ValueOp) : optimizeUnary m op c = optimizeUnary node op c := by
  unfold optimizeUnary
  simp only [renewed_again h, folded_renewed h, h]

theorem optimizeComma_renewed : optimizeComma m l r reported = optimizeComma node l r reported := by
  unfold optimizeComma
  simp only [renewed_again h, h]

theorem optimizeSelect_renewed : optimizeSelect m c l r = optimizeSelect node c l r := by
  unfold optimizeSelect foldLanes
  simp only [renewed_again h, folded_renewed h, h]

end

/-! ## Stable trees -/

/-- Optimizing the tree gives the tree itself, without a message. -/
def Stable (e : Expr) : Prop := ∀ T, Quiet T (optimize e) (· = some e)

/-- An operand that is left alone as long as it is a symbol. -/
def StableKept (e : Expr) : Prop := isSymbol e = false → Stable e

theorem stable_of_constant (h : e.constant?.isSome = true) : Stable e := by
  cases e with
  | const node v => exact fun _ => Quiet.pure rfl
  | _ => cases h

theorem folded_isConstant {v : Constant} (h : folded node v = .ok e) : e.constant?.isSome = true := by
  obtain ⟨t, -, h⟩ := bind_eq_ok h
  obtain ⟨k, -, h⟩ := bind_eq_ok h
  cases h
  rfl

theorem Silent.stable {pass : Check (Option Expr)} {Q : Expr → Prop} (hs : Silent pass)
    (hcases : Yields U pass fun o => Stable o ∨ Q o) (hagain : ∀ o, Q o → (∀ T, Quiet T pass (· = some o)) → Stable o) :
    Yields U pass Stable := by
  intro s hst o s' ho
  obtain ⟨hcases, hst'⟩ := hcases s hst o s' ho
  refine ⟨fun e he => ?_, hst'⟩
  rcases hcases e he with hstable | hq
  · exact hstable
  · exact hagain e hq fun T => he ▸ hs.quiet ho

/-! ## Operators -/

theorem optimizeUnary_silent (op : ValueOp) : Silent (optimizeUnary node op c) := by
  unfold optimizeUnary
  refine Silent.read fun renewed => ?_
  split
  · exact Silent.pure _
  · split
    · exact Silent.pure _
    · refine Silent.read fun f => ?_
      split
      · exact Silent.read fun _ => Silent.pure _
      · exact Silent.pure _

theorem optimizeUnary_yields (op : ValueOp) : Yields U (optimizeUnary node op c) fun o =>
    Stable o ∨ ∃ m, node.renewed = .ok m ∧ o = .unary m op c := by
  unfold optimizeUnary
  refine Gives.lift fun m hm => ?_
  split
  · exact Yields.some (.inr ⟨m, hm, rfl⟩)
  · split
    · exact Yields.some (.inr ⟨m, hm, rfl⟩)
    · refine Gives.lift fun f _ => ?_
      split
      · exact Gives.lift fun o ho => Yields.some (.inl (stable_of_constant (folded_isConstant ho)))
      · exact Yields.some (.inr ⟨m, hm, rfl⟩)

theorem optimizeUnary_stable (op : ValueOp) (hc : Stable c) : Yields U (optimizeUnary node op c) Stable := by
  refine (optimizeUnary_silent op).stable (optimizeUnary_yields op) fun o ⟨m, hm, ho⟩ hquiet T => ?_
  subst ho
  rw [optimize]
  refine Quiet.then (hc T) ?_
  dsimp only
  rw [optimizeUnary_renewed hm]
  exact hquiet T

section
variable (hl : Stable l) (hr : Stable r)
include hl hr

theorem optimizeComma_stable : Yields U (optimizeComma node l r reported) Stable := by
  have hsilent : Silent (optimizeComma node l r reported) := by
    unfold optimizeComma
    split
    · exact Silent.read fun _ => Silent.pure _
    · refine Silent.read fun t => ?_
      split <;> exact Silent.pure _
  refine hsilent.stable (Q := fun o => ∃ m, node.renewed = .ok m ∧ o = .binary m .comma l r reported) ?_
    fun o ⟨m, hm, ho⟩ hquiet T => ?_
  · unfold optimizeComma
    split
    · exact Gives.lift fun m hm => Yields.some (.inr ⟨m, hm, rfl⟩)
    · refine Gives.lift fun t _ => ?_
      split
      · refine Yields.some (.inl fun T => ?_)
        rw [optimize]
        exact Quiet.then (hr T) (Quiet.read rfl (Quiet.pure rfl))
      · exact Yields.some (.inl hr)
  · subst ho
    rw [optimize]
    refine Quiet.then (hl T) (Quiet.then (hr T) ?_)
    dsimp only
    unfold optimizeBinary
    rw [if_pos rfl, optimizeComma_renewed hm]
    exact hquiet T

theorem stable_binary {op : BinaryOp} (h : ∀ T, Quiet T (optimizeBinary node op l r reported (hasPointer l r))
    (· = some (.binary node op l r reported))) : Stable (.binary node op l r reported) := by
  intro T
  rw [optimize]
  exact Quiet.then (hl T) (Quiet.then (hr T) (h T))

/-- A fold that failed fails again, and is not reported again. -/
theorem optimizeBinary_stable (op : BinaryOp) :
    Yields U (optimizeBinary node op l r reported (hasPointer l r)) Stable := by
  by_cases hop : op = .comma
  · subst hop
    unfold optimizeBinary
    rw [if_pos rfl]
    exact optimizeComma_stable hl hr
  unfold optimizeBinary
  rw [if_neg hop]
  split
  · rename_i a b ha hb
    refine Gives.lift fun p hp => Gives.lift fun m hm => ?_
    -- operands that are constants and were not folded go the same way again
    have again : ∀ {reported : Bool}, (∀ T, Quiet T (if p || !m.type.any isFoldable then
        pure (some (Expr.binary m op l r reported)) else foldConstants m op l r a b reported)
          (· = some (.binary m op l r reported))) → Stable (.binary m op l r reported) := by
      intro reported h
      refine stable_binary hl hr fun T => ?_
      unfold optimizeBinary
      rw [if_neg hop, ha, hb]
      exact Quiet.read hp (Quiet.read (renewed_again hm) (h T))
    split
    · rename_i hcond
      refine Yields.some (again fun T => ?_)
      rw [if_pos hcond]
      exact Quiet.pure rfl
    · rename_i hcond
      have folds : ∀ {reported : Bool}, (∀ T, Quiet T (foldConstants m op l r a b reported)
          (· = some (.binary m op l r reported))) → Stable (.binary m op l r reported) := fun h =>
        again fun T => by rw [if_neg hcond]; exact h T
      unfold foldConstants
      refine Gives.lift fun m' hm' => Gives.lift fun f hf => ?_
      obtain rfl : m = m' := Except.ok.inj (hm.symm.trans hm')
      cases f with
      | value v => exact Gives.lift fun e he => Yields.some (stable_of_constant (folded_isConstant he))
      | problem cause =>
        refine Gives.bind (Meets.gives (reportFold_meets cause reported)) fun _ _ => Yields.some (folds fun T => ?_)
        unfold foldConstants
        exact Quiet.read (renewed_again hm) (Quiet.read hf (Quiet.pure rfl))
      | unfoldable =>
        refine Yields.some (folds fun T => ?_)
        unfold foldConstants
        exact Quiet.read (renewed_again hm) (Quiet.read hf (Quiet.pure rfl))
  · rename_i hconst
    refine Gives.lift fun m hm => Yields.some (stable_binary hl hr fun T => ?_)
    unfold optimizeBinary
    rw [if_neg hop]
    split
    · rename_i a b ha hb
      exact absurd hb (hconst a b ha)
    · exact Quiet.read (renewed_again hm) (Quiet.pure rfl)

end

/-! ## Selections, casts and symbols -/

theorem foldLanes_isConstant {c : Constant} {o : Expr} (h : foldLanes node c l r = .ok (some o)) :
    o.constant?.isSome = true := by
  obtain ⟨m, -, h⟩ := bind_eq_ok h
  split at h
  · split at h
    · cases h
    · obtain ⟨f, -, h⟩ := bind_eq_ok h
      split at h
      · obtain ⟨x, hx, h⟩ := bind_eq_ok h
        cases h
        exact folded_isConstant hx
      · cases h
  · cases h

theorem optimizeSelect_cases {o : Expr} (h : optimizeSelect node c l r = .ok (some o)) :
    o.constant?.isSome = true ∨ o = l ∨ o = r ∨ ∃ m, node.renewed = .ok m ∧ o = .select m c l r := by
  unfold optimizeSelect at h
  split at h
  · obtain ⟨m, hm, h⟩ := bind_eq_ok h
    cases h
    exact .inr (.inr (.inr ⟨m, hm, rfl⟩))
  · obtain ⟨v, -, h⟩ := bind_eq_ok h
    split at h
    · cases h
      exact .inr (.inl rfl)
    · cases h
      exact .inr (.inr (.inl rfl))
    · obtain ⟨x, hx, h⟩ := bind_eq_ok h
      split at h
      · cases h
        exact .inl (foldLanes_isConstant hx)
      · obtain ⟨m, hm, h⟩ := bind_eq_ok h
        cases h
        exact .inr (.inr (.inr ⟨m, hm, rfl⟩))

theorem optimizeSelect_stable (hc : Stable c) (hl : Stable l) (hr : Stable r) :
    Yields U (liftM (optimizeSelect node c l r)) Stable := by
  refine Silent.stable (Q := fun o => ∃ m, node.renewed = .ok m ∧ o = .select m c l r) ⟨_, rfl⟩ ?_
    fun o ⟨m, hm, ho⟩ hquiet T => ?_
  · refine Yields.lift fun o ho => ?_
    rcases optimizeSelect_cases ho with hconst | rfl | rfl | hrebuilt
    · exact .inl (stable_of_constant hconst)
    · exact .inl hl
    · exact .inl hr
    · exact .inr hrebuilt
  · subst ho
    rw [optimize]
    refine Quiet.then (hc T) (Quiet.then (hl T) (Quiet.then (hr T) ?_))
    dsimp only
    rw [optimizeSelect_renewed hm]
    exact hquiet T

theorem stable_cast {target : Ty} (hc : Stable c) (h : ∀ T, Quiet T (optimizeCast node target c reported)
    (· = some (.cast node target c reported))) : Stable (.cast node target c reported) := by
  intro T
  rw [optimize]
  exact Quiet.then (hc T) (h T)

theorem optimizeCast_stable (target : Ty) (hc : Stable c) :
    Yields U (optimizeCast node target c reported) Stable := by
  unfold optimizeCast
  refine Gives.lift fun m hm => Gives.lift fun t ht => Gives.lift fun u hu => ?_
  have hagain := renewed_again hm
  have ht' := (checked_renewed hm).trans ht
  split
  · exact Yields.some hc
  · rename_i hsame
    split
    · rename_i v hv
      -- a cast of a constant that was not folded goes the same way again
      have again : ∀ {reported : Bool}, (∀ T, Quiet T (if isFoldable t then foldCasted m target t c v reported else
          pure (some (Expr.cast m target c reported))) (· = some (.cast m target c reported))) →
            Stable (.cast m target c reported) := by
        intro reported h
        refine stable_cast hc fun T => ?_
        unfold optimizeCast
        refine Quiet.read hagain (Quiet.read ht' (Quiet.read hu ?_))
        rw [if_neg hsame, hv]
        exact h T
      split
      · rename_i hfoldable
        have folds : ∀ {reported : Bool}, (∀ T, Quiet T (foldCasted m target t c v reported)
            (· = some (.cast m target c reported))) → Stable (.cast m target c reported) := fun h =>
          again fun T => by rw [if_pos hfoldable]; exact h T
        unfold foldCasted
        refine Gives.lift fun m' hm' => Gives.lift fun k hk => ?_
        obtain rfl : m = m' := Except.ok.inj (hm.symm.trans hm')
        cases hf : foldCast v k t.isVarying with
        | value w => exact Gives.lift fun e he => Yields.some (stable_of_constant (folded_isConstant he))
        | problem cause =>
          refine Gives.bind (Meets.gives (reportFold_meets cause reported)) fun _ _ => Yields.some (folds fun T => ?_)
          unfold foldCasted
          refine Quiet.read hagain (Quiet.read hk ?_)
          rw [hf]
          exact Quiet.pure rfl
        | unfoldable =>
          refine Yields.some (folds fun T => ?_)
          unfold foldCasted
          refine Quiet.read hagain (Quiet.read hk ?_)
          rw [hf]
          exact Quiet.pure rfl
      · rename_i hfoldable
        refine Yields.some (again fun T => ?_)
        rw [if_neg hfoldable]
        exact Quiet.pure rfl
    · rename_i hv
      refine Yields.some (stable_cast hc fun T => ?_)
      unfold optimizeCast
      refine Quiet.read hagain (Quiet.read ht' (Quiet.read hu ?_))
      rw [if_neg hsame, hv]
      exact Quiet.pure rfl

theorem optimizeSymbol_stable (s : Symbol) : Yields U (liftM (optimizeSymbol node s)) Stable := by
  refine Silent.stable (Q := fun o => o = .symbol node s) ⟨_, rfl⟩ (Yields.lift fun o ho => ?_) fun o ho hquiet T => ?_
  · unfold optimizeSymbol at ho
    obtain ⟨t, -, ho⟩ := bind_eq_ok ho
    split at ho
    · split at ho
      · obtain ⟨k, -, ho⟩ := bind_eq_ok ho
        cases ho
        exact .inl (stable_of_constant rfl)
      · cases ho
        exact .inr rfl
    · cases ho
      exact .inr rfl
  · subst ho
    rw [optimize]
    exact hquiet T

/-! ## Rebuilt nodes -/

theorem rebuild_stable {make : Node → Expr → Expr} (h : ∀ m, m.renewed = .ok m → Stable (make m c)) :
    Yields U (rebuild node make (some c)) Stable :=
  Gives.lift fun m hm => Yields.some (h m (renewed_again hm))

theorem rebuild_quiet {make : Node → Expr → Expr} (hn : node.renewed = .ok node) :
    Quiet T (rebuild node make (some c)) (· = some (make node c)) :=
  Quiet.read hn (Quiet.pure rfl)

theorem rebuildBoth_stable {make : Node → Expr → Expr → Expr} (h : ∀ m, m.renewed = .ok m → Stable (make m l r)) :
    Yields U (rebuildBoth node make (some l) (some r)) Stable :=
  Gives.lift fun m hm => Yields.some (h m (renewed_again hm))

theorem rebuildBoth_quiet {make : Node → Expr → Expr → Expr} (hn : node.renewed = .ok node) :
    Quiet T (rebuildBoth node make (some l) (some r)) (· = some (make node l r)) :=
  Quiet.read hn (Quiet.pure rfl)

theorem Folds.bind_yields {m : Check (Option α)} {k : Option α → Check (Option β)} {P Q : α → Prop} {R : β → Prop}
    (hf : Folds U m P) (h : Yields U m Q) (hk : ∀ a, P a → Q a → Yields U (k (Option.some a)) R) :
    Yields U (m >>= k) R := by
  refine Gives.bind (Gives.and (Meets.gives hf) h) fun o ⟨⟨_, ⟨a, ha, hp⟩, _⟩, hq⟩ => ?_
  subst ha
  exact hk a hp (hq a rfl)

theorem kept_yields {P : Expr → Prop} {k : Option Expr → Check (Option Expr)}
    (h : (∀ c', Stable c' → Yields U (k (some c')) P) → Yields U (optimize c >>= k) P)
    (hk : ∀ c', StableKept c' → Yields U (k (some c')) P) :
    Yields U (if isSymbol c = true then pure (some c) >>= k else optimize c >>= k) P := by
  split
  · rename_i hs
    exact hk c fun hn => by rw [hs] at hn; cases hn
  · exact h fun c' hc' => hk c' fun _ => hc'

theorem kept_quiet {P : Option Expr → Prop} {k : Option Expr → Check (Option Expr)} (h : StableKept c)
    (hk : Quiet T (k (some c)) P) :
    Quiet T (if isSymbol c = true then pure (some c) >>= k else optimize c >>= k) P := by
  split
  · exact hk
  · rename_i hs
    exact Quiet.then (h (Bool.eq_false_iff.mpr hs) T) hk

theorem optimizeAll_stable : ∀ {es : List Expr}, (∀ e ∈ es, Yields U (optimize e) Stable) →
    Yields U (optimizeAll es) fun os => ∀ o ∈ os, Stable o
  | [], _ => Yields.some nofun
  | e :: es, h => by
    rw [optimizeAll]
    refine Yields.both (h e List.mem_cons_self) (optimizeAll_stable fun c hc => h c (List.mem_cons_of_mem _ hc))
      (fun o os ho hos => Yields.some fun c hc => ?_) (fun _ => Yields.none) (fun _ => Yields.none)
    rcases List.mem_cons.mp hc with rfl | hc
    · exact ho
    · exact hos c hc

theorem optimizeAll_quiet : ∀ {es : List Expr}, (∀ e ∈ es, Stable e) → Quiet T (optimizeAll es) (· = some es)
  | [], _ => Quiet.pure rfl
  | e :: es, h => by
    rw [optimizeAll]
    refine Quiet.then (h e List.mem_cons_self T) ?_
    exact Quiet.then (optimizeAll_quiet fun c hc => h c (List.mem_cons_of_mem _ hc)) (Quiet.pure rfl)

theorem optimizeGiven_quiet {o : Option Expr} (h : ∀ e, o = some e → Stable e) : Quiet T (optimizeGiven o) (· = some o) := by
  cases o with
  | none => exact Quiet.pure rfl
  | some e => exact Quiet.then (h e rfl T) (Quiet.pure rfl)

/-! ## Expressions -/

theorem hasPointer_eq {l' r' : Expr} (hl : Refined T l l') (hr : Refined T r r') : hasPointer l' r' = hasPointer l r := by
  obtain ⟨a, ha⟩ := hl.typed
  obtain ⟨b, hb⟩ := hr.typed
  obtain ⟨a', ha', hca⟩ := hl.type ha
  obtain ⟨b', hb', hcb⟩ := hr.type hb
  unfold hasPointer
  rw [type_ok ha, type_ok hb, type_ok ha', type_ok hb']
  simp only [bind, Except.bind, Ty.isPointer_eq hca, Ty.isPointer_eq hcb]

/-- What the optimizer makes of a checked tree stays as it is when it is optimized again. -/
theorem optimize_stable {e : Expr} (h : Checked T e) : Yields U (optimize e) Stable := by
  induction e using Expr.induct with
  | h e ih =>
  have refined : ∀ {c : Expr} {k : Option Expr → Check (Option Expr)}, c ∈ e.children →
      (∀ c', Refined T c c' → Stable c' → Yields U (k (some c')) Stable) → Yields U (optimize c >>= k) Stable :=
    fun {c _} hc hk => Folds.bind_yields (optimize_folds (h.child hc)) (ih c hc (h.child hc)) hk
  have child : ∀ {c : Expr} {k : Option Expr → Check (Option Expr)}, c ∈ e.children →
      (∀ c', Stable c' → Yields U (k (some c')) Stable) → Yields U (optimize c >>= k) Stable :=
    fun hc hk => refined hc fun c' _ hc' => hk c' hc'
  have all : ∀ {es : List Expr} {k : Option (List Expr) → Check (Option Expr)}, (∀ c ∈ es, c ∈ e.children) →
      (∀ es', (∀ c ∈ es', Stable c) → Yields U (k (some es')) Stable) → Yields U (optimizeAll es >>= k) Stable :=
    fun hes hk => Folds.bind_yields (optimizeAll_folds fun c hc => optimize_folds (h.child (hes c hc)))
      (optimizeAll_stable fun c hc => ih c (hes c hc) (h.child (hes c hc))) fun es' _ hes' => hk es' hes'
  have given : ∀ {o : Option Expr} {k : Option (Option Expr) → Check (Option Expr)}, (∀ c, o = some c → c ∈ e.children) →
      (∀ o', (∀ c, o' = some c → Stable c) → Yields U (k (some o')) Stable) → Yields U (optimizeGiven o >>= k) Stable := by
    intro o k ho hk
    cases o with
    | none => exact hk none nofun
    | some c =>
      rw [optimizeGiven, bind_assoc]
      exact child (ho c rfl) fun c' hc' => hk (some c') fun d hd => by cases hd; exact hc'
  -- each step is taken with children that stay as they are, and then once more on the node that it made
  cases e with
  | unary node op c =>
    rw [optimize]
    exact child (by simp [children]) fun c' hc' => optimizeUnary_stable op hc'
  | step node s c amount =>
    rw [optimize]
    refine kept_yields (child (by simp [children])) fun c' hc' => rebuild_stable fun m hm T => ?_
    rw [optimize]
    exact kept_quiet hc' (rebuild_quiet hm)
  | binary node op l r reported =>
    rw [optimize]
    refine refined (by simp [children]) fun l' href hl' => refined (by simp [children]) fun r' href' hr' => ?_
    dsimp only
    rw [← hasPointer_eq href href']
    exact optimizeBinary_stable hl' hr' op
  | assign node op t v operandType =>
    rw [optimize]
    refine kept_yields (fun hk => child (by simp [children]) hk) fun t' ht' => ?_
    refine child (by simp [children]) fun v' hv' => rebuildBoth_stable fun m hm T => ?_
    rw [optimize]
    exact kept_quiet ht' (Quiet.then (hv' T) (rebuildBoth_quiet hm))
  | select node t a b =>
    rw [optimize]
    refine child (by simp [children]) fun t' ht' => child (by simp [children]) fun a' ha' => ?_
    exact child (by simp [children]) fun b' hb' => optimizeSelect_stable ht' ha' hb'
  | list node items =>
    rw [optimize]
    refine all (fun c hc => hc) fun items' hitems => Gives.lift fun m hm => Yields.some fun T => ?_
    rw [optimize]
    exact Quiet.then (optimizeAll_quiet hitems) (Quiet.read (renewed_again hm) (Quiet.pure rfl))
  | call node callee args launch count signature =>
    rw [optimize_call]
    refine child (by simp [children]) fun callee' hc => all (fun c hm => by simp [children, hm]) fun args' hargs => ?_
    refine given (fun n hn => by simp [children, hn]) fun count' hcount => Gives.lift fun m hm => Yields.some fun T => ?_
    rw [optimize_call]
    refine Quiet.then (hc T) (Quiet.then (optimizeAll_quiet hargs) (Quiet.then (optimizeGiven_quiet hcount) ?_))
    exact Quiet.read (renewed_again hm) (Quiet.pure rfl)
  | index node b i =>
    rw [optimize]
    refine child (by simp [children]) fun b' hb' => child (by simp [children]) fun i' hi' => ?_
    refine rebuildBoth_stable fun m hm T => ?_
    rw [optimize]
    exact Quiet.then (hb' T) (Quiet.then (hi' T) (rebuildBoth_quiet hm))
  | member node b name arrow access =>
    rw [optimize]
    refine child (by simp [children]) fun b' hb' => rebuild_stable fun m hm T => ?_
    rw [optimize]
    exact Quiet.then (hb' T) (rebuild_quiet hm)
  | cast node t c reported =>
    rw [optimize]
    exact child (by simp [children]) fun c' hc' => optimizeCast_stable t hc'
  | reference node c =>
    rw [optimize]
    refine kept_yields (child (by simp [children])) fun c' hc' => rebuild_stable fun m hm T => ?_
    rw [optimize]
    exact kept_quiet hc' (rebuild_quiet hm)
  | dereference node c =>
    rw [optimize]
    refine child (by simp [children]) fun c' hc' => rebuild_stable fun m hm T => ?_
    rw [optimize]
    exact Quiet.then (hc' T) (rebuild_quiet hm)
  | addressOf node c =>
    rw [optimize]
    refine kept_yields (child (by simp [children])) fun c' hc' => rebuild_stable fun m hm T => ?_
    rw [optimize]
    exact kept_quiet hc' (rebuild_quiet hm)
  | symbol node s =>
    rw [optimize]
    exact optimizeSymbol_stable s
  | new node allocated count init varying =>
    rw [optimize_new]
    refine given (fun n hn => by simp [children, hn]) fun count' hcount => ?_
    refine given (fun i hi => by simp [children, hi]) fun init' hinit => Gives.lift fun m hm => Yields.some fun T => ?_
    rw [optimize_new]
    refine Quiet.then (optimizeGiven_quiet hcount) (Quiet.then (optimizeGiven_quiet hinit) ?_)
    exact Quiet.read (renewed_again hm) (Quiet.pure rfl)
  | const | sizeOf | sizeOfType | function | sync | null => exact Yields.some fun _ => Quiet.pure rfl

end Check

open Check Spmd.Expr

/-- Optimizing what checking gave has a result, and optimizing that result gives the very same tree in any session and adds
no message: what could not be folded is reported once, however often the tree is optimized. -/
theorem optimize_idempotent {target : Target} {file : String} {json : Option Json} {p : Program} {e t : Expr} {s s' : Session}
    (hp : Program.read target file json = .ok p) (he : e ∈ p.expressions) (hs : s.target = target)
    (ht : (typecheck e).run s = (.ok (some t), s')) (r : Session) :
    ∃ o r', (optimize t).run r = (.ok (some o), r') ∧
      ∀ q : Session, ∃ q', (optimize o).run q = (.ok (some o), q') ∧ q'.target = q.target ∧ q'.log = q.log := by
  have hc := typecheck_checked hp he hs ht
  obtain ⟨result, new, found, hrun, ⟨o, rfl, -⟩, -⟩ := optimize_folds (U := r.target) hc r rfl
  obtain ⟨hstable, -⟩ := optimize_stable hc r rfl _ _ hrun
  refine ⟨o, _, hrun, fun q => ?_⟩
  obtain ⟨_, q', hq, htarget, hlog, rfl⟩ := (hstable o rfl q.target).run rfl
  exact ⟨q', hq, htarget, hlog⟩

/-! ## A quotient -/

/-- `1 / 0`, which cannot be folded. -/
def quotientJson : Json :=
  let literal (text : String) : Json := .object [("const", .string text), ("type", .string "int32")]
  programJson [] (.object [("binary", .string "/"), ("left", literal "1"), ("right", literal "0")])

def quotientExpr (operator : Node) (reported : Bool) : Expr :=
  let literal (n : Int) : Expr := .const (.typed none Ty.int32.asConst) ⟨.int32, 8, [.int n]⟩
  .binary operator (.arith .div) (literal 1) (literal 0) reported

theorem quotientProgram_read : Program.read .standard "program" (some quotientJson) =
    .ok ⟨{ target := .standard, file := "program" }, [quotientExpr {} false]⟩ := rfl

theorem quotientExpr_checks : (typecheck (quotientExpr {} false)).run { target := .standard } =
    (.ok (some (quotientExpr (.typed none .int32) false)), { target := .standard }) := rfl

/-- The division by zero is reported, and the node remembers it. -/
theorem quotientExpr_reports : (optimize (quotientExpr (.typed none .int32) false)).run { target := .standard } =
    (.ok (some (quotientExpr (.typed none .int32) true)),
      { target := .standard, log := [⟨.error (.folding .divisionByZero), none⟩] }) := rfl

theorem optimize_idempotent_quotient : ∃ o r',
    (optimize (quotientExpr (.typed none .int32) false)).run { target := .standard } = (.ok (some o), r') ∧
      ∀ q : Session, ∃ q', (optimize o).run q = (.ok (some o), q') ∧ q'.target = q.target ∧ q'.log = q.log :=
  optimize_idempotent quotientProgram_read (List.mem_singleton_self _) rfl quotientExpr_checks { target := .standard }

end Spmd
