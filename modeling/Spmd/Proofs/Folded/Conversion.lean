import Spmd.Proofs.Folded.Resemblance

/-!
# Conversions of folded operands

Another check of a checked tree converts operands to the types that they have, and lists to what they fill
(`Check.convert_fills`). What is read alike converts to the same types (`Check.convert_accepts`).
-/

namespace Spmd

theorem Ty.listTargets_length {n : Nat} {t : Ty} {ts : List Ty} (h : t.listTargets n = .ok ts) : ts.length = n := by
  unfold listTargets at h
  split at h
  · split at h
    · cases h; simp
    · cases h
  · split at h
    · cases h; simp
    · cases h
  · split at h
    · rename_i hn
      cases h
      simpa using hn
    · cases h
  · cases h

namespace Check

open Spmd.Expr

variable {T : Target} {context : String}

theorem fillTargets_of_targets {n : Nat} {p : Ty} {us : List Ty} (h : p.listTargets n = .ok us) :
    fillTargets? n p = some (us.map some) := by
  cases p with
  | array | vector | struct => exact congrArg some (fillTargets_eq rfl h)
  | _ => cases h

theorem filledType_iff {n : Nat} {p : Ty} : (∃ t, filledType n p = .ok t) ↔ p.holds = true := by
  have other : filledType n p = .ok p → p.holds = true → ((∃ t, filledType n p = .ok t) ↔ p.holds = true) :=
    fun h hp => ⟨fun _ => hp, fun _ => ⟨p, h⟩⟩
  cases p with
  | array e m o =>
    cases m with
    | some => exact other rfl rfl
    | none => cases hv : e.isVoid <;> simp [filledType, Ty.arrayOf, Ty.holds, hv]
  | _ => exact other rfl rfl

/-! ## Conversions that leave an operand as it is -/

section
variable {e : Expr} {s p : Ty}

theorem cast_outline_ne (n : Node) (t : Ty) (b : Bool) : (Expr.cast n t e b).outline ≠ e.outline :=
  outline_ne_child (List.mem_singleton_self _)

theorem reference_outline_ne (n : Node) : (Expr.reference n e).outline ≠ e.outline :=
  outline_ne_child (List.mem_singleton_self _)

theorem dereference_outline_ne (n : Node) : (Expr.dereference n e).outline ≠ e.outline :=
  outline_ne_child (List.mem_singleton_self _)

theorem readCast_outline_ne (n m : Node) (t : Ty) (b : Bool) : (Expr.cast n t (.dereference m e) b).outline ≠ e.outline := by
  intro heq
  have hin : SizeOf.sizeOf e.outline < SizeOf.sizeOf (Expr.dereference m e).outline :=
    sizeOf_child (List.mem_singleton_self _)
  have hout : SizeOf.sizeOf (Expr.dereference m e).outline < SizeOf.sizeOf (Expr.cast n t (.dereference m e) b).outline :=
    sizeOf_child (List.mem_singleton_self _)
  rw [heq] at hout
  omega

/-- Where a conversion leaves an expression as it is, the expression has the type up to `const`, and is bound to a reference. -/
theorem convertValue_kept (hs : e.type? = some s) : Yields T (convertValue e p context) fun r =>
    r.outline = e.outline → s.core = p.core ∧ Ty.obstacle false s p = none := by
  refine Yields.mono (convertValue_yields hs) fun r hr hout => ?_
  cases hr with
  | same same => exact ⟨Ty.core_eq_of_same same, Ty.obstacle_of_same same⟩
  | null =>
    obtain ⟨p', hp', hpout⟩ := type_of_outline (e := e) hout hs
    obtain rfl : p = p' := Option.some.inj hp'
    have hbare := Ty.bare_of_outline hpout
    exact ⟨(Ty.core_of_bare hbare).symm, Ty.obstacle_of_same ((Ty.same_iff _ _).mpr hbare.symm)⟩
  | binds hp bound =>
    cases bound with
    | kept hr possible => exact ⟨core_of_references hr hp (Ty.obstacle_to_reference hp possible), possible⟩
    | bound => exact absurd hout (reference_outline_ne _)
  | dereferences => exact absurd hout (dereference_outline_ne _)
  | readsThrough _ _ read =>
    cases read with
    | kept => exact absurd hout (dereference_outline_ne _)
    | cast => exact absurd hout (readCast_outline_ne _ _ _ _)
  | reads _ _ _ read =>
    cases read with
    | kept possible same => exact ⟨(Ty.sameIgnoringConst_iff _ _).mp same, possible⟩
    | cast => exact absurd hout (cast_outline_ne _ _ _)

theorem convertValue_list {n : Node} {items : List Expr} {ts : List Ty} (hn : n.type = some (.list ts)) :
    Yields T (convertValue (.list n items) p context) fun r => r = .list n items ∨ r.isList = false := by
  refine Yields.mono (convertValue_yields (e := .list n items) hn) fun r hr => ?_
  cases hr with
  | same => exact .inl rfl
  | null => exact .inr rfl
  | binds _ bound =>
    cases bound with
    | kept hr => cases hr
    | bound => exact .inr rfl
  | dereferences source_eq => cases source_eq
  | readsThrough source_eq => cases source_eq
  | reads _ _ _ read =>
    cases read with
    | kept => exact .inl rfl
    | cast => exact .inr rfl

theorem convertFunction_casts {f : FunctionName} (hs : f.node.type = some s) :
    Yields T (convertFunction f p context) fun r => Ty.obstacle false s p = none ∧ ∃ f' : FunctionName,
      r = if s.same p then .function f' else .cast (.typed f'.node.place p) p (.function f') false := by
  refine Yields.mono (convertFunction_yields (pickOverload_type hs p)) fun r hr => ⟨hr.possible, ?_⟩
  cases hr with
  | kept picked _ type_eq _ same =>
    obtain rfl := Option.some.inj (type_eq.symm.trans picked)
    exact ⟨_, (if_pos same).symm⟩
  | cast picked _ type_eq _ differs =>
    obtain rfl := Option.some.inj (type_eq.symm.trans picked)
    exact ⟨_, (if_neg (Bool.eq_false_iff.mp differs)).symm⟩

theorem convertFunction_kept {f : FunctionName} (hs : f.node.type = some s) : Yields T (convertFunction f p context) fun r =>
    r.outline = (Expr.function f).outline → s.core = p.core ∧ Ty.obstacle false s p = none := by
  refine Yields.mono (convertFunction_casts hs) fun r hr hout => ?_
  obtain ⟨ho, f', rfl⟩ := hr
  split at hout
  · rename_i hsame
    exact ⟨Ty.core_eq_of_same hsame, ho⟩
  · cases hout

end

/-! ## Types of what is kept -/

theorem convertItems_fills {items items' : List Expr} {ts us : List Ty} (h : AllRedrawn items items')
    (hopen : ∀ c ∈ items, c.isOpen = false) (hts : items'.map type? = ts.map some) (hn : us.length = ts.length)
    (hall : ∀ c ∈ items, ∀ c' s p, c.isOpen = false → c.Redrawn c' → c'.type? = some s →
      Yields T (convert c' p context) fun r => r.outline = c.outline → s.Fills p) :
    Yields T (convertItems items' (us.map some) context) fun es => es.map outline = items.map outline → Ty.AllFill ts us := by
  induction items generalizing items' ts us with
  | nil =>
    cases items' with
    | nil =>
      cases ts with
      | nil =>
        cases us with
        | nil =>
          rw [convertItems]
          exact Yields.some fun _ => trivial
        | cons => cases hn
      | cons => cases hts
    | cons => exact h.elim
  | cons c cs ih =>
    cases items' with
    | nil => exact h.elim
    | cons c' cs' =>
      cases ts with
      | nil => cases hts
      | cons t ts =>
        cases us with
        | nil => cases hn
        | cons u us =>
          obtain ⟨ht, hts⟩ := List.cons.inj hts
          have hfirst := hall c List.mem_cons_self c' t u (hopen c List.mem_cons_self) h.1 ht
          have hrest := ih h.2 (fun d hd => hopen d (List.mem_cons_of_mem _ hd)) hts (by simpa using hn)
            fun d hd => hall d (List.mem_cons_of_mem _ hd)
          rw [List.map_cons, convertItems]
          refine Yields.bind hfirst (fun r hr => ?_) Yields.none
          refine Yields.bind hrest (fun rs hrs => Yields.some fun hout => ?_) Yields.none
          obtain ⟨hout, houts⟩ := List.cons.inj hout
          exact ⟨hr hout, hrs houts⟩

/-- Where another check converts an operand to what the operand was before, the type that it is checked to have fills what
the operand is converted to. -/
theorem convert_fills {c c' : Expr} {s p : Ty} (hk : Everywhere Tolerant c) (hc : c.isOpen = false) (h : c.Redrawn c')
    (hs : c'.type? = some s) : Yields T (convert c' p context) fun r => r.outline = c.outline → s.Fills p := by
  induction c using Expr.induct generalizing c' s p with
  | h c ih =>
  by_cases hlist : c.isList = true
  · cases c with
    | list n items =>
      obtain ⟨n', items', ts, rfl, hn', hts, hitems⟩ := h
      obtain rfl : s = .list ts := Option.some.inj (hs.symm.trans hn')
      -- the list was filled, so that it is not left as it is
      have hvalue : Yields T (convertValue (.list n' items') p context) fun r =>
          r.outline = (Expr.list n items).outline → (Ty.list ts).Fills p := by
        refine Yields.mono (convertValue_list hn') fun r hr hout => ?_
        rcases hr with rfl | hr
        · obtain ⟨t, ht, htout⟩ := type_of_outline (e := .list n' items') hout.symm hn'
          have hclosed := not_list_of_closed hc ht
          rw [← Ty.isList_bare, Ty.bare_of_outline htout] at hclosed
          cases hclosed
        · cases r with
          | list => cases hr
          | _ => cases hout
      have hclosed : ∀ d ∈ items, d.isOpen = false := hk.here.lists hc
      rw [convert]
      refine Gives.lift fun source hsource => ?_
      obtain rfl : source = .list ts := Option.some.inj ((type?_of_ok hsource).symm.trans hn')
      split
      · exact hvalue
      · rename_i xs hf
        split
        · exact hvalue
        · rename_i hsame
          refine ifConverts_yields fun ho => ?_
          have hne : (Ty.list ts).same p = false := (Bool.or_eq_false_iff.mp (by simpa using hsame)).1
          have hlen : items'.length = ts.length := by simpa using congrArg List.length hts
          obtain ⟨us, hus, rfl, -⟩ := fillTargets_listed hf hts ho hne
          rw [hlen] at hus
          refine Yields.bind (convertItems_fills hitems hclosed hts (Ty.listTargets_length hus)
            fun d hd d' s p hdc hdr hds => ih d hd (hk.child hd) hdc hdr hds) (fun es hes => ?_) Yields.none
          refine Gives.lift fun t ht => Yields.some fun hout => ⟨?_, Ty.obstacle_from_list_varying ho hne hus, us, hus, hes ?_⟩
          · exact filledType_iff.mp ⟨t, ht⟩
          · rw [← outlineEach_eq, ← outlineEach_eq]
            exact (list.inj hout).2
    | _ => cases hlist
  · rw [Bool.not_eq_true] at hlist
    have hout := (redrawn_iff hlist).mp h
    obtain ⟨t, ht, htout⟩ := type_of_outline hout.symm hs
    have hsl : s.isList = false := by
      rw [← Ty.isList_bare, ← Ty.bare_of_outline htout, Ty.isList_bare]
      exact not_list_of_closed hc ht
    have filled : ∀ {m : Check (Option Expr)}, (Yields T m fun r => r.outline = c'.outline → s.core = p.core ∧
        Ty.obstacle false s p = none) → Yields T m fun r => r.outline = c.outline → s.Fills p := fun hm =>
      Yields.mono hm fun r hr hrout => (Ty.fills_iff hsl).mpr ((hr (hrout.trans hout.symm)).imp_right fun ho _ => ho)
    cases c' with
    | function f =>
      rw [convert]
      exact filled (convertFunction_kept hs)
    | list n items =>
      cases c with
      | list => cases hlist
      | _ => cases hout
    | _ =>
      rw [convert_closed rfl]
      exact filled (convertValue_kept hs)

/-! ## Operands that are read alike -/

section
variable {u : Expr} {s p : Ty}

theorem convertRead_accepts (hs : u.type? = some s) (h : s.core = p.core) (ho : Ty.obstacle false s p = none) :
    Accepts T (convertRead u s p context) fun r => ∃ t, r.type? = some t ∧ t.core = p.core := by
  unfold convertRead
  rw [canConvert_true ho]
  simp only [pure_bind, if_true]
  rw [if_pos ((Ty.sameIgnoringConst_iff _ _).mpr h)]
  exact Accepts.some ⟨s, hs, h⟩

theorem convertValue_accepts (hs : u.type? = some s) (h : s.core = p.core) (ho : Ty.obstacle false s p = none) :
    Accepts T (convertValue u p context) fun r => ∃ t, r.type? = some t ∧ t.core = p.core := by
  have hr := Ty.isReference_eq h
  unfold convertValue
  simp only [type_ok hs, lift_ok, pure_bind]
  split
  · exact Accepts.some ⟨s, hs, h⟩
  split
  · exact Accepts.some ⟨p, rfl, rfl⟩
  split
  · rename_i hp
    unfold bindReference
    simp only [type_ok hs, lift_ok, pure_bind]
    rw [if_pos (hr.trans hp), canConvert_true ho]
    exact Accepts.some ⟨s, hs, h⟩
  · rename_i hp
    cases s with
    | reference => exact absurd hr.symm hp
    | _ => exact convertRead_accepts hs h ho

theorem convertFunction_accepts {f : FunctionName} (hf : Known f) (hs : f.node.type = some s) (hfun : s.isFunction = true)
    (ho : Ty.obstacle false s p = none) : Accepts T (convertFunction f p context) fun r => ∃ f', Known f' ∧
      f'.node.type = some s ∧ r = if s.same p then .function f' else .cast (.typed f'.node.place p) p (.function f') false := by
  unfold convertFunction
  refine Accepts.after (pickOverload_succeeds hf hs hfun ho) fun o hpicked => ?_
  obtain ⟨f', rfl, hknown, hs', hresolved⟩ := hpicked
  simp only [hresolved, Bool.not_true, Bool.false_eq_true, if_false, type_ok (e := .function f') hs', lift_ok, pure_bind,
    canConvert_true ho, if_true]
  exact Accepts.some ⟨f', hknown, hs', rfl⟩

theorem convertItems_accepts {items : List Expr} {ts us : List Ty} (hts : items.map type? = ts.map some) (h : Ty.AllFill ts us)
    (hall : ∀ c ∈ items, ∀ t u, c.type? = some t → t.Fills u → Accepts T (convert c u context) fun _ => True) :
    Accepts T (convertItems items (us.map some) context) fun _ => True := by
  induction items generalizing ts us with
  | nil =>
    rw [convertItems]
    exact Accepts.some trivial
  | cons c cs ih =>
    cases ts with
    | nil => cases hts
    | cons t ts =>
      cases us with
      | nil => exact h.elim
      | cons u us =>
        obtain ⟨ht, hts⟩ := List.cons.inj hts
        rw [List.map_cons, convertItems]
        refine Accepts.bind (hall c List.mem_cons_self t u ht h.1) fun r _ => ?_
        exact Accepts.bind (ih hts h.2 fun d hd => hall d (List.mem_cons_of_mem _ hd)) fun rs _ => Accepts.some trivial

theorem convert_accepts (hu : u.Determined) (hs : u.type? = some s) (h : s.Fills p) :
    Accepts T (convert u p context) fun r => s.isList = false → ∃ t, r.type? = some t ∧ t.core = p.core := by
  induction hu generalizing s p with
  | @name f t known type_eq isFunction =>
    obtain rfl : s = t := Option.some.inj (hs.symm.trans type_eq)
    have hl : s.isList = false := by
      cases s with
      | function => rfl
      | _ => cases isFunction
    rw [convert]
    refine Accepts.mono (convertFunction_accepts known type_eq isFunction h.obstacle) fun r hr _ => ?_
    obtain ⟨f', -, hs', rfl⟩ := hr
    split
    · exact ⟨s, hs', ((Ty.fills_iff hl).mp h).1⟩
    · exact ⟨p, rfl, rfl⟩
  | @list node items ts type_eq types below ih =>
    obtain rfl : s = .list ts := Option.some.inj (hs.symm.trans type_eq)
    have ho := h.obstacle
    obtain ⟨hholds, -, us, hus, hall⟩ := h
    obtain ⟨hr, hl, -⟩ := Ty.listTargets_aggregate hus
    have hlen : ts.length = items.length := by simpa using (congrArg List.length types).symm
    have hne : (Ty.list ts).same p = false := by
      cases p with
      | list => cases hl
      | _ => rfl
    rw [convert]
    refine Accepts.read (type_ok (e := .list node items) type_eq) ?_
    rw [fillTargets_of_targets (hlen ▸ hus)]
    dsimp only
    rw [hne, if_neg (by exact Bool.false_ne_true), canConvert_true ho]
    simp only [pure_bind, if_true]
    -- every item fills its position, so that the induction covers them all
    refine Accepts.bind (convertItems_accepts types hall fun c hc t u ht hf => Accepts.mono (ih c hc ht hf) fun _ _ => trivial)
      fun es _ => ?_
    obtain ⟨t, ht⟩ := filledType_iff.mpr hholds
    exact Accepts.read ht (Accepts.some fun hn => by cases hn)
  | @closed e t closed type_eq =>
    obtain rfl : s = t := Option.some.inj (hs.symm.trans type_eq)
    have ho := h.obstacle
    rw [convert_closed closed]
    cases hl : s.isList with
    | false => exact Accepts.mono (convertValue_accepts hs ((Ty.fills_iff hl).mp h).1 ho) fun _ hr _ => hr
    | true =>
      cases s with
      | list ss =>
        obtain ⟨-, -, us, hus, -⟩ := h
        obtain ⟨hr, hl, hp, -⟩ := Ty.listTargets_aggregate hus
        unfold convertValue
        refine Accepts.read (type_ok hs) ?_
        split
        · exact Accepts.some fun hn => by cases hn
        · rw [if_neg (by rw [becomesNull, hp]; exact Bool.false_ne_true), if_neg (by rw [hr]; exact Bool.false_ne_true)]
          exact Accepts.mono (convertRead_succeeds ho).accepts fun _ _ hn => by cases hn
      | _ => cases hl

end

end Check

end Spmd
