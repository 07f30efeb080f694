import Spmd.Proofs.Retyping.Filling

/-!
# Calls again

The function that a call picked is remembered by its name, so that a call finds it again whatever the types of its
arguments look like before they are converted.
-/

namespace Spmd

def Signature.outline (s : Signature) : Signature := ⟨s.result.outline, s.parameters.map Ty.outline, s.isTask⟩

namespace Check

open Spmd.Expr

variable {T : Target}

def Callee.outline (c : Callee) : Callee := ⟨c.expr.outline, c.signature.outline, c.varying⟩

/-! ## Arguments -/

section
variable {ps qs : List Ty} {es ds args : List Expr}

theorem convertArguments_reaches (hargs : ∀ a ∈ args, Durable T a) (hn : ps.length = args.length) (hps : ∀ p ∈ ps, p.Legal) :
    Yields T (convertArguments args ps) fun as => (∀ a ∈ as, Everywhere Repeats a) → List.Forall₂ (Reaches T) ps as := by
  induction args generalizing ps with
  | nil =>
    rw [List.length_nil, List.length_eq_zero_iff] at hn
    subst hn
    exact Yields.some fun _ => .nil
  | cons a as ih =>
    cases ps with
    | nil => cases hn
    | cons p ps =>
      have hfirst := convert_reaches (hargs a List.mem_cons_self) (hps p List.mem_cons_self) "function call argument"
      have hrest := ih (fun c hc => hargs c (List.mem_cons_of_mem _ hc)) (by simpa using hn)
        (fun q hq => hps q (List.mem_cons_of_mem _ hq))
      rw [convertArguments]
      refine Yields.both hfirst hrest (fun b bs hb hbs => Yields.some fun hrep => ?_) (fun _ => Yields.none)
        fun _ => Yields.none
      exact .cons (hb (hrep b List.mem_cons_self)) (hbs fun c hc => hrep c (List.mem_cons_of_mem _ hc))

variable (h : Drafts T ps es ds)
include h

theorem Drafts.arguments (hq : qs.map Ty.outline = ps.map Ty.outline) :
    Quiet T (convertArguments ds qs) fun o => ∃ as, o = some as ∧ as.map outline = es.map outline := by
  induction h generalizing qs with
  | nil =>
    rw [convertArguments]
    exact Quiet.pure ⟨[], rfl, rfl⟩
  | @cons p e d ps es ds hfirst _ ih =>
    cases qs with
    | nil => cases hq
    | cons q qs =>
      simp only [List.map_cons, List.cons.injEq] at hq
      rw [convertArguments]
      refine Again.bind (hfirst.converts q hq.1 _) fun a ha => Quiet.result (ih hq.2) fun as has => ?_
      exact Quiet.pure ⟨_, rfl, by rw [List.map_cons, List.map_cons, ha, has]⟩

theorem Drafts.count_eq : ds.length = ps.length := by
  induction h with
  | nil => rfl
  | cons _ _ ih => rw [List.length_cons, List.length_cons, ih]

theorem Drafts.resolved : Quiet T (resolvedAll ds) (· = true) := by
  induction h with
  | nil => exact Quiet.pure rfl
  | cons first _ ih =>
    rw [resolvedAll]
    exact Quiet.then first.resolved_again (Quiet.then ih (Quiet.pure rfl))

end

/-! ## The called function -/

/-- A callee that is found again for drafts of the arguments that it was found for. -/
structure Recalled (T : Target) (callee : Callee) : Prop where
  lasts : Lasts T callee.expr
  again : ∀ c' as ds node launch count (P : Option Expr → Prop), c'.outline = callee.expr.outline →
    Drafts T callee.signature.parameters as ds → (∀ callee', callee'.outline = callee.outline →
      Quiet T (applyCallee node callee' ds launch count) P) → Quiet T (checkCall node c' ds launch count) P

section
variable {args ds es : List Expr} {ps : List Ty}

theorem calledByName_again {f : FunctionName} {s : Symbol} {sig : Signature} (hf : f.choice.chosen = some s)
    (hs : s.signature? = some sig) (h : Drafts T ps es ds) :
    Quiet T (calledByName f ds) (· = some ⟨.function f, sig, false⟩) := by
  obtain ⟨ts, hts, -⟩ := h.types
  unfold calledByName
  refine Quiet.then h.resolved ?_
  rw [Bool.not_true, if_neg Bool.false_ne_true]
  refine Quiet.read hts ?_
  -- only the first attempt counts, so that the types of the drafts do not matter
  unfold FunctionName.resolve
  rw [hf, Option.isSome_some, Bool.true_or, if_pos rfl, pure_bind]
  dsimp only
  rw [Option.bind_some, hs]
  exact Quiet.pure rfl

theorem calledByName_recalled {f : FunctionName} (hf : Known f) (hargs : ∀ a ∈ args, Operand T a) :
    Yields T (calledByName f args) (Recalled T) := by
  unfold calledByName
  refine Gives.bind (Meets.gives (resolvedAll_meets hargs)) fun b h => ?_
  obtain ⟨_, hb⟩ := h
  cases b with
  | false => exact Yields.none
  | true =>
    obtain ⟨ts, hts, -⟩ := typesOf_ok hb.2
    simp only [Bool.not_true, Bool.false_eq_true, if_false, hts, lift_ok, pure_bind]
    refine Gives.bind (Meets.gives (resolve_meets hf _)) fun r h => ?_
    obtain ⟨found, f'⟩ := r
    obtain ⟨_, hr⟩ := h
    cases found with
    | none => exact Yields.none
    | some s =>
      obtain ⟨-, hset, sig, hsig, -⟩ := hr
      simp only [Option.bind_some, hsig]
      refine Yields.some ⟨fun _ => function_fixed hset.type_eq, ?_⟩
      intro c' as ds node launch count P hout hds happly
      obtain ⟨f'', rfl, -, hchoice⟩ := function_of_outline hout rfl
      unfold checkCall
      refine Quiet.then (calledByName_again ((congrArg Choice.chosen hchoice).trans hset.chosen_eq) hsig hds) ?_
      exact happly _ (congrArg (Callee.mk · sig.outline false) hout)

theorem signatureBehind_outline (t : Ty) :
    signatureBehind? t.outline = (signatureBehind? t).map fun (s, v) => (s.outline, v) := by
  cases t with
  | pointer p q o =>
    cases p with
    | function r ps task o =>
      simp only [Ty.outline, signatureBehind?, Option.map_some, Signature.outline, Ty.outlineAll_eq]
    | _ => rfl
  | function r ps task o => simp only [Ty.outline, signatureBehind?, Option.map_some, Signature.outline, Ty.outlineAll_eq]
  | _ => rfl

theorem calledByValue_recalled (node : Node) {callee : Expr} (hc : Checked T callee) (hl : Lasts T callee)
    (hn : callee.isFunctionName = false) : Yields T (calledByValue node callee args) (Recalled T) := by
  obtain ⟨t, ht, -⟩ := hc.typed
  unfold calledByValue
  simp only [type_ok ht, lift_ok, pure_bind]
  split
  · exact Yields.reject _ _
  · rename_i s varying hs
    split
    · refine Yields.some ⟨hl, ?_⟩
      intro c' as ds node launch count P hout hds happly
      have hcalled : Quiet T (calledByValue node c' ds) fun o => ∃ callee', o = some callee' ∧
          callee'.outline = Callee.outline ⟨callee, s, varying⟩ := by
        unfold calledByValue
        refine Quiet.type hout ht fun t' _ htout => ?_
        have hsig := signatureBehind_outline t'.rvalue
        rw [Ty.outline_eq Ty.outline_rvalue htout, signatureBehind_outline, hs, Option.map_some] at hsig
        obtain ⟨⟨s', varying'⟩, hs', heq⟩ := Option.map_eq_some_iff.mp hsig.symm
        obtain ⟨hsout, rfl⟩ := Prod.mk.inj heq
        have hcount : s'.parameters.length = ds.length := by
          have hparameters : s'.parameters.map Ty.outline = s.parameters.map Ty.outline := (Signature.mk.inj hsout).2.1
          rw [hds.count_eq]
          simpa using congrArg List.length hparameters
        dsimp only
        rw [hs']
        dsimp only
        rw [if_pos hcount]
        refine Quiet.pure ⟨_, rfl, ?_⟩
        simp only [Callee.outline, hout, hsout]
      unfold checkCall
      split
      · obtain ⟨f, rfl, -⟩ := function_of_outline hout.symm rfl
        cases hn
      · exact Quiet.result hcalled happly
    · exact Yields.reject _ _

/-! ## Launches -/

theorem launchCount_converted (node : Node) {count : Option Expr} (hcount : ∀ n, count = some n → Durable T n) :
    Yields T (launchCount node count) fun n => ∃ s, Converted T .int32 s n := by
  have hconvert : ∀ n, Durable T n → Yields T (convert n .int32 "task launch count") fun n => ∃ s, Converted T .int32 s n :=
    fun n hn => convert_converted hn (Ty.legal_basic _ _) (fun _ _ _ => rfl) _
  unfold launchCount
  cases count with
  | some n =>
    simp only [pure_bind]
    exact hconvert n (hcount n rfl)
  | none =>
    refine Yields.target ?_
    obtain ⟨v, hv, hsuits⟩ := Literal.ofScalars_ok T.width ⟨.basic .int32, {}, none⟩ [.int 1] (.inl rfl)
    simp only [Ty.int32, Ty.basic, hv, lift_ok, pure_bind]
    refine hconvert _ (.closed (literal_checked hsuits _) rfl fun _ => ?_)
    rw [Fixed, Literal.expr, check]
    exact Again.some rfl

/-- Two callees that take and return the like. -/
structure Callee.Alike (b b' : Callee) : Prop where
  signature : b'.signature.outline = b.signature.outline
  varying : b'.varying = b.varying

theorem Callee.alike_of_outline {b b' : Callee} (h : b'.outline = b.outline) : b.Alike b' :=
  ⟨(Callee.mk.inj h).2.1, (Callee.mk.inj h).2.2⟩

section
variable {b b' : Callee} (h : b.Alike b')
include h

theorem Callee.Alike.launchProblem {launch : Bool} (hp : launchProblem? launch b = none) : launchProblem? launch b' = none := by
  have htask : b'.signature.isTask = b.signature.isTask := (Signature.mk.inj h.signature).2.2
  unfold launchProblem? at hp ⊢
  rw [htask]
  split at hp
  · cases hp
  · rename_i hneeded
    split at hp
    · cases hp
    · rename_i hillegal
      rw [if_neg hneeded, if_neg hillegal]

theorem Callee.Alike.resultType : b'.resultType.outline = b.resultType.outline := by
  have hresult : b'.signature.result.outline = b.signature.result.outline := (Signature.mk.inj h.signature).1
  unfold Callee.resultType
  dsimp only
  rw [h.varying, Ty.eq_of_bare Ty.isVoid_bare (Ty.bare_of_outline hresult)]
  split
  · exact Ty.outline_eq Ty.outline_asVarying hresult
  · exact hresult

end

/-! ## Calls -/

theorem finishCall_outline {callee callee' : Callee} {as as' : List Expr} {launch : Bool} {count count' : Option Expr}
    {place place' : Option Location} {t : Ty} (hc : callee'.outline = callee.outline) (ha : as'.map outline = as.map outline)
    (hn : count'.map outline = count.map outline) : (finishCall (.typed place t) callee' as' launch count').outline =
      (finishCall (.typed place' t) callee as launch count).outline := by
  have hexpr : callee'.expr.outline = callee.expr.outline := (Callee.mk.inj hc).1
  simp only [finishCall, outline, Node.outline, Node.typed, Option.map_some, (Callee.alike_of_outline hc).resultType, hexpr, outlineEach_eq, ha,
    outlineOf_eq, hn]

section
variable {callee : Callee} (hr : Recalled T callee) (node : Node)
include hr

section
variable {as : List Expr} {launch : Bool} {n : Option Expr} (hp : launchProblem? launch callee = none)
  (hn : ∀ c, n = some c → ∃ s, Converted T .int32 s c) (hl : n.isSome = launch)
include hp hn hl

/-- A call with drafts of its arguments, which counts its tasks exactly if it launches them. -/
theorem checkCall_again {c' : Expr} {n' : Option Expr} (hc' : c'.outline = callee.expr.outline)
    (hds : Drafts T callee.signature.parameters as ds) (hn' : n'.map outline = n.map outline) :
    Again T (checkCall (.typed node.place callee.resultType) c' ds launch n') (finishCall node callee as launch n) := by
  refine hr.again c' as ds _ _ _ _ hc' hds fun callee' hcallee => ?_
  unfold applyCallee
  rw [(Callee.alike_of_outline hcallee).launchProblem hp]
  refine Quiet.result (hds.arguments (Signature.mk.inj (Callee.mk.inj hcallee).2.1).2.1) fun as' has' => ?_
  subst hl
  cases n with
  | none => exact Again.some (finishCall_outline hcallee has' rfl)
  | some c =>
    obtain ⟨s, hc⟩ := hn c rfl
    obtain ⟨c', rfl, hc'⟩ := Option.map_eq_some_iff.mp hn'
    dsimp only
    rw [Option.isSome_some, if_pos rfl]
    unfold launchCount
    simp only [pure_bind]
    exact Again.bind (hc.again hc' rfl) fun c'' hc'' => Again.some (finishCall_outline hcallee has' (congrArg some hc''))

theorem finishCall_lasts (has : (∀ a ∈ as, Everywhere Repeats a) → List.Forall₂ (Reaches T) callee.signature.parameters as) :
    Lasts T (finishCall node callee as launch n) := by
  intro hrep
  have hreach := has fun a ha => hrep.child (by simp [finishCall, children, ha])
  rw [Fixed, finishCall, check]
  refine Again.bind (hr.lasts (hrep.child (by simp [finishCall, children]))) fun c' hc' => ?_
  refine Quiet.result (checkEach_drafts false hreach) fun ds hds => ?_
  cases n with
  | none =>
    simp only [pure_bind]
    exact checkCall_again hr node hp hn hl hc' hds rfl
  | some c =>
    obtain ⟨s, hc⟩ := hn c rfl
    simp only [pure_bind]
    refine Again.bind (hc.lasts (hrep.child (by simp [finishCall, children]))) fun n' hn' => ?_
    exact checkCall_again hr node hp hn hl hc' hds (congrArg some hn')

end

variable (hc : Callable T args.length callee) (hargs : ∀ a ∈ args, Durable T a)
include hc hargs

theorem applyCallee_endures (launch : Bool) {count : Option Expr} (hcount : ∀ n, count = some n → Durable T n) :
    Yields T (applyCallee node callee args launch count) (Endures T) := by
  unfold applyCallee
  split
  · exact Yields.reject _ _
  · rename_i hp
    refine Yields.bind (convertArguments_reaches hargs hc.count_eq hc.parameters) (fun as has => ?_) Yields.none
    dsimp only
    cases launch with
    | true =>
      rw [if_pos rfl]
      refine Yields.bind (launchCount_converted node hcount) (fun n hn => Yields.some ⟨rfl, ?_⟩) Yields.none
      exact finishCall_lasts hr node hp (fun c h => by cases h; exact hn) rfl has
    | false =>
      rw [if_neg Bool.false_ne_true]
      exact Yields.some ⟨rfl, finishCall_lasts hr node hp nofun rfl has⟩

end

theorem checkCall_endures (hargs : ∀ a ∈ args, Durable T a) (node : Node) {callee : Expr} (hc : Durable T callee)
    (launch : Bool) {count : Option Expr} (hcount : ∀ n, count = some n → Durable T n) :
    Yields T (checkCall node callee args launch count) (Endures T) := by
  have hoperands : ∀ a ∈ args, Operand T a := fun a ha => (hargs a ha).operand
  have happly : ∀ b, Callable T args.length b ∧ Recalled T b → Yields T (applyCallee node b args launch count) (Endures T) :=
    fun _ h => applyCallee_endures h.2 node h.1 hargs launch hcount
  have hvalue : ∀ {c : Expr}, Checked T c → Lasts T c → c.isFunctionName = false →
      Yields T (calledByValue node c args) fun b => Callable T args.length b ∧ Recalled T b :=
    fun hc hl hn => Yields.and (calledByValue_delivers node hc).yields (calledByValue_recalled node hc hl hn)
  unfold checkCall
  cases hc with
  | name fresh =>
    exact Yields.bind (Yields.and (calledByName_delivers hoperands fresh.toKnown (fresh.takes _)).yields
      (calledByName_recalled fresh.toKnown hoperands)) happly
      Yields.none
  | @list n items ts type_eq types below =>
    have hlist := Durable.list type_eq types below
    exact Yields.bind (hvalue (hlist.operand.toChecked type_eq) (hlist.lasts (t := .list ts) type_eq) rfl) happly Yields.none
  | closed checked closed lasts =>
    dsimp only
    split
    · cases closed
    · rename_i hf
      refine Yields.bind (hvalue checked lasts ?_) happly Yields.none
      cases callee with
      | function f => exact absurd rfl (hf f)
      | _ => rfl

end

end Check

end Spmd
