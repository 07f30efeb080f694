import Spmd.Proofs.Folded.Value
import Spmd.Proofs.Retyping.Call

/-!
# Calls with folded operands

A call finds the function that it called before, by the name that remembers it, or behind the type of what is called. A name that
takes the place of another callee has a single function, which takes the arguments as they fill its parameters.
-/

namespace Spmd

namespace Ty

/-- The arguments of a call fill the first of its parameters. -/
def AllTaken : List Ty → List Ty → Prop
  | [], _ => True
  | s :: ss, t :: ts => s.Fills t ∧ AllTaken ss ts
  | _ :: _, [] => False

theorem AllTaken.congr : ∀ {ss ts us vs : List Ty}, AllTaken ss ts → relaxedAll us = relaxedAll ss → vs.map outline = ts.map outline →
    AllTaken us vs
  | [], _, us, _, _, hs, _ => by
    cases us with
    | nil => trivial
    | cons => cases hs
  | s :: ss, [], _, _, h, _, _ => h.elim
  | s :: ss, t :: ts, us, vs, h, hs, ht => by
    cases us with
    | nil => cases hs
    | cons u us =>
      cases vs with
      | nil => cases ht
      | cons v vs =>
        obtain ⟨hs, hss⟩ := List.cons.inj hs
        obtain ⟨ht, hts⟩ := List.cons.inj ht
        exact ⟨h.1.congr hs ht, h.2.congr hss hts⟩

theorem AllTaken.fits {ts ps : List Ty} {nulls : List Bool} (h : AllTaken ts ps) :
    ((Argument.ofTypes ts nulls).zip ps).all (fun q => q.1.fits (converts false) q.2) = true := by
  induction ts generalizing ps nulls with
  | nil => cases nulls <;> rfl
  | cons t ts ih =>
    cases ps with
    | nil => exact h.elim
    | cons p ps =>
      have hfirst : converts false t p = true := by rw [converts, h.1.obstacle, Option.isNone_none]
      cases nulls <;>
        rw [Argument.ofTypes, List.zip_cons_cons, List.all_cons, ih h.2, Argument.fits, hfirst, Bool.or_true, Bool.and_self]

end Ty

namespace Check

open Spmd.Expr

variable {T : Target} {n : Node} (n' : Node)

/-! ## Arguments -/

section
variable {cs ds us : List Expr} {ts ps qs : List Ty} (h : AllTwins cs ds us) (hts : ds.map type? = ts.map some)
include h hts

theorem convertArguments_taken (hclosed : ∀ c ∈ cs, c.isOpen = false) : Yields T (convertArguments ds ps) fun as =>
    as.map outline = cs.map outline → Ty.AllTaken ts ps := by
  induction h generalizing ts ps with
  | nil =>
    cases ts with
    | nil => exact Yields.some fun _ => trivial
    | cons => cases hts
  | @cons c d u cs ds us first rest ih =>
    cases ts with
    | nil => cases hts
    | cons t ts =>
      obtain ⟨ht, hts⟩ := List.cons.inj hts
      have hrest : ∀ ps, Yields T (convertArguments ds ps) fun as => as.map outline = cs.map outline → Ty.AllTaken ts ps :=
        fun _ => ih hts fun x hx => hclosed x (List.mem_cons_of_mem _ hx)
      rw [convertArguments]
      cases ps with
      | nil =>
        -- an argument without a parameter is refused
        have hstray : ∀ context, Yields T (convertStray d context) fun _ => False := by
          have hvoid : ∀ (s : Ty) context, Yields T (refuseVoid d s context) fun _ => False := by
            intro s context
            unfold refuseVoid
            split
            · exact Yields.reject _ _
            · exact fun _ _ _ _ h => by cases h
          intro context
          unfold convertStray
          split
          · split
            · exact Gives.lift fun _ _ => hvoid _ _
            · exact Yields.reject _ _
          · exact Gives.lift fun _ _ => hvoid _ _
        exact Yields.both (hstray _) (hrest []) (fun _ _ hn => hn.elim) (fun _ => Yields.none) fun _ => Yields.none
      | cons p ps =>
        refine Yields.both (first.fills ht (hclosed c List.mem_cons_self) p _) (hrest ps) (fun a as ha has => ?_)
          (fun _ => Yields.none) fun _ => Yields.none
        refine Yields.some fun hout => ?_
        obtain ⟨hout, houts⟩ := List.cons.inj hout
        exact ⟨ha hout, has houts⟩

theorem convertArguments_accepts (htaken : Ty.AllTaken ts ps) (hps : qs.map Ty.outline = ps.map Ty.outline) :
    Accepts T (convertArguments us qs) fun _ => True := by
  induction h generalizing ts ps qs with
  | nil => exact Accepts.some trivial
  | @cons c d u cs ds us first rest ih =>
    cases ts with
    | nil => cases hts
    | cons t ts =>
      cases ps with
      | nil => exact htaken.elim
      | cons p ps =>
        cases qs with
        | nil => cases hps
        | cons q qs =>
          obtain ⟨ht, hts⟩ := List.cons.inj hts
          obtain ⟨hp, hps⟩ := List.cons.inj hps
          rw [convertArguments]
          refine Accepts.bind (first.converts ht htaken.1 hp _) fun a _ => ?_
          exact Accepts.bind (ih hts htaken.2 hps) fun as _ => Accepts.some trivial

end

theorem AllTwins.length_eq {cs ds us : List Expr} (h : AllTwins cs ds us) : ds.length = us.length := by
  induction h with
  | nil => rfl
  | cons _ _ ih => rw [List.length_cons, List.length_cons, ih]

/-! ## The called function -/

theorem resolved_determined {u : Expr} (h : u.Determined) : resolved (some u) = return some u := by
  unfold resolved
  split
  · rename_i f hf
    rw [if_pos (h.resolved f (Option.some.inj hf)), hf]
  · rfl

theorem resolvedAll_determined {us : List Expr} (h : ∀ u ∈ us, u.Determined) : resolvedAll us = return true := by
  induction us with
  | nil => rfl
  | cons u us ih =>
    rw [resolvedAll, resolved_determined (h u List.mem_cons_self), ih fun x hx => h x (List.mem_cons_of_mem _ hx)]
    rfl

theorem resolvedAll_gives (ds : List Expr) : Gives T (resolvedAll ds) fun _ => True := by
  induction ds with
  | nil => exact Gives.pure trivial
  | cons d ds ih =>
    rw [resolvedAll]
    exact Gives.bind (resolved_yields (P := fun _ => True) trivial) fun _ _ => Gives.bind ih fun _ _ => Gives.pure trivial

section
variable {f : FunctionName} {t : Ty} (hf : Known f) (ht : f.node.type = some t)
include hf ht

/-- Where a call leaves a name as it was, the name remembered the function already. -/
theorem calledByName_remembers (ds : List Expr) : Yields T (calledByName f ds) fun b => ∃ f' sig, b = ⟨.function f', sig, false⟩ ∧
    (f'.choice = f.choice → f.choice.chosen.isSome = true ∧ t.signature? = some sig) := by
  unfold calledByName
  refine Gives.bind (resolvedAll_gives ds) fun b _ => ?_
  split
  · exact Yields.none
  refine Gives.lift fun ts _ => Gives.bind (Meets.gives (resolve_meets hf _)) fun r hr => ?_
  obtain ⟨found, f'⟩ := r
  obtain ⟨_, hr⟩ := hr
  cases found with
  | none => exact Yields.none
  | some s =>
    obtain ⟨-, hset, sig, hsig, -⟩ := hr
    simp only [Option.bind_some, hsig]
    refine Yields.some ⟨f', sig, rfl, fun hchoice => ?_⟩
    have hchosen : f.choice.chosen = some s := (congrArg Choice.chosen hchoice).symm.trans hset.chosen_eq
    have hfunction : f.function? = some s := by
      unfold FunctionName.function?
      rw [hchosen]
    rw [hf.type_eq, hfunction] at ht
    obtain rfl : s.type = t := Option.some.inj ht
    exact ⟨by rw [hchosen]; rfl, hsig⟩

theorem calledByName_accepts {us : List Expr} {ts : List Ty} {sig : Signature} (hsig : t.signature? = some sig)
    (hus : ∀ u ∈ us, u.Determined) (hts : us.map type? = ts.map some)
    (h : f.choice.chosen.isSome = true ∨ sig.parameters.length = us.length ∧ Ty.AllTaken ts sig.parameters) :
    Accepts T (calledByName f us) fun b => ∃ f', b = ⟨.function f', sig, false⟩ := by
  obtain ⟨s, hs, rfl⟩ := hf.found ht
  have hst : s.signature? = some sig := hsig
  have hlen : ts.length = us.length := by simpa using (congrArg List.length hts).symm
  unfold calledByName
  simp only [resolvedAll_determined hus, typesOf_of_types hts, pure_bind, lift_ok, Bool.not_true, Bool.false_eq_true, if_false]
  rcases hf.choice_cases with hfresh | ⟨s', -, hchosen, -⟩
  · obtain ⟨hn, htaken⟩ := h.resolve_left (by rw [hfresh]; exact Bool.false_ne_true)
    have hone := candidates_of_function hfresh hs
    have htakes : s.takes (Ty.converts false) (Argument.ofTypes ts (us.map isZeroConstant)) = true := by
      unfold Symbol.takes
      rw [hst]
      dsimp only
      rw [length_ofTypes, hlen, hn, beq_self_eq_true, Bool.true_and]
      exact htaken.fits
    have hsettled : Spmd.resolve f.candidates (Argument.ofTypes ts (us.map isZeroConstant)) = .resolved s := by
      rw [hone, resolve_single, htakes, Bool.or_true]
      rfl
    unfold FunctionName.resolve
    rw [if_neg (by rw [hfresh]; exact Bool.false_ne_true), hsettled]
    simp only [bind_assoc, pure_bind, Option.bind_some, hst]
    exact Accepts.after (Meets.mono (note_meets _) fun _ _ h => ⟨by rw [h]; rfl, trivial⟩) fun _ (_ : True) => Accepts.some ⟨_, rfl⟩
  · unfold FunctionName.resolve
    have hs' : s' = s := by
      unfold FunctionName.function? at hs
      rw [hchosen] at hs
      exact Option.some.inj hs
    rw [if_pos (by rw [hchosen]; rfl), hchosen, hs']
    simp only [pure_bind, Option.bind_some, hst]
    exact Accepts.some ⟨f, rfl⟩

end

/-! ## Calls -/

section
variable {d u : Expr} {s s' : Ty} {ds us : List Expr}

theorem calledByValue_yields (hs : d.type? = some s) : Yields T (calledByValue n d ds) fun b =>
    signatureBehind? s.rvalue = some (b.signature, b.varying) ∧ b.expr = d ∧ b.signature.parameters.length = ds.length := by
  unfold calledByValue
  simp only [type_ok hs, lift_ok, pure_bind]
  split
  · exact Yields.reject _ _
  · split
    · exact Yields.some ⟨‹_›, rfl, ‹_›⟩
    · exact Yields.reject _ _

section
variable {b : Callee} (hb : signatureBehind? s.rvalue = some (b.signature, b.varying)) (h : s'.rvalue.outline = s.rvalue.outline)
include hb h

theorem behind_alike : ∃ sig varying, signatureBehind? s'.rvalue = some (sig, varying) ∧
    ∀ e, b.Alike ⟨e, sig, varying⟩ := by
  have hsig := signatureBehind_outline s'.rvalue
  rw [h, signatureBehind_outline, hb, Option.map_some] at hsig
  obtain ⟨⟨sig, varying⟩, hbehind, heq⟩ := Option.map_eq_some_iff.mp hsig.symm
  obtain ⟨hsig, rfl⟩ := Prod.mk.inj heq
  exact ⟨sig, _, hbehind, fun _ => ⟨hsig, rfl⟩⟩

theorem calledByValue_accepts (hs' : u.type? = some s') (hn : b.signature.parameters.length = us.length) :
    Accepts T (calledByValue n' u us) b.Alike := by
  obtain ⟨sig, varying, hbehind, halike⟩ := behind_alike hb h
  have hlen : sig.parameters.length = us.length := by
    rw [← hn]
    simpa using congrArg List.length (Signature.mk.inj (halike u).signature).2.1
  unfold calledByValue
  simp only [type_ok hs', lift_ok, pure_bind, hbehind]
  rw [if_pos hlen]
  exact Accepts.some (halike u)

theorem behind_function (hf : s'.isFunction = true) : ∃ sig, s'.signature? = some sig ∧ ∀ e, b.Alike ⟨e, sig, false⟩ := by
  obtain ⟨sig, varying, hbehind, halike⟩ := behind_alike hb h
  cases s' with
  | function =>
    cases hbehind
    exact ⟨_, rfl, halike⟩
  | _ => cases hf

end

end

/-- What checks give of a child that a node may do without. -/
inductive MaybeTwins : Option Expr → Option Expr → Option Expr → Prop
  | none : MaybeTwins none none none
  | some {c d u : Expr} (twins : Twins c d u) : MaybeTwins (some c) (some d) (some u)

section
variable {c : Expr} {cs ds us : List Expr} {ts : List Ty} {cn dn un : Option Expr} {b : Callee} (has : AllTwins cs ds us)
  (hts : ds.map type? = ts.map some) (hclosed : ∀ c ∈ cs, c.isOpen = false) (hcount : MaybeTwins cn dn un)
  (hopen : ∀ c, cn = some c → c.isOpen = false)
include has hts hclosed hcount hopen

/-- What a callee takes, it takes of folded arguments. -/
theorem applyCallee_follows (m : Node) (launch : Bool) (sig : Option Signature) :
    Yields T (applyCallee n b ds launch dn) fun r => r.outline = (Expr.call m c cs launch cn sig).outline →
      b.expr.outline = c.outline ∧ Ty.AllTaken ts b.signature.parameters ∧
        ∀ b', b.Alike b' → Accepts T (applyCallee n' b' us launch un) r.Resembles := by
  have finished : ∀ {b' : Callee} {as as' : List Expr} {k k' : Option Expr}, b.Alike b' →
      (finishCall n b as launch k).Resembles (finishCall n' b' as' launch k') := fun hb =>
    .of_nodes rfl rfl (Ty.relaxed_of_outline hb.resultType) rfl rfl rfl rfl
  unfold applyCallee
  split
  · exact Yields.reject _ _
  rename_i hproblem
  refine Yields.bind (convertArguments_taken has hts hclosed) (fun as htaken => ?_) Yields.none
  dsimp only
  cases launch with
  | false =>
    rw [if_neg Bool.false_ne_true]
    refine Yields.some fun hout => ?_
    simp only [finishCall, outline, call.injEq, outlineEach_eq] at hout
    have htaken := htaken hout.2.2.1
    refine ⟨hout.2.1, htaken, fun b' hb => ?_⟩
    rw [hb.launchProblem hproblem]
    refine Accepts.bind (convertArguments_accepts has hts htaken (Signature.mk.inj hb.signature).2.1) fun as' _ => ?_
    dsimp only
    rw [if_neg Bool.false_ne_true]
    exact Accepts.some (finished hb)
  | true =>
    rw [if_pos rfl]
    cases hcount with
    | none =>
      -- a call that launches tasks counts them
      refine Yields.bind (launchCount_converted n fun _ h => by cases h) (fun k _ => Yields.some fun hout => ?_) Yields.none
      simp only [finishCall, outline, call.injEq, outlineOf_eq] at hout
      cases hout.2.2.2.2.1
    | @some cn dn un twins =>
      obtain ⟨w, hw⟩ := twins.typed
      unfold launchCount
      simp only [pure_bind]
      refine Yields.bind (twins.fills hw (hopen cn rfl) _ _) (fun k hk => Yields.some fun hout => ?_) Yields.none
      simp only [finishCall, outline, call.injEq, outlineEach_eq, outlineOf_eq, Option.map_some, Option.some.injEq] at hout
      have htaken := htaken hout.2.2.1
      refine ⟨hout.2.1, htaken, fun b' hb => ?_⟩
      rw [hb.launchProblem hproblem]
      refine Accepts.bind (convertArguments_accepts has hts htaken (Signature.mk.inj hb.signature).2.1) fun as' _ => ?_
      dsimp only
      rw [if_pos trivial]
      refine Accepts.bind (twins.converts hw (hk hout.2.2.2.2.1) rfl _) fun k' _ => ?_
      exact Accepts.some (finished hb)

omit has hts hclosed hcount hopen in
theorem checkCall_value {P : Check (Option Expr) → Prop} {e : Expr} {xs : List Expr} {launch : Bool} {k : Option Expr}
    (he : ¬ e.isFunctionName = true) (h : ∀ next : Option Callee → Check (Option Expr), next none = pure none →
      (∀ b, next (some b) = applyCallee n b xs launch k) → P (calledByValue n e xs >>= next)) : P (checkCall n e xs launch k) := by
  unfold checkCall
  cases e with
  | function => exact absurd rfl he
  | _ => exact h _ rfl fun _ => rfl

theorem checkCall_follows {d u : Expr} {m : Node} {launch : Bool} {sig : Option Signature} (h : Twins c d u) :
    Yields T (checkCall n d ds launch dn) fun r => r.outline = (Expr.call m c cs launch cn sig).outline →
      Accepts T (checkCall n' u us launch un) r.Resembles := by
  have hus := has.determined
  obtain ⟨ts', hts', hall⟩ := has.types hts
  obtain ⟨s, hs⟩ := h.typed
  obtain ⟨s', hs', hrs⟩ := h.resembles.type hs
  by_cases hname : d.isFunctionName = true
  · -- a name stands for itself, and for the function that it remembers
    obtain rfl : u = d := h.resembles.name_kept hname
    cases u with
    | function f =>
      obtain ⟨hknown, hfun⟩ := h.resembles.determined.name_known hs
      unfold checkCall
      refine Yields.bind (calledByName_remembers hknown hs ds) (fun b hb => ?_) Yields.none
      obtain ⟨f', sig', rfl, hremembers⟩ := hb
      refine Yields.mono (applyCallee_follows (c := c) n' has hts hclosed hcount hopen m launch sig) fun r hr hout => ?_
      obtain ⟨hexpr, -, haccepts⟩ := hr hout
      have hf : (Expr.function f').outline = (Expr.function f).outline :=
        hexpr.trans (h.redrawn.outline_eq hs (by cases s <;> first | rfl | cases hfun)).symm
      obtain ⟨f'', hf'', -, hchoice⟩ := function_of_outline hf rfl
      cases hf''
      obtain ⟨hchosen, hsig⟩ := hremembers hchoice
      refine Accepts.bind (calledByName_accepts hknown hs hsig hus hts' (.inl hchosen)) fun b' hb' => ?_
      obtain ⟨g, rfl⟩ := hb'
      exact haccepts _ ⟨rfl, rfl⟩
    | _ => cases hname
  · refine checkCall_value (P := (Yields T · _)) hname fun next hnone hnext => ?_
    refine Yields.bind (calledByValue_yields hs) (fun b hb => ?_) (by rw [hnone]; exact Yields.none)
    obtain ⟨hbehind, -, hlen⟩ := hb
    rw [hnext]
    refine Yields.mono (applyCallee_follows (c := c) n' has hts hclosed hcount hopen m launch sig) fun r hr hout => ?_
    obtain ⟨-, htaken, haccepts⟩ := hr hout
    have hlist : s.isList = false := by
      cases s with
      | list => cases hbehind
      | _ => rfl
    have hlen' : b.signature.parameters.length = us.length := hlen.trans has.length_eq
    by_cases hu : u.isFunctionName = true
    · cases u with
      | function f =>
        obtain ⟨hknown, hfun⟩ := h.resembles.determined.name_known hs'
        obtain ⟨sig', hsig, halike⟩ := behind_function hbehind (Ty.rvalue_of_relaxed hrs hlist) hfun
        have hps := (Signature.mk.inj (halike d).signature).2.1
        have hn : sig'.parameters.length = us.length := by
          rw [← hlen']
          simpa using congrArg List.length hps
        unfold checkCall
        refine Accepts.bind (calledByName_accepts hknown hs' hsig hus hts' (.inr ⟨hn, htaken.congr hall hps⟩)) fun b' hb' => ?_
        obtain ⟨f', rfl⟩ := hb'
        exact haccepts _ (halike _)
      | _ => cases hu
    · refine checkCall_value (P := (Accepts T · _)) hu fun next _ hnext => ?_
      refine Accepts.bind (calledByValue_accepts n' hbehind (Ty.rvalue_of_relaxed hrs hlist) hs' hlen') fun b' hb' => ?_
      rw [hnext]
      exact haccepts b' hb'

end

end Check

end Spmd
