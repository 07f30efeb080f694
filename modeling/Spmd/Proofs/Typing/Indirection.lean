import Spmd.Proofs.Session.Pairs
import Spmd.Proofs.Typing.Acceptance
import Spmd.Proofs.Typing.Prepared
import Spmd.Proofs.Typing.Program

/-!
# Calls by name and calls through a pointer

A name that stands for one function only can be replaced by a pointer to that function: both calls are refused, or both are
accepted with the same type and the same converted arguments (`typecheck_calls_alike`). The call by name settles on its function
first, by the types of the arguments, and converts them then, as the call through the pointer does right away.
-/

namespace Spmd

namespace Expr

/-- Both calls are refused, or both are accepted and differ in nothing but what is called. -/
inductive SameCall : Option Expr → Option Expr → Prop
  | refused : SameCall none none
  | accepted (node : Node) (callee callee' : Expr) (args : List Expr) (launch : Bool) (count : Option Expr)
      (signature : Option Signature) :
      SameCall (some (.call node callee args launch count signature)) (some (.call node callee' args launch count signature))

/-- An expression that was checked, in which only known names wait for a function. -/
structure Pending (T : Target) (e : Expr) : Prop where
  operand : Operand T e
  waiting : Waiting (fun _ f => Known f.settleType) none e

variable {T : Target}

theorem Operand.typed {a : Expr} (h : Operand T a) (hname : ∀ f, a = .function f → f.isResolved = true) :
    ∃ t, a.type? = some t := by
  cases h with
  | @name f known =>
    obtain ⟨s, hs⟩ := Option.isSome_iff_exists.mp (hname f rfl)
    exact ⟨s.type, known.type_eq.trans (by rw [hs]; rfl)⟩
  | list type_eq => exact ⟨_, type_eq⟩
  | checked checked => exact checked.typed.imp fun _ => And.left

end Expr

namespace Check

open Spmd.Expr

variable {T : Target} {f : FunctionName} {s : Symbol} {sig : Signature} {args : List Expr} {ts : List Ty} {node : Node}
  {launch : Bool} {count : Option Expr}

/-! ## The called function -/

/-- A name that no function was picked for settles on the only candidate, if that takes the arguments. -/
theorem resolve_single_meets (hf : Fresh f) (hone : f.candidates = [s]) (arguments : List Argument) :
    Meets T (f.resolve arguments) fun r _ =>
      r.1 = if s.takes Ty.matchesExactly arguments || s.takes (Ty.converts false) arguments then some s else none := by
  have hopen : (f.choice.chosen.isSome || f.choice.attempted) = false := by rw [hf.choice_eq]; rfl
  unfold FunctionName.resolve
  rw [if_neg (by rw [hopen]; exact Bool.false_ne_true), hone, resolve_single]
  cases s.takes Ty.matchesExactly arguments || s.takes (Ty.converts false) arguments with
  | true => exact Meets.bind (note_meets _) fun _ _ _ => Meets.pure rfl
  | false => exact Meets.bind (note_meets _) fun _ _ _ => Meets.bind (report_meets _ _) fun _ _ _ => Meets.pure rfl

theorem resolvedAll_resolved {args : List Expr} (h : ∀ a ∈ args, ∀ f, a = .function f → f.isResolved = true) :
    resolvedAll args = pure true := by
  induction args with
  | nil => rfl
  | cons a as ih =>
    have hfirst : resolved (some a) = pure (some a) := by
      unfold resolved
      split
      · rename_i f hf
        cases hf
        rw [if_pos (h _ List.mem_cons_self f rfl)]
      · rfl
    rw [resolvedAll, hfirst, ih fun c hc => h c (List.mem_cons_of_mem _ hc)]
    rfl

/-- A call by the name of a single function is a call of that function, if it takes the arguments. -/
theorem calledByName_single (hf : Fresh f) (hone : f.candidates = [s]) (hs : s.signature? = some sig)
    (hargs : ∀ a ∈ args, ∀ f, a = .function f → f.isResolved = true) (hts : typesOf args = .ok ts) :
    Meets T (calledByName f args) fun o _ => (∃ f', o = some ⟨.function f', sig, false⟩) ∨
      o = none ∧ s.takes (Ty.converts false) (Argument.ofTypes ts (args.map isZeroConstant)) = false := by
  unfold calledByName
  rw [resolvedAll_resolved hargs]
  simp only [pure_bind, Bool.not_true, Bool.false_eq_true, if_false, hts, lift_ok]
  refine Meets.bind (resolve_single_meets hf hone _) fun r _ hr => ?_
  obtain ⟨found, f'⟩ := r
  dsimp only at hr ⊢
  split at hr
  · subst hr
    simp only [Option.bind_some, hs]
    exact Meets.pure (.inl ⟨f', rfl⟩)
  · rename_i hno
    subst hr
    exact Meets.pure (.inr ⟨rfl, (Bool.or_eq_false_iff.mp (Bool.not_eq_true _ ▸ hno)).2⟩)

/-- A call by the name of a single function has as many arguments as that function has parameters. -/
theorem calledByName_count (hf : Fresh f) (hone : f.candidates = [s]) (hs : s.signature? = some sig)
    (hargs : ∀ a ∈ args, Operand T a) : Yields T (calledByName f args) fun _ => sig.parameters.length = args.length := by
  have hcount := (calledByName_delivers hargs hf.toKnown (hf.takes _)).yields
  have hsignature : Yields T (calledByName f args) fun c => c.signature = sig := ?_
  · exact Yields.mono (Yields.and hcount hsignature) fun c h => h.2 ▸ h.1.count_eq
  unfold calledByName
  refine Gives.bind (Meets.gives (resolvedAll_meets hargs)) fun b _ => ?_
  split
  · exact Yields.none
  · refine Gives.lift fun ts _ => Gives.bind (Meets.gives (resolve_single_meets hf hone _)) fun r hr => ?_
    obtain ⟨found, f'⟩ := r
    obtain ⟨-, hr⟩ := hr
    dsimp only at hr ⊢
    split at hr
    · subst hr
      simp only [Option.bind_some, hs]
      exact Yields.some rfl
    · subst hr
      exact Yields.none

/-! ## The call itself -/

/-- Where the function is known, it does not matter how it was reached. -/
theorem applyCallee_alike (callee callee' : Expr) (varying : Bool) (hargs : ∀ a ∈ args, Pending T a)
    (hcount : ∀ n ∈ count, Pending T n) (hn : sig.parameters.length = args.length) (hps : ∀ p ∈ sig.parameters, p.Legal) :
    Pairs T (applyCallee node ⟨callee, sig, varying⟩ args launch count) (applyCallee node ⟨callee', sig, varying⟩ args launch count)
      SameCall := by
  have harguments := Pairs.same (T := T) (convertArguments_secluded known_lawful (fun a ha => (hargs a ha).waiting) sig.parameters)
    rfl (convertArguments_delivers (fun a ha => (hargs a ha).operand) hn hps)
  have hleaves : Leaves T _ none (launchCount node count) := launchCount_leaves known_lawful fun n hn => (hcount n hn).waiting
  have hlaunch := Pairs.same hleaves rfl (launchCount_delivers node fun n hn => (hcount n hn).operand)
  unfold applyCallee launchProblem?
  dsimp only
  cases sig.isTask <;> cases launch
  · refine Pairs.bind harguments fun o o' ho => ?_
    obtain ⟨rfl, -⟩ := ho
    cases o with
    | none => exact Pairs.pure .refused
    | some as => exact Pairs.pure (.accepted ..)
  · exact Pairs.reject .refused
  · exact Pairs.reject .refused
  · refine Pairs.bind harguments fun o o' ho => ?_
    obtain ⟨rfl, -⟩ := ho
    cases o with
    | none => exact Pairs.pure .refused
    | some as =>
      refine Pairs.bind hlaunch fun n n' hn => ?_
      obtain ⟨rfl, -⟩ := hn
      cases n with
      | none => exact Pairs.pure .refused
      | some n => exact Pairs.pure (.accepted ..)

theorem applyCallee_refused (callee : Callee) (h : Yields T (convertArguments args callee.signature.parameters) fun _ => False) :
    Yields T (applyCallee node callee args launch count) fun _ => False := by
  unfold applyCallee
  split
  · exact Yields.reject _ _
  · exact Yields.bind h (fun _ hf => hf.elim) Yields.none

theorem calledByValue_pointer {n : Node} {fp : Symbol} {k : Bool} {o : Origin} (hs : s.signature? = some sig)
    (hn : n.type = some fp.type) (hfp : fp.type = .pointer s.type ⟨.uniform, k⟩ o) :
    calledByValue node (.symbol n fp) args =
      if sig.parameters.length = args.length then pure (some ⟨.symbol n fp, sig, false⟩)
      else reject node.place (.argumentCount sig args.length) := by
  have hbehind : signatureBehind? fp.type.rvalue = some (sig, false) := by
    rw [hfp]
    unfold Symbol.signature? at hs
    cases hst : s.type with
    | function r ps task o' =>
      rw [hst] at hs
      cases hs
      rfl
    | _ => rw [hst] at hs; cases hs
  unfold calledByValue
  rw [type_ok (e := .symbol n fp) hn]
  simp only [lift_ok, pure_bind, hbehind]

theorem checkCall_alike {n : Node} {fp : Symbol} {k : Bool} {o : Origin} (hf : Fresh f) (hone : f.candidates = [s])
    (hs : s.signature? = some sig) (hn : n.type = some fp.type) (hfp : fp.type = .pointer s.type ⟨.uniform, k⟩ o)
    (hc : Checked T (.symbol n fp)) (hargs : ∀ a ∈ args, Pending T a) (hcount : ∀ n ∈ count, Pending T n)
    (hpassed : ∀ q ∈ args.zip sig.parameters, Passed q.1 q.2) :
    Pairs T (checkCall node (.function f) args launch count) (checkCall node (.symbol n fp) args launch count) SameCall := by
  have hoperands : ∀ a ∈ args, Operand T a := fun a ha => (hargs a ha).operand
  have hcallable : Delivers T (calledByValue node (.symbol n fp) args) (Callable T args.length) := calledByValue_delivers node hc
  unfold checkCall
  dsimp only
  rw [calledByValue_pointer hs hn hfp] at hcallable ⊢
  by_cases hlen : sig.parameters.length = args.length
  · rw [if_pos hlen] at hcallable ⊢
    have hnames : ∀ a ∈ args, ∀ f, a = .function f → f.isResolved = true := by
      intro a ha
      obtain ⟨i, hi, rfl⟩ := List.mem_iff_getElem.mp ha
      have hzip : i < (args.zip sig.parameters).length := by rw [List.length_zip]; omega
      have hmem := List.getElem_mem hzip
      rw [List.getElem_zip] at hmem
      exact (hpassed _ hmem).named
    obtain ⟨ts, hts, hmap⟩ := typesOf_ok fun a ha => (hoperands a ha).typed (hnames a ha)
    have hcallee : Callable T args.length ⟨.symbol n fp, sig, false⟩ :=
      (Delivers.yields hcallable { target := T } rfl _ _ rfl).1 _ rfl
    have hsettled := calledByName_single (T := T) hf hone hs hnames hts
    have hvalue : Meets T (pure (some ⟨.symbol n fp, sig, false⟩)) fun c _ => c = some (⟨.symbol n fp, sig, false⟩ : Callee) :=
      Meets.pure rfl
    refine Pairs.bind (Pairs.of_meets hsettled hvalue fun _ _ h h' => And.intro h h') fun c c' h => ?_
    obtain ⟨⟨-, hc⟩, -, rfl⟩ := h
    rcases hc with ⟨f', rfl⟩ | ⟨rfl, hno⟩
    · exact applyCallee_alike _ _ false hargs hcount hlen hcallee.parameters
    · have hstuck : Yields T (convertArguments args sig.parameters) fun _ => False :=
        Yields.mono (convertArguments_takes hoperands hmap hs hlen hcallee.parameters hpassed) fun _ h => by
          rw [hno] at h
          cases h
      have hrefused := Delivers.refused
        (applyCallee_delivers hoperands node hcallee launch fun n hn => (hcount n hn).operand) (applyCallee_refused _ hstuck)
      exact Pairs.of_meets (Meets.pure (Q := fun o _ => o = none) rfl) hrefused fun _ _ ho ho' => by
        obtain ⟨-, rfl⟩ := ho
        obtain ⟨-, rfl⟩ := ho'
        exact .refused
  · rw [if_neg hlen]
    -- neither is called with another number of arguments
    have hnone := Delivers.refused (calledByName_delivers hoperands hf.toKnown (hf.takes _))
      (Yields.mono (calledByName_count hf hone hs hoperands) fun _ h => hlen h)
    have hneither := Delivers.refused (T := T) (P := fun _ : Callee => False) (Delivers.reject node.place (.argumentCount sig args.length))
      (Yields.reject _ _)
    refine Pairs.bind (Pairs.of_meets hnone hneither fun _ _ h h' => And.intro h h') fun c c' h => ?_
    obtain ⟨⟨-, rfl⟩, -, rfl⟩ := h
    exact Pairs.pure .refused

/-! ## Checked trees -/

/-- Checking a tree has one result in all sessions with the target. -/
theorem check_pairs {e : Expr} (h : Everywhere (Prepared T) e) :
    Pairs T (check e) (check e) fun r r' => r = r' ∧ ∀ c ∈ r, Pending T c := by
  have hlawful := check_leaves (T := T) (k := none) known_lawful fun u hu => uses_everywhere h hu
  refine Pairs.mono (Pairs.same hlawful rfl (check_delivers h)) fun r r' hr => ?_
  obtain ⟨hsame, hwaiting, ⟨new, ho⟩, -⟩ := hr
  refine ⟨hsame, fun c hc => ?_⟩
  cases hc
  exact ⟨ho.2, hwaiting c rfl⟩

theorem resolved_plain {d : Expr} (h : d.isFunctionName = false) : resolved (some d) = pure (some d) := by
  cases d with
  | function => cases h
  | _ => rfl

theorem typecheck_pairs {e : Expr} {P : Expr → Prop} (h : Everywhere (Prepared T) e) (hP : Yields T (typecheck e) P) :
    Pairs T (typecheck e) (typecheck e) fun r r' => r = r' ∧ ∀ c ∈ r, (Operand T c ∧ ∃ t, c.type? = some t) ∧ P c := by
  have hlawful := typecheck_leaves (T := T) (P := fun _ f => Known f.settleType) known_lawful fun u hu => uses_everywhere h hu
  refine Pairs.mono (Pairs.same hlawful rfl (needed_delivers (check_delivers h))) fun r r' hr => ?_
  obtain ⟨hsame, -, ⟨new, ho⟩, s, s', hs, hrun⟩ := hr
  refine ⟨hsame, fun c hc => ?_⟩
  cases hc
  exact ⟨ho.2, (hP s hs _ _ hrun).1 c rfl⟩

theorem checkEach_pairs {es : List Expr} (h : ∀ e ∈ es, Everywhere (Prepared T) e) :
    Pairs T (checkEach false es) (checkEach false es) fun r r' => r = r' ∧ ∀ rs, r = some rs →
      (∀ c ∈ rs, Pending T c) ∧ ∃ s s' : Session, s.target = T ∧ (checkEach false es).run s = (.ok (some rs), s') := by
  have hlawful : Secluded (onNames T fun _ f => Known f.settleType) (checkEach false es) fun o =>
      ∀ rs ∈ o, List.Forall₂ (fun _ r => Waiting (fun _ f => Known f.settleType) none r) es rs :=
    (Secluded.law _).checkEach false fun e he => check_leaves known_lawful fun u hu => uses_everywhere (h e he) hu
  have hdelivers := (Delivers.law T).checkEach false fun e he => check_delivers (h e he)
  refine Pairs.mono (Pairs.same hlawful rfl hdelivers) fun r r' hr => ?_
  obtain ⟨hsame, hwaiting, ⟨new, ho⟩, s, s', hs, hrun⟩ := hr
  refine ⟨hsame, fun rs hrs => ?_⟩
  subst hrs
  refine ⟨fun c hc => ?_, s, s', hs, hrun⟩
  obtain ⟨_, -, hoperand⟩ := Forall₂.exists_of_mem ho.2 hc
  obtain ⟨_, -, hwaits⟩ := Forall₂.exists_of_mem (hwaiting rs rfl) hc
  exact ⟨hoperand, hwaits⟩

/-- What is asked of the arguments of a call: checked in any session, each is passed for its parameter as its type says. -/
def PassedFor (T : Target) (args : List Expr) (parameters : List Ty) : Prop :=
  ∀ (s s' : Session) (as : List Expr), s.target = T → (checkEach false args).run s = (.ok (some as), s') →
    ∀ q ∈ as.zip parameters, Passed q.1 q.2

theorem check_calls_alike {n : Node} {fp : Symbol} {k : Bool} {o : Origin} {called : Option Signature}
    (hcall : Everywhere (Loaded T) (.call node (.function f) args launch count called)) (hpointer : (Expr.symbol n fp).Loaded T)
    (hone : f.candidates = [s]) (hs : s.signature? = some sig) (hfp : fp.type = .pointer s.type ⟨.uniform, k⟩ o)
    (hpassed : PassedFor T args sig.parameters) :
    Pairs T (check (.call node (.function f) args launch count called)) (check (.call node (.symbol n fp) args launch count called))
      SameCall := by
  have child : ∀ c ∈ (Expr.call node (.function f) args launch count called).children, Everywhere (Prepared T) c :=
    fun c hc => prepared_of_loaded (hcall.child hc)
  have hfresh : Fresh f.settleType := settle_fresh (hcall.child (by simp [children])).here
  have hcallee : Pairs T (check (.function f)) (check (.symbol n fp)) fun c c' =>
      c = some (.function f.settleType) ∧ c' = some (.symbol n fp) := by
    rw [check, check]
    have hname : Meets T (f.settleType.note >>= fun _ => return some (.function f.settleType)) fun c _ =>
        c = some (Expr.function f.settleType) := Meets.bind (note_meets _) fun _ _ _ => Meets.pure rfl
    have hsymbol : Meets T (return some (.symbol n fp)) fun c _ => c = some (Expr.symbol n fp) := Meets.pure rfl
    refine Pairs.of_meets hname hsymbol fun c c' h h' => ?_
    obtain ⟨⟨-, rfl⟩, -, rfl⟩ := And.intro h h'
    exact ⟨rfl, rfl⟩
  have hargs : ∀ a ∈ args, Everywhere (Prepared T) a := fun a ha => child a (by simp [children, ha])
  have apply : ∀ as ns, (∀ a ∈ as, Pending T a) → (∀ m ∈ ns, Pending T m) →
      (∃ s s' : Session, s.target = T ∧ (checkEach false args).run s = (.ok (some as), s')) →
      Pairs T (checkCall node (.function f.settleType) as launch ns) (checkCall node (.symbol n fp) as launch ns) SameCall := by
    intro as ns has hns hran
    obtain ⟨t, t', ht, hrun⟩ := hran
    refine checkCall_alike hfresh (by simpa using hone) hs (hpointer.1) hfp ?_ has hns (hpassed t t' as ht hrun)
    exact Checked.leaf ⟨⟨_, hpointer.1, hpointer.2.legal⟩, trivial, hpointer⟩ rfl
  -- both checks go over callee, arguments and count; only the callees differ
  rw [check.eq_def, check.eq_def (.call node (.symbol n fp) args launch count called)]
  dsimp only
  refine Pairs.bind hcallee fun c c' hc => ?_
  obtain ⟨rfl, rfl⟩ := hc
  refine Pairs.bind (checkEach_pairs hargs) fun as as' has => ?_
  obtain ⟨rfl, has⟩ := has
  cases count with
  | none =>
    simp only [pure_bind]
    cases as with
    | none => exact Pairs.pure .refused
    | some as => exact apply as none (has as rfl).1 (fun _ hm => by cases hm) (has as rfl).2
  | some m =>
    simp only [pure_bind]
    refine Pairs.bind (check_pairs (child m (by simp [children]))) fun m' m'' hm => ?_
    obtain ⟨rfl, hm⟩ := hm
    cases as with
    | none => cases m' <;> exact Pairs.pure .refused
    | some as =>
      cases m' with
      | none => exact Pairs.pure .refused
      | some m' => exact apply as (some m') (has as rfl).1 (fun _ h => by cases h; exact hm m' rfl) (has as rfl).2

end Check

/-- Calling the only function of a name is like calling it through a uniform pointer: in all sessions with the target, both calls
are refused, or both are accepted with the same type, the same converted arguments and the same number of tasks. -/
theorem typecheck_calls_alike {T : Target} {node n : Node} {f : FunctionName} {s fp : Symbol} {sig : Signature} {k : Bool}
    {o : Origin} {args : List Expr} {launch : Bool} {count : Option Expr} {called : Option Signature}
    (hcall : Expr.Everywhere (Expr.Loaded T) (.call node (.function f) args launch count called))
    (hpointer : (Expr.symbol n fp).Loaded T) (hone : f.candidates = [s]) (hs : s.signature? = some sig)
    (hfp : fp.type = .pointer s.type ⟨.uniform, k⟩ o) (hargs : Check.PassedFor T args sig.parameters) :
    Check.Pairs T (Check.typecheck (.call node (.function f) args launch count called))
      (Check.typecheck (.call node (.symbol n fp) args launch count called)) Expr.SameCall := by
  refine Check.Pairs.bind (Check.check_calls_alike hcall hpointer hone hs hfp hargs) fun r r' h => ?_
  -- a call has a type
  cases h with
  | refused => exact Check.Pairs.pure .refused
  | accepted => exact Check.Pairs.pure (.accepted ..)

/-! ## Calls in a program -/

/-- The calls of `f` and of `p` with some arguments, where `f` is a function without a result and `p` points to it, in a program
with other symbols. -/
def procedureCallsJson (parameters : List Json) (others : List (String × Json)) (args : List Json) : Json :=
  let symbol (s : String × Json) : Json := .object [("name", .string s.1), ("type", s.2)]
  let call (name : String) : Json := .object [("call", .object [("symbol", .string name)]), ("args", .array args)]
  let f := functionJson "void" parameters
  .object [("symbols", .array ([symbol ("f", f), symbol ("p", .object [("pointer", f)])] ++ others.map symbol)),
    ("expressions", .array [call "f", call "p"])]

def procedurePointer (parameters : List Ty) : Symbol :=
  ⟨"p", .pointer (.function .void parameters false) {}, .local, none, none⟩

def namedCall (parameters : List Ty) (args : List Expr) : Expr :=
  .call {} (.function { node := {}, name := "f", candidates := [procedure parameters] }) args false none none

def pointedCall (parameters : List Ty) (args : List Expr) : Expr :=
  .call {} (.symbol (.typed none (procedurePointer parameters).type) (procedurePointer parameters)) args false none none

/-- The calls `f(1)` and `p(1)`, with a parameter of type `int64`. -/
theorem wideningCalls_read : ∃ scope, Program.read .standard "program"
    (some (procedureCallsJson [.string "int64"] [] [oneJson])) =
      .ok ⟨scope, [namedCall [.basic .int64] [one], pointedCall [.basic .int64] [one]]⟩ := ⟨_, rfl⟩

theorem typecheck_calls_alike_widening : Check.Pairs .standard (Check.typecheck (namedCall [.basic .int64] [one]))
    (Check.typecheck (pointedCall [.basic .int64] [one])) Expr.SameCall := by
  obtain ⟨scope, hread⟩ := wideningCalls_read
  have hnamed := Program.loaded hread (List.mem_cons_self ..)
  have hpointed := Program.loaded hread (List.mem_cons_of_mem _ (List.mem_singleton_self _))
  have hargs : Check.PassedFor .standard [one] [.basic .int64] := by
    intro s s' as _ hrun q hq
    have hone : (Check.checkEach false [one]).run s = (.ok (some [one]), s) := by
      simp only [one, Check.checkEach, Check.check]
      rfl
    rw [hone] at hrun
    cases hrun
    obtain rfl : q = (one, .basic .int64) := List.mem_singleton.mp hq
    refine ⟨fun f hf => ?_, fun hn => ?_, fun t o ht => ?_⟩
    · cases hf
    · cases hn
    · cases ht
  exact typecheck_calls_alike hnamed (hpointed.child (List.mem_cons_self ..)).here rfl rfl rfl hargs

/-- The call by name is refused, and the call through the pointer is accepted. -/
def CalledUnlike (parameters : List Ty) (args : List Expr) : Prop :=
  ((Check.typecheck (namedCall parameters args)).run { target := .standard }).1 = .ok none ∧
    ∃ t, ((Check.typecheck (pointedCall parameters args)).run { target := .standard }).1 = .ok (some t)

/-- A function that returns an `int32`. -/
def getter : Ty := .function .int32 [] false

/-- One of two functions `x`, `int32()` and `int32(int32)`. -/
def overloadedName : Expr :=
  .function { node := {}, name := "x", candidates := [⟨"x", getter, .function, none, none⟩,
      ⟨"x", .function .int32 [.int32] false, .function, none, none⟩] }

/-- The calls `f(x)` and `p(x)`, where two functions are named `x`. -/
def overloadedCallsJson : Json :=
  procedureCallsJson [.object [("pointer", functionJson "int32" [])]]
    [("x", functionJson "int32" []), ("x", functionJson "int32" [.string "int32"])] [.object [("symbol", .string "x")]]

/-- The calls `f(NULL)` and `p(NULL)`, with a parameter that points to an `int32`. -/
def nullCallsJson : Json :=
  procedureCallsJson [.object [("pointer", .string "int32")]] [] [.object [("null", .bool true)]]

/-- The calls `f(1, x)` and `p(1, x)`, where the parameters are an `int64` and a function, and `x` refers to a function. -/
def referenceCallsJson : Json :=
  procedureCallsJson [.string "int64", functionJson "int32" []] [("x", .object [("reference", functionJson "int32" [])])]
    [oneJson, .object [("symbol", .string "x")]]

def functionReference : Expr :=
  .symbol (.typed none (.reference getter)) ⟨"x", .reference getter, .local, none, none⟩

theorem calls_unlike :
    (∃ scope, Program.read .standard "program" (some overloadedCallsJson) =
        .ok ⟨scope, [namedCall [.pointer getter {}] [overloadedName], pointedCall [.pointer getter {}] [overloadedName]]⟩ ∧
      CalledUnlike [.pointer getter {}] [overloadedName]) ∧
    (∃ scope, Program.read .standard "program" (some nullCallsJson) =
        .ok ⟨scope, [namedCall [.pointer .int32 {}] [.null (.typed none .voidPointer)],
          pointedCall [.pointer .int32 {}] [.null (.typed none .voidPointer)]]⟩ ∧
      CalledUnlike [.pointer .int32 {}] [.null (.typed none .voidPointer)]) ∧
    ∃ scope, Program.read .standard "program" (some referenceCallsJson) =
        .ok ⟨scope, [namedCall [.basic .int64, getter] [one, functionReference],
          pointedCall [.basic .int64, getter] [one, functionReference]]⟩ ∧
      CalledUnlike [.basic .int64, getter] [one, functionReference] :=
  ⟨⟨_, rfl, rfl, _, rfl⟩, ⟨_, rfl, rfl, _, rfl⟩, ⟨_, rfl, rfl, _, rfl⟩⟩

end Spmd
