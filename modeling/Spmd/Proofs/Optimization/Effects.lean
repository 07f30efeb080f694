import Spmd.Proofs.Code.Performed
import Spmd.Proofs.Optimization.Program
import Spmd.Proofs.Optimization.Steady
import Spmd.Proofs.WellTyped.Check

/-!
# The optimizer keeps effects

The optimizer neither adds nor reorders effects. It drops those of a branch that a selection with a known test does not
choose, and no others (`Check.optimize_faithful`).
-/

namespace Spmd

namespace Check

/-! ## Known tests -/

/-- The truth value that a test has in all lanes once it is optimized. -/
def foldedTest (test : Expr) : Option Bool := (optimized? test).bind decision

end Check

namespace Expr

open Check

variable {T : Target} {told : Bool} {decided : Expr → Option Bool} {e o : Expr} {t : Ty}

theorem effects_of_constant (h : e.constant?.isSome = true) : e.effects told decided = [] := by
  cases e with
  | const => rfl
  | _ => cases h

theorem ready_of_constant (h : e.constant?.isSome = true) : Everywhere (Ready told) e := by
  cases e with
  | const => exact .leaf trivial rfl
  | _ => cases h

/-! ## Trees with the same effects -/

/-- A checked tree that can stand for another: code can be emitted for it, with the effects that remain of those of the other
one. It denotes storage where that does, unless that is a scalar variable. -/
structure Faithful (T : Target) (told : Bool) (e o : Expr) : Prop extends Refined T e o where
  ready : Everywhere (Ready told) o
  effects_eq : o.effects told (fun _ => none) = e.effects told foldedTest
  storage : e.denotesStorage = true → o.denotesStorage = true ∨ isSymbol e = true ∧ ∃ s, e.type? = some (.scalar s)

theorem Refined.isReference_eq (h : Refined T e o) : o.isReference = e.isReference := by
  obtain ⟨t, ht⟩ := h.typed
  rw [(h.alike t ht).isReference_eq, Expr.isReference_eq ht]

theorem Refined.isVarying_eq (h : Refined T e o) : o.isVarying = e.isVarying := by
  obtain ⟨t, ht⟩ := h.typed
  rw [(h.alike t ht).isVarying_eq, Expr.isVarying_eq ht]

/-- What has no address denotes storage only as a reference, and stays one. -/
theorem Faithful.of_value (href : Refined T e o) (ha : e.hasAddress = false) (hr : Everywhere (Ready told) o)
    (he : o.effects told (fun _ => none) = e.effects told foldedTest) : Faithful T told e o := by
  refine ⟨href, hr, he, fun hs => .inl ?_⟩
  rw [denotesStorage, ha, Bool.false_or] at hs
  rw [denotesStorage, href.isReference_eq, hs, Bool.or_true]

theorem Faithful.of_constant (href : Refined T e o) (ha : e.hasAddress = false) (ho : o.constant?.isSome = true)
    (he : e.effects told foldedTest = []) : Faithful T told e o :=
  .of_value href ha (ready_of_constant ho) ((effects_of_constant ho).trans he.symm)

theorem Faithful.of_storage (href : Refined T e o) (hr : Everywhere (Ready told) o)
    (he : o.effects told (fun _ => none) = e.effects told foldedTest)
    (hs : e.denotesStorage = true → o.denotesStorage = true) : Faithful T told e o :=
  ⟨href, hr, he, fun h => .inl (hs h)⟩

theorem Faithful.refl (h : Checked T e) (hr : Everywhere (Ready told) e)
    (he : e.effects told (fun _ => none) = e.effects told foldedTest) : Faithful T told e e :=
  .of_storage (Refined.refl h) hr he id

end Expr

namespace Check

open Spmd.Expr

variable {T U : Target} {told : Bool} {node : Node}

/-! ## Forms -/

theorem symbol_refl {c : Expr} (hc : Checked T c) (h : isSymbol c = true) : Faithful T told c c := by
  cases c with
  | symbol => exact .refl hc (.leaf trivial rfl) rfl
  | _ => cases h

/-- An operand of which the storage counts still denotes storage. -/
structure Stands (T : Target) (told : Bool) (c c' : Expr) : Prop extends Faithful T told c c' where
  stands : c.denotesStorage = true → c'.denotesStorage = true

theorem Stands.isStorage {c c' : Expr} (h : Stands T told c c') (hc : Checked T c) (hs : c.isStorage = .ok true) :
    c'.isStorage = .ok true := by
  rw [hc.isStorage_eq] at hs
  rw [h.checked.isStorage_eq, h.stands (Except.ok.inj hs)]

theorem Held.stands {c c' : Expr} (hc : Checked T c) (h : Held (Faithful T told) c c') : Stands T told c c' := by
  cases h with
  | symbol hs => exact ⟨symbol_refl hc hs, id⟩
  | other hs _ h =>
    refine ⟨h, fun hstorage => ?_⟩
    rcases h.storage hstorage with hkept | ⟨hsymbol, -⟩
    · exact hkept
    · rw [hs] at hsymbol
      cases hsymbol

theorem effectsEach_eq {es es' : List Expr} (h : List.Forall₂ (Faithful T told) es es') :
    effectsEach told (fun _ => none) es' = effectsEach told foldedTest es := by
  induction h with
  | nil => rfl
  | cons hr _ ih => rw [effectsEach, effectsEach, hr.effects_eq, ih]

/-! ## Rebuilt nodes -/

theorem ready_of_faithful {es es' : List Expr} (h : List.Forall₂ (Faithful T told) es es') :
    ∀ e ∈ es', Everywhere (Ready told) e := by
  induction h with
  | nil => exact nofun
  | cons hr _ ih =>
    intro c hc
    rcases List.mem_cons.mp hc with rfl | hc
    · exact hr.ready
    · exact ih c hc

theorem effectsOf_eq {a a' : Option Expr} (h : Option.Rel (Faithful T told) a a') :
    effectsOf told (fun _ => none) a' = effectsOf told foldedTest a := by
  cases h with
  | some h => exact h.effects_eq
  | none => rfl

theorem isSome_of_rel {a a' : Option Expr} (h : Option.Rel (Faithful T told) a a') : a'.isSome = a.isSome := by
  cases h <;> rfl

theorem ready_of_rel {a a' : Option Expr} (h : Option.Rel (Faithful T told) a a') :
    ∀ c, a' = some c → Everywhere (Ready told) c := by
  cases h with
  | some h => exact fun _ hc => by cases hc; exact h.ready
  | none => exact nofun

theorem call_faithful {n' : Node} {callee callee' : Expr} {args args' : List Expr} {launch : Bool}
    {count count' : Option Expr} {signature : Option Signature}
    (hr : (Expr.call node callee args launch count signature).Ready told) (hc : Faithful T told callee callee')
    (hargs : List.Forall₂ (Faithful T told) args args') (hcount : Option.Rel (Faithful T told) count count')
    (href : Refined T (.call node callee args launch count signature) (.call n' callee' args' launch count' signature)) :
    Faithful T told (.call node callee args launch count signature) (.call n' callee' args' launch count' signature) := by
  refine .of_value href rfl (.node ((isSome_of_rel hcount).trans hr) fun c hm => ?_) ?_
  · simp only [children, List.cons_append, List.mem_cons, List.mem_append, Option.mem_toList] at hm
    rcases hm with rfl | hm | hm
    · exact hc.ready
    · exact ready_of_faithful hargs c hm
    · exact ready_of_rel hcount c hm
  · rw [effects, effects, hc.effects_eq, effectsEach_eq hargs, hargs.length_eq, hc.isVarying_eq, effectsOf_eq hcount]

theorem new_faithful {n' : Node} {allocated : Ty} {count init count' init' : Option Expr} {varying : Bool}
    (hn' : n'.type = node.type)
    (hr : (Expr.new node allocated count init varying).Ready told) (hcount : Option.Rel (Faithful T told) count count')
    (hinit : Option.Rel (Faithful T told) init init')
    (href : Refined T (.new node allocated count init varying) (.new n' allocated count' init' varying)) :
    Faithful T told (.new node allocated count init varying) (.new n' allocated count' init' varying) := by
  refine .of_value href rfl (.node ?_ fun c hm => ?_) ?_
  · obtain ⟨u, hu, hp⟩ := hr
    exact ⟨u, hn'.trans hu, hp⟩
  · simp only [children, List.mem_append, Option.mem_toList] at hm
    rcases hm with hm | hm
    · exact ready_of_rel hcount c hm
    · exact ready_of_rel hinit c hm
  · rw [effects, effects, hn', effectsOf_eq hcount, effectsOf_eq hinit, isSome_of_rel hcount, isSome_of_rel hinit]

section
variable {n' : Node} {b b' : Expr}

/-- An element of storage stays one, since no variable that has elements becomes a constant. -/
theorem index_faithful {i i' : Expr} (h : Checked T (.index node b i)) (hb : Faithful T told b b')
    (hi : Faithful T told i i') (href : Refined T (.index node b i) (.index n' b' i')) :
    Faithful T told (.index node b i) (.index n' b' i') := by
  refine .of_storage href (.two trivial rfl hb.ready hi.ready) ?_ fun hs => ?_
  · rw [effects, effects, hb.effects_eq, hi.effects_eq]
  obtain ⟨t, ht⟩ := hb.typed
  obtain ⟨t', ht', hcore⟩ := hb.type ht
  have hstored := Ty.stored_core_eq hcore
  have hbase : (t.stored.isArray = true ∨ t.stored.isVector = true) → b.denotesStorage = true → b'.denotesStorage = true := by
    intro helements hstorage
    rcases hb.storage hstorage with hkept | ⟨-, s, hscalar⟩
    · exact hkept
    · obtain rfl := Option.some.inj (ht.symm.trans hscalar)
      rcases helements with hn | hn <;> cases hn
  rw [denotesStorage, h.hasAddress_index ht] at hs
  rw [denotesStorage, href.checked.hasAddress_index ht', href.isReference_eq, Ty.isPointer_eq hstored, Ty.isArray_eq hstored,
    Ty.isVector_eq hstored]
  simp only [Bool.or_eq_true, Bool.and_eq_true] at hs ⊢
  exact hs.imp_left (Or.imp_right fun h => ⟨h.1, hbase h.1 h.2⟩)

theorem member_faithful {name : String} {arrow : Bool} {access : Option Access}
    (h : Checked T (.member node b name arrow access)) (hw : (Expr.member node b name arrow access).WellTyped)
    (hr : (Expr.member node b name arrow access).Ready told) (hn : n'.type = node.type) (hb : Faithful T told b b')
    (href : Refined T (.member node b name arrow access) (.member n' b' name arrow access)) :
    Faithful T told (.member node b name arrow access) (.member n' b' name arrow access) := by
  refine .of_storage href (.one ?_ rfl hb.ready) ?_ fun hs => ?_
  · intro indices aggregate ha hlen
    obtain ⟨t, ht, hv⟩ := hr indices aggregate ha hlen
    exact ⟨t, hn.trans ht, hv⟩
  · rw [effects, effects, hb.effects_eq]
  obtain ⟨t, aggregate, varying, x, ht, hmember, rfl, rfl, hpicked⟩ := hw
  have hbase : arrow = false → b.denotesStorage = true → b'.denotesStorage = true := by
    rintro rfl hstorage
    rcases hb.storage hstorage with hkept | ⟨-, s, hscalar⟩
    · exact hkept
    · obtain rfl := Option.some.inj (ht.symm.trans hscalar)
      obtain ⟨u, hu, -⟩ := h.typed
      have htype : node.type = some u := hu
      rw [hpicked] at htype
      cases x <;> cases hmember <;> cases htype
  rw [denotesStorage, h.hasAddress_member] at hs
  rw [denotesStorage, href.checked.hasAddress_member, href.isReference_eq]
  simp only [Bool.or_eq_true, Bool.and_eq_true] at hs ⊢
  refine hs.imp_left (And.imp_right fun harrow => ?_)
  cases arrow with
  | true => exact .inl rfl
  | false => exact .inr (hbase rfl (harrow.resolve_left Bool.false_ne_true))

end

/-! ## Expressions -/

theorem leaf_faithful {e : Expr} (h : Checked T e) (hr : Everywhere (Ready told) e) (he : isLeaf e = true) :
    Faithful T told e e := by
  cases e with
  | const | symbol | sizeOf | sizeOfType | function | sync | null => exact .refl h hr rfl
  | _ => cases he

/-- Effects are lost only with the branch that a selection does not choose: what else is dropped is a constant. -/
theorem Rewritten.faithful {e o : Expr} (h : Checked T e) (hw : e.WellTyped) (hr : Everywhere (Ready told) e)
    (ho : Rewritten T (Faithful T told) e o) : Faithful T told e o := by
  have href : Refined T e o := ho.refined h fun _ _ => Faithful.toRefined
  have hready := hr.here
  have folded : ∀ {test test'}, Faithful T told test test' → optimized? test = some test' → foldedTest test = decision test' :=
    fun _ hopt => by rw [foldedTest, hopt]; rfl
  -- what became a constant had no effects that remain
  have none_of : ∀ {c c' d}, Faithful T told c c' → c'.constant? = some d → c.effects told foldedTest = [] :=
    fun hc hd => hc.effects_eq.symm.trans (effects_of_constant (Option.isSome_of_eq_some hd))
  cases ho with
  | leaf he => exact leaf_faithful h hr he
  | value _ hlit =>
    obtain ⟨q, -, hq, -⟩ := id hlit
    exact ⟨href, ready_of_constant hlit.isConstant, effects_of_constant hlit.isConstant, fun _ => .inr ⟨rfl, q, hq⟩⟩
  | unary hn hc =>
    refine .of_value href rfl (.one trivial rfl hc.ready) ?_
    rw [effects, effects, hc.effects_eq]
  | foldedUnary hc hd hlit =>
    refine .of_constant href rfl hlit.isConstant ?_
    rw [effects, none_of hc hd]
  | @step _ _ _ c _ _ hn hc =>
    have hchild : Checked T c := h.child (by simp [children])
    have hc := hc.stands hchild
    refine .of_value href rfl (.one ⟨hready.1, hc.isStorage hchild hready.2⟩ rfl hc.ready) ?_
    rw [effects, effects, hc.effects_eq, hn]
  | binary hn hl hright =>
    refine .of_value href rfl (.two trivial rfl hl.ready hright.ready) ?_
    rw [effects, effects, hl.effects_eq, hright.effects_eq]
  | foldedBinary _ hl hright ha hb _ hlit =>
    refine .of_constant href rfl hlit.isConstant ?_
    rw [effects, none_of hl ha, none_of hright hb]
    rfl
  | comma hl _ hright ha =>
    refine .of_value href rfl hright.ready ?_
    rw [effects, none_of hl ha, hright.effects_eq]
    rfl
  | readComma hl _ hright ha hu =>
    refine .of_value href rfl (.one ⟨_, hu, rfl⟩ rfl hright.ready) ?_
    rw [effects, effects, none_of hl ha, hright.effects_eq]
    rfl
  | @assign _ _ _ target _ _ _ _ hn ht hv =>
    have hchild : Checked T target := h.child (by simp [children])
    have ht := ht.stands hchild
    refine .of_value href rfl (.two (ht.isStorage hchild hready) rfl ht.ready hv.ready) ?_
    rw [effects, effects, ht.effects_eq, hv.effects_eq, hn]
  | select hn ht hopt ha hb hv =>
    refine .of_value href rfl (.node trivial ?_) ?_
    · exact List.forall_mem_cons.mpr ⟨ht.ready, List.forall_mem_cons.mpr ⟨ha.ready, List.forall_mem_singleton.mpr hb.ready⟩⟩
    · rw [effects, effects, folded ht hopt, hv, ht.effects_eq, ha.effects_eq, hb.effects_eq]
  -- the effects of the other branch are lost, and those of the test are none
  | @branch node test a b test' a' b' c v ht hopt ha hb hc hv _ =>
    refine .of_value href rfl (by cases v; exact hb.ready; exact ha.ready) ?_
    rw [effects, folded ht hopt, hv, none_of ht hc]
    cases v with
    | true => exact ha.effects_eq
    | false => exact hb.effects_eq
  | foldedSelect ht hopt ha hb hc hv hp hq hlit =>
    refine .of_constant href rfl hlit.isConstant ?_
    rw [effects, folded ht hopt, hv, none_of ht hc, none_of ha hp, none_of hb hq]
    rfl
  | list hn hes =>
    refine .of_value href rfl (.node trivial (ready_of_faithful hes)) ?_
    rw [effects, effects, effectsEach_eq hes]
  | call hn hc has hcount => exact call_faithful hready hc has hcount href
  | index hn hb hp => exact index_faithful h hb hp href
  | member hn hb => exact member_faithful h hw hready hn hb href
  | cast hn hc =>
    refine .of_value href rfl (.one trivial rfl hc.ready) ?_
    rw [effects, effects, hc.effects_eq]
  | droppedCast hc =>
    refine .of_value href rfl hc.ready ?_
    rw [effects, hc.effects_eq]
  | foldedCast hc hd hlit =>
    refine .of_constant href rfl hlit.isConstant ?_
    rw [effects, none_of hc hd]
  | @reference node _ c _ hn hc =>
    have hchild : Checked T c := h.child (by simp [children])
    have hc := hc.stands hchild
    refine .of_storage href (.one (hc.isStorage hchild hready) rfl hc.ready) ?_ fun _ => ?_
    · rw [effects, effects, hc.effects_eq]
    · obtain ⟨u, -, -, hn, -⟩ := hw
      rw [denotesStorage, href.isReference_eq, isReference_eq (e := .reference node c) hn]
      exact Bool.or_true _
  | dereference hn hc =>
    obtain ⟨u, hu, hp⟩ := hready
    obtain ⟨u', hu', hcore⟩ := hc.type hu
    rw [← Ty.isReference_eq hcore, ← Ty.isPointer_eq hcore] at hp
    refine .of_storage href (.one ⟨u', hu', hp⟩ rfl hc.ready) ?_ fun _ => ?_
    · rw [effects, effects, hc.effects_eq]
    · rw [denotesStorage, hasAddress_dereference hu', hp, Bool.true_or]
  | @addressOf node _ c c' hn hc =>
    have hchild : Checked T c := h.child (by simp [children])
    have hstands := hc.stands hchild
    refine .of_value href rfl (.one (fun hname => ?_) rfl hstands.ready) ?_
    · refine hstands.isStorage hchild (hready ?_)
      cases hc with
      | symbol => exact hname
      | other _ hkeeps => exact Bool.eq_false_iff.mpr fun hc => Bool.eq_false_iff.mp hname (hkeeps hc)
    · rw [effects, effects, hstands.effects_eq]
  | new hn hcount hinit => exact new_faithful hn hready hcount hinit href

/-- What the optimizer makes of a checked tree has the effects that remain of those of the tree. -/
theorem optimize_faithful {e : Expr} (h : Checked T e) (hw : Everywhere WellTyped e) (hr : Everywhere (Ready told) e) :
    Folds U (optimize e) (Faithful T told e) := by
  induction e using Expr.induct with
  | h e ih =>
  have child : ∀ c ∈ e.children, Folds U (optimize c) (Faithful T told c) := fun c hc =>
    ih c hc (h.child hc) (hw.child hc) (hr.child hc)
  exact Folds.mono (optimize_rewrites h (fun _ _ => Faithful.toRefined) child) fun o ho => ho.faithful h hw.here hr

end Check

open Check Spmd.Expr

/-- Compiling what checking gave, and compiling what the optimizer makes of it, both succeed. The optimized code has the
effects of the other code in the same order, but for those of branches that a selection with a known test does not choose.
Calls through varying pointers are told from other calls as long as no name of functions has a varying type. -/
theorem optimize_keeps_effects {target : Target} {file : String} {json : Option Json} {p : Program} {e t : Expr}
    {s s' : Session} (hp : Program.read target file json = .ok p) (he : e ∈ p.expressions) (hs : s.target = target)
    (ht : (typecheck e).run s = (.ok (some t), s')) (told : Bool) (hname : told = true → Everywhere UniformName t)
    (r : Session) :
    ∃ o r' v w c d, (optimize t).run r = (.ok (some o), r') ∧ t.value.run [] = (.ok v, c) ∧ o.value.run [] = (.ok w, d) ∧
      c.effects told = t.effects told (fun _ => none) ∧ d.effects told = t.effects told foldedTest ∧
        (d.effects told).Sublist (c.effects told) ∧
          (Everywhere (Undecided foldedTest) t → d.effects told = c.effects told) := by
  have hc := typecheck_checked hp he hs ht
  have hw := typecheck_wellTyped hp he hs ht
  have hr := ready_everywhere hc hw hname
  obtain ⟨o', new, found, hrun, ⟨o, rfl, ho⟩, -⟩ := optimize_faithful (U := r.target) hc hw hr r rfl
  obtain ⟨v, c, hv, -, hce⟩ := (performs hc hr).1 []
  obtain ⟨w, d, hwd, -, hde⟩ := (performs ho.checked ho.ready).1 []
  rw [ho.effects_eq] at hde
  refine ⟨o, _, v, w, c, d, hrun, hv, hwd, hce, hde, ?_, fun hu => ?_⟩
  · rw [hce, hde]
    exact effects_sublist t
  · rw [hce, hde, effects_undecided hu]

/-! ## A call that is not chosen -/

/-- `true ? 1 : f()`. -/
def unchosenJson : Json :=
  programJson [("f", .object [("function", .string "int32")])]
    (.object [("select", .object [("const", .bool true)]),
      ("ifTrue", .object [("const", .string "1"), ("type", .string "int32")]),
      ("ifFalse", .object [("call", .object [("symbol", .string "f")])])])

def calledSymbol : Symbol := ⟨"f", .function .int32 [] false, .function, none, none⟩

/-- A selection between one and a call by a constant test, with the nodes and the name of the function in a state. -/
def unchosenExpr (selection call name : Node) (choice : Choice) (signature : Option Signature) : Expr :=
  .select selection (.const (.typed none Ty.bool.asConst) ⟨.bool, 8, [.bool true]⟩)
    (.const (.typed none Ty.int32.asConst) ⟨.int32, 8, [.int 1]⟩)
    (.call call (.function ⟨name, "f", [calledSymbol], choice⟩) [] false none signature)

def unchosenTyped : Expr :=
  unchosenExpr (.typed none .int32) (.typed none .int32) (.typed none calledSymbol.type) ⟨some calledSymbol, true⟩
    (some ⟨.int32, [], false⟩)

theorem unchosenProgram_read : Program.read .standard "program" (some unchosenJson) =
    .ok ⟨{ target := .standard, file := "program", symbols := [calledSymbol] }, [unchosenExpr {} {} {} {} none]⟩ := rfl

theorem unchosenExpr_checks : (typecheck (unchosenExpr {} {} {} {} none)).run { target := .standard } =
    (.ok (some unchosenTyped), { target := .standard }) := rfl

theorem unchosenTyped_names : Everywhere UniformName unchosenTyped := by
  refine .node trivial fun c hc => ?_
  simp only [unchosenTyped, unchosenExpr, children, List.mem_cons, List.not_mem_nil, or_false] at hc
  rcases hc with rfl | rfl | rfl
  · exact .leaf trivial rfl
  · exact .leaf trivial rfl
  · exact .one trivial rfl (.leaf rfl rfl)

theorem optimize_keeps_effects_unchosen : ∃ o r' v w c d,
    (optimize unchosenTyped).run { target := .standard } = (.ok (some o), r') ∧ unchosenTyped.value.run [] = (.ok v, c) ∧
      o.value.run [] = (.ok w, d) ∧ c.effects true = unchosenTyped.effects true (fun _ => none) ∧
        d.effects true = unchosenTyped.effects true foldedTest ∧ (d.effects true).Sublist (c.effects true) ∧
          (Everywhere (Undecided foldedTest) unchosenTyped → d.effects true = c.effects true) :=
  optimize_keeps_effects unchosenProgram_read (List.mem_singleton_self _) rfl unchosenExpr_checks true
    (fun _ => unchosenTyped_names) { target := .standard }

/-- The optimizer chooses the branch that is a constant, and with the other branch the call is dropped. -/
theorem unchosenExpr_drops : ∃ t o s' r' v w c d,
    (typecheck (unchosenExpr {} {} {} {} none)).run { target := .standard } = (.ok (some t), s') ∧
      (optimize t).run s' = (.ok (some o), r') ∧ t.value.run [] = (.ok v, c) ∧ o.value.run [] = (.ok w, d) ∧
        Code.effects true c = [.call false 0 ⟨.int32, [], false⟩] ∧ Code.effects true d = [] :=
  ⟨_, _, _, _, _, _, _, _, unchosenExpr_checks, rfl, rfl, rfl, rfl, rfl⟩

/-! ## A name that is exposed -/

/-- `(1, g)()` where `g` is declared as the name of functions and has the type of a varying pointer to one. -/
def exposedJson : Json :=
  .object [("symbols", .array [.object [("name", .string "g"), ("storage", .string "function"),
      ("type", .object [("pointer", .object [("function", .string "int32")]), ("variability", .string "varying")])]]),
    ("expressions", .array [.object [("call", .object [("binary", .string ","),
      ("left", .object [("const", .string "1"), ("type", .string "int32")]), ("right", .object [("symbol", .string "g")])])]])]

def exposedSymbol : Symbol := ⟨"g", .pointer (.function .int32 [] false) ⟨.varying, false⟩, .function, none, none⟩

def exposedExpr : Expr :=
  .call {} (.binary {} .comma (.const (.typed none Ty.int32.asConst) ⟨.int32, 8, [.int 1]⟩)
    (.function ⟨{}, "g", [exposedSymbol], {}⟩) false) [] false none none

theorem exposedProgram_read : Program.read .standard "program" (some exposedJson) =
    .ok ⟨{ target := .standard, file := "program", symbols := [exposedSymbol] }, [exposedExpr]⟩ := rfl

/-- The call through the comma is a varying one, and without the comma it is not: why names of functions are asked for
their type before calls through varying pointers are told from others. -/
theorem exposedExpr_calls : ∃ t o s' r' v w c d,
    (typecheck exposedExpr).run { target := .standard } = (.ok (some t), s') ∧ (optimize t).run s' = (.ok (some o), r') ∧
      t.value.run [] = (.ok v, c) ∧ o.value.run [] = (.ok w, d) ∧
        Code.effects true c = [.call true 0 ⟨.int32, [], false⟩] ∧ Code.effects true d = [.call false 0 ⟨.int32, [], false⟩] :=
  ⟨_, _, _, _, _, _, _, _, rfl, rfl, rfl, rfl, rfl, rfl⟩

end Spmd
