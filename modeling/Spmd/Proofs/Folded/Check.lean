import Spmd.Proofs.Folded.Access
import Spmd.Proofs.Folded.Assignment
import Spmd.Proofs.Folded.Call

/-!
# Checking folded trees

The check of a folded tree goes alongside the check of the tree: what the one gives for a node resembles what the other gives
(`Check.optimize_follows`).
-/

namespace Spmd

theorem Ty.outline_asConst {s : ScalarTy} (h : (Ty.scalar s).isConst = true) : (Ty.scalar s).asConst.outline = (Ty.scalar s).outline := by
  obtain ⟨element, ⟨v, c⟩, o⟩ := s
  obtain rfl : c = true := h
  cases element <;> rfl

namespace Expr

/-! ## Nodes that are replaced -/

theorem awaitsTarget_outline (e : Expr) : e.outline.awaitsTarget = e.awaitsTarget := by cases e <;> rfl

theorem isSpecial_outline (e : Expr) : e.outline.isSpecial = e.isSpecial := by
  rw [isSpecial, isSpecial, isNull_outline, isZeroConstant_outline]
  cases e <;> rfl

/-- Values that folding may put something else in the place of. -/
def isComputed : Expr → Bool
  | .unary .. | .binary .. | .select .. | .cast .. => true
  | _ => false

theorem isComputed_of_outline {d e : Expr} (h : d.outline = e.outline) (he : e.isComputed = true) : d.isComputed = true := by
  cases e with
  | unary | binary | select | cast =>
    cases d with
    | unary | binary | select | cast => rfl
    | _ => cases h
  | _ => cases he

theorem not_placed {d : Expr} (hd : d.isComputed = true) : d.isSpecial = false ∧ d.addressType = .ok none := by
  cases d with
  | unary | binary | select | cast => exact ⟨rfl, rfl⟩
  | _ => cases hd

/-- What is no reference has no storage as a computed value, and may be replaced by anything of its type. -/
theorem Resembles.of_computed {d u : Expr} {t t' : Ty} (hd : d.isComputed = true) (ht : d.type? = some t) (hu : u.type? = some t')
    (hdetermined : u.Determined) (hr : t.isReference = false) (h : t'.relaxed = t.relaxed) : d.Resembles u := by
  obtain ⟨hspecial, haddress⟩ := not_placed hd
  refine .of_value ht hu hdetermined hspecial h ?_
  rw [denotesStorage, hasAddress, haddress, isReference_eq ht, hr]
  rfl

/-- A computed reference may be replaced by a reference to storage that is the same in every lane. -/
theorem Resembles.of_bound {x d u : Expr} {t s : Ty} (hx : x.isComputed = true) (ht : x.type? = some t) (hs : d.type? = some s)
    (h : s.outline = t.outline) (hr : t.isReference = true) (hd : d.Resembles u)
    (ha : ∃ o, d.addressType = .ok o ∧ ∀ a, o = some a → a.isVarying = false) : x.Resembles u := by
  obtain ⟨hspecial, haddress⟩ := not_placed hx
  have hsr : s.isReference = true := by rwa [Ty.eq_of_bare Ty.isReference_bare (Ty.bare_of_outline h)]
  obtain ⟨s', hs', hrelaxed⟩ := hd.type hs
  have hstored := hd.stored (not_scalarSymbol hs (by cases s <;> first | rfl | cases hsr))
  refine .of_stored ht hs' hd.determined hspecial ((Ty.outline_of_reference hrelaxed hsr).trans h) ⟨fun a hx => ?_, fun _ _ => ?_⟩
  · rw [haddress] at hx
    cases hx
  · obtain ⟨o, ho, hv⟩ := ha
    cases o with
    | none => exact hstored.referent ((isReference_eq hs).trans hsr) ho
    | some a =>
      obtain ⟨b, hb, hout⟩ := hstored.address a ho
      refine ⟨some b, hb, fun c hc => ?_⟩
      cases hc
      rw [isVarying_of_outline hout, hv a rfl]

end Expr

namespace Check

open Spmd.Expr

variable {T U : Target}

/-- A checked tree of which another check goes as the first one, and goes so when the tree is folded. -/
structure Repeatable (T : Target) (e : Expr) : Prop where
  checked : Checked T e
  wellTyped : Everywhere WellTyped e
  recurs : Everywhere (Recurs T) e
  repeats : Everywhere Repeats e
  tolerant : Everywhere Tolerant e

section
variable {e c d : Expr}

theorem Repeatable.child (h : Repeatable T e) (hc : c ∈ e.children) : Repeatable T c :=
  ⟨h.checked.child hc, h.wellTyped.child hc, h.recurs.child hc, h.repeats.child hc, h.tolerant.child hc⟩

theorem check_drawn (h : Repeatable T e) : Yields T (check e) (Drawn e) := by
  obtain ⟨t, ht, -⟩ := h.checked.typed
  exact Yields.mono (check_redrawn h.recurs h.repeats) fun d hd => ⟨h.tolerant, hd, hd.typed ht⟩

theorem Drawn.rvalue (h : Drawn c d) (hc : Checked T c) {s : Ty} (hs : d.type? = some s) : s.rvalue.isReference = false := by
  cases hl : s.isList with
  | true => cases s <;> first | rfl | cases hl
  | false =>
    obtain ⟨t, ht, hout⟩ := type_of_outline (h.redrawn.outline_eq hs hl).symm hs
    rw [← Ty.eq_of_bare Ty.isReference_bare (Ty.bare_of_outline (Ty.outline_eq Ty.outline_rvalue hout))]
    exact Ty.rvalue_isReference (hc.legal ht)

end

/-! ## Two checks side by side -/

/-- What the first check gives, it gives beside what the second check gives. -/
def Tracks {α β : Type} (T : Target) (m : Check (Option α)) (m' : Check (Option β)) (R : α → β → Prop) : Prop :=
  Yields T m fun a => Accepts T m' (R a)

section
variable {α β γ δ : Type} {m : Check (Option α)} {m' : Check (Option β)} {R : α → β → Prop} {G : γ → Prop} {Q : γ → δ → Prop}

theorem Yields.beside {k : Check (Option γ)} {P : β → Prop} {S : β → γ → Prop} (h : Accepts T m' P)
    (hk : ∀ b, P b → Yields T k (S b)) : Yields T k fun c => ∀ b, P b → S b c := by
  intro s hs o s' hrun
  obtain ⟨_, _, _, -, -, b, -, hb⟩ := h s hs
  exact ⟨fun c hc b hb => (hk b hb s hs o s' hrun).1 c hc, (hk b hb s hs o s' hrun).2⟩

theorem Tracks.bind {k : Option α → Check (Option γ)} {k' : Option β → Check (Option δ)} (h : Tracks T m m' R)
    (hk : ∀ a b, R a b → Yields T (k (some a)) fun r => G r → Accepts T (k' (some b)) (Q r))
    (hn : Yields T (k none) fun r => G r → Accepts T (m' >>= k') (Q r)) :
    Yields T (m >>= k) fun r => G r → Accepts T (m' >>= k') (Q r) := by
  refine Yields.bind h (fun a ha => ?_) hn
  refine Yields.mono (Yields.beside ha (hk a)) fun r hr hg => Accepts.bind ha fun b hb => hr b hb hg

end

section
variable {l l' r r' : Check (Option Expr)} {R S Q : Expr → Expr → Prop} {G : Expr → Prop}

theorem Tracks.one {k k' : Expr → Check (Option Expr)} (h : Tracks T l l' R)
    (hk : ∀ a b, R a b → Yields T (k a) fun x => G x → Accepts T (k' b) (Q x)) :
    Yields T (l >>= fun o => withOne o k) fun x => G x → Accepts T (l' >>= fun o => withOne o k') (Q x) :=
  Tracks.bind h hk Yields.none

theorem Tracks.both {k k' : Expr → Expr → Check (Option Expr)} (hl : Tracks T l l' R) (hr : Tracks T r r' S)
    (hk : ∀ a a' b b', R a a' → S b b' → Yields T (k a b) fun x => G x → Accepts T (k' a' b') (Q x)) :
    Yields T (l >>= fun a => r >>= fun b => withBoth a b k) fun x => G x →
      Accepts T (l' >>= fun a => r' >>= fun b => withBoth a b k') (Q x) :=
  Tracks.bind hl (fun _ _ ha => Tracks.bind hr (fun _ _ hb => hk _ _ _ _ ha hb) Yields.none)
    (Yields.bind hr (fun _ _ => Yields.none) Yields.none)

theorem needed_accepts {P : Expr → Prop} (h : Accepts T l P) (hP : ∀ u, P u → u.Determined) : Accepts T (needed l) P :=
  Accepts.bind h fun u hu => by
    rw [resolved_determined (hP u hu)]
    exact Accepts.some hu

theorem Tracks.needed (h : Tracks T l l' R) (hR : ∀ a b, R a b → b.Determined) : Tracks T (needed l) (needed l') R :=
  Yields.mono (resolved_needed h) fun a ha => needed_accepts ha (hR a)

end

/-! ## Children -/

/-- The check of a folded child goes alongside that of the child. -/
abbrev Alongside (T : Target) (c o : Expr) : Prop := Tracks T (check c) (check o) (Twins c)

theorem Tracks.typed {c o : Expr} (h : Alongside T c o) : Tracks T (Check.needed (check c)) (Check.needed (check o)) (Twins c) :=
  h.needed fun _ _ h => h.resembles.determined

theorem checkEach_tracks (typesNeeded : Bool) {cs os : List Expr} (h : List.Forall₂ (Alongside T) cs os) :
    Tracks T (checkEach typesNeeded cs) (checkEach typesNeeded os) (AllTwins cs) := by
  induction h with
  | nil =>
    rw [checkEach]
    exact Yields.some (Accepts.some .nil)
  | @cons c o cs os first rest ih =>
    cases typesNeeded
    all_goals
      refine Yields.mono (Tracks.bind (G := fun _ => True) (R := Twins c) ?_ (fun d u hd => ?_) ?_) fun r hr => hr trivial
    case false.refine_1 => exact first
    case true.refine_1 => exact first.typed
    all_goals first
      | exact Tracks.bind ih (fun ds us hds => Yields.some fun _ => Accepts.some (.cons hd hds)) Yields.none
      | exact Yields.bind ih (fun _ _ => Yields.none) Yields.none

/-! ## Folded nodes -/

/-- A folded node that is checked in the place of a node. -/
structure Mimics (T : Target) (e o : Expr) : Prop where
  bound : ∀ t, e.type? = some t → t.isReference = true → ∃ t', o.type? = some t' ∧ t'.bare = t.bare
  accepts : Yields T (check e) fun x => x.outline = e.outline → Accepts T (check o) x.Resembles

/-- A folded tree that is checked in the place of a tree. -/
structure Follows (T : Target) (e o : Expr) : Prop where
  refined : Refined T e o
  bound : ∀ t, e.type? = some t → t.isReference = true → ∃ t', o.type? = some t' ∧ t'.bare = t.bare
  tracks : Alongside T e o

section
variable {e o : Expr}

theorem Mimics.follows (h : Mimics T e o) (hk : Repeatable T e) (hn : e.isList = false) (hr : Refined T e o) : Follows T e o := by
  refine ⟨hr, h.bound, Yields.mono (Yields.and (check_drawn hk) h.accepts) fun d hd => ?_⟩
  exact Accepts.mono (hd.2 ((redrawn_iff hn).mp hd.1.redrawn)) fun u hu => ⟨hd.1, hu⟩

theorem Mimics.rebuilt (ht : o.type? = e.type?) (h : Yields T (check e) fun x => x.outline = e.outline →
    Accepts T (check o) x.Resembles) : Mimics T e o := ⟨fun t he _ => ⟨t, ht.trans he, rfl⟩, h⟩

/-- A computed value is replaced by what has its type. -/
theorem Mimics.replaced {t : Ty} (hc : e.isComputed = true) (ht : e.type? = some t) (hr : t.isReference = false)
    (h : Yields T (check e) fun x => x.outline = e.outline → Accepts T (check o) fun u => u.Determined ∧
      ∃ t', u.type? = some t' ∧ t'.relaxed = t.relaxed) : Mimics T e o := by
  refine ⟨fun t' ht' hr' => ?_, Yields.mono h fun x hx hout => Accepts.mono (hx hout) fun u hu => ?_⟩
  · rw [Option.some.inj (ht.symm.trans ht'), hr'] at hr
    cases hr
  · obtain ⟨hdetermined, t', hu, hrelaxed⟩ := hu
    obtain ⟨s, hs, hsout⟩ := type_of_outline hout ht
    refine .of_computed (isComputed_of_outline hout hc) hs hu hdetermined ?_ (hrelaxed.trans (Ty.relaxed_of_outline hsout).symm)
    rwa [Ty.eq_of_bare Ty.isReference_bare (Ty.bare_of_outline hsout)]

theorem IsLiteral.mimics {node : Node} {R : Nat → Scalar → Prop} (hlit : IsLiteral T node R o) (hk : Repeatable T e)
    (hc : e.isComputed = true) (he : e.type? = node.type) : Mimics T e o := by
  obtain ⟨s, c, hs, rfl, -, -⟩ := hlit
  refine .replaced hc (he.trans hs) rfl (Yields.mono (check_drawn hk) fun _ _ _ => ?_)
  rw [Literal.expr, check]
  exact Accepts.some ⟨.closed rfl rfl, _, rfl, Ty.relaxed_asConst rfl⟩

theorem Mimics.kept (hk : Repeatable T e) (hn : e.awaitsTarget = false) (hs : e.isSpecial = false) : Mimics T e e := by
  obtain ⟨t, ht, -⟩ := hk.checked.typed
  refine .rebuilt rfl (Yields.mono (check_drawn hk) fun x _ hout => ?_)
  refine Accepts.mono (Quiet.accepts (hk.recurs.here.lasts hn hk.repeats)) fun u hu => ?_
  obtain ⟨s, hx, -⟩ := type_of_outline hout ht
  refine .of_outline (hu.trans hout.symm) hx ?_ ?_
  · rwa [← isSpecial_outline, hout, isSpecial_outline]
  · rwa [← awaitsTarget_outline, hout, awaitsTarget_outline]

end

/-! ### Operators -/

theorem Repeatable.closed {e c : Expr} (hk : Repeatable T e) (h : e.takesOpen = false) (hc : c ∈ e.children) : c.isOpen = false :=
  hk.tolerant.here.lists h c hc

/-- A child that is kept where it is a symbol, so that it denotes the storage that it denoted. -/
abbrev Placed (T : Target) (c o : Expr) : Prop := Tracks T (check c) (check o) fun d u => Twins c d u ∧ d.Stored u

theorem Placed.typed {c o : Expr} (h : Placed T c o) :
    Tracks T (needed (check c)) (needed (check o)) fun d u => Twins c d u ∧ d.Stored u :=
  h.needed fun _ _ h => h.1.resembles.determined

section
variable {node n' : Node} {c o c₁ c₂ o₁ o₂ : Expr} (hn : n'.type = node.type)
include hn

theorem unary_mimics {op : ValueOp} (hk : Repeatable T (.unary node op c)) (h : Alongside T c o) :
    Mimics T (.unary node op c) (.unary n' op o) := by
  refine .rebuilt hn ?_
  rw [check, check]
  refine h.typed.one fun d u hd => ?_
  obtain ⟨s, hs⟩ := hd.typed
  exact checkUnary_follows n' hd hs (hk.closed rfl (by simp [children])) op

theorem step_mimics {st : Step} {amount : Option Literal} (h : Placed T c o) :
    Mimics T (.step node st c amount) (.step n' st o amount) := by
  refine .rebuilt hn ?_
  rw [check, check]
  refine h.typed.one fun d u hd => ?_
  obtain ⟨s, hs⟩ := hd.1.typed
  exact Yields.mono (checkStep_follows n' hd.1 hs hd.2 st) fun _ h _ => h

theorem binary_mimics {op : BinaryOp} {reported reported' : Bool} (hk : Repeatable T (.binary node op c₁ c₂ reported))
    (hl : Alongside T c₁ o₁) (hr : Alongside T c₂ o₂) :
    Mimics T (.binary node op c₁ c₂ reported) (.binary n' op o₁ o₂ reported') := by
  refine .rebuilt hn ?_
  rw [check, check]
  refine hl.typed.both hr.typed fun d u d' u' hd hd' => ?_
  obtain ⟨s, hs⟩ := hd.typed
  obtain ⟨w, hw⟩ := hd'.typed
  exact checkBinary_follows n' hd hd' hs hw hk.tolerant.here

theorem assign_mimics {op : AssignOp} {operandType operandType' : Option Ty}
    (hk : Repeatable T (.assign node op c₁ c₂ operandType)) (hl : Placed T c₁ o₁) (hr : Alongside T c₂ o₂) :
    Mimics T (.assign node op c₁ c₂ operandType) (.assign n' op o₁ o₂ operandType') := by
  have hstep : ∀ {l l' : Check (Option Expr)}, Tracks T l l' (Twins c₂) → Yields T
      (do
        let t ← needed (check c₁)
        let v ← l
        withBoth t v (checkAssign node op)) fun x => x.outline = (Expr.assign node op c₁ c₂ operandType).outline → Accepts T
      (do
        let t ← needed (check o₁)
        let v ← l'
        withBoth t v (checkAssign n' op)) x.Resembles := by
    intro l l' h
    refine hl.typed.both h fun d u d' u' hd hd' => ?_
    obtain ⟨s, hs⟩ := hd.1.typed
    obtain ⟨w, hw⟩ := hd'.typed
    exact checkAssign_follows n' hd.1 hd' hs hw hd.2 (hk.closed rfl (by simp [children]))
  refine .rebuilt hn ?_
  rw [check, check]
  by_cases hop : op = .plain
  · simp only [hop, if_true]
    exact hop ▸ hstep hr
  · simp only [hop, if_false]
    exact hstep hr.typed

theorem select_mimics {t o : Expr} (hk : Repeatable T (.select node t c₁ c₂)) (ht : Alongside T t o) (hl : Alongside T c₁ o₁)
    (hr : Alongside T c₂ o₂) : Mimics T (.select node t c₁ c₂) (.select n' o o₁ o₂) := by
  refine .rebuilt hn ?_
  rw [check, check]
  refine Tracks.bind ht.typed (fun d u hd => ?_) ?_
  · refine hl.typed.both hr.typed fun d₁ u₁ d₂ u₂ hd₁ hd₂ => ?_
    obtain ⟨x, hx⟩ := hd.typed
    obtain ⟨s, hs⟩ := hd₁.typed
    obtain ⟨w, hw⟩ := hd₂.typed
    have hnr := hd₁.toDrawn.rvalue (hk.checked.child (c := c₁) (by simp [children])) hs
    exact checkSelect_follows n' hd hd₁ hd₂ hx hs hw (fun b hb => hk.closed rfl hb) hnr
  · exact Yields.both hl.typed hr.typed (fun _ _ _ _ => Yields.none) (fun _ => Yields.none) fun _ => Yields.none

/-! ### Access -/

theorem index_mimics (hk : Repeatable T (.index node c₁ c₂)) (hl : Alongside T c₁ o₁) (hr : Alongside T c₂ o₂) :
    Mimics T (.index node c₁ c₂) (.index n' o₁ o₂) := by
  refine .rebuilt hn ?_
  rw [check, check]
  refine hl.typed.both hr.typed fun d u d' u' hd hd' => ?_
  obtain ⟨s, hs⟩ := hd.typed
  obtain ⟨w, hw⟩ := hd'.typed
  exact checkIndex_follows n' hd hd' hs hw hk.tolerant.here

theorem member_mimics {name : String} {arrow : Bool} {access access' : Option Access}
    (hk : Repeatable T (.member node c name arrow access)) (h : Alongside T c o) :
    Mimics T (.member node c name arrow access) (.member n' o name arrow access') := by
  refine .rebuilt hn ?_
  rw [check, check]
  refine h.typed.one fun d u hd => ?_
  obtain ⟨s, hs⟩ := hd.typed
  exact checkMember_follows n' hd hs hk.tolerant.here

theorem reference_mimics (h : Placed T c o) : Mimics T (.reference node c) (.reference n' o) := by
  refine .rebuilt hn ?_
  rw [check, check]
  refine h.typed.one fun d u hd => ?_
  obtain ⟨s, hs⟩ := hd.1.typed
  exact checkReference_follows n' hd.1 hs hd.2

theorem dereference_mimics (h : Alongside T c o) : Mimics T (.dereference node c) (.dereference n' o) := by
  refine .rebuilt hn ?_
  rw [check, check]
  refine h.typed.one fun d u hd => ?_
  obtain ⟨s, hs⟩ := hd.typed
  exact Yields.mono (checkDereference_follows n' hd hs) fun _ h _ => h

theorem addressOf_mimics (h : Placed T c o) : Mimics T (.addressOf node c) (.addressOf n' o) := by
  refine .rebuilt hn ?_
  rw [check, check]
  refine Tracks.one h fun d u hd => ?_
  obtain ⟨s, hs⟩ := hd.1.typed
  exact Yields.mono (checkAddressOf_follows n' hd.1 hs hd.2) fun _ h _ => h

/-! ### Values -/

theorem cast_mimics {target : Ty} {reported reported' : Bool} (hk : Repeatable T (.cast node target c reported))
    (h : Alongside T c o) : Mimics T (.cast node target c reported) (.cast n' target o reported') := by
  refine .rebuilt hn ?_
  rw [check, check]
  refine Tracks.one h fun d u hd => ?_
  obtain ⟨s, hs⟩ := hd.typed
  refine checkCast_follows n' hd hs ?_ hk.tolerant.here.node
  cases hv : target.valued with
  | true => exact .inl rfl
  | false => exact .inr (hk.closed hv (by simp [children]))

theorem call_mimics {args args' : List Expr} {launch : Bool} {count count' : Option Expr} {sig sig' : Option Signature}
    (hk : Repeatable T (.call node c args launch count sig)) (hc : Alongside T c o) (has : List.Forall₂ (Alongside T) args args')
    (hcount : Option.Rel (Alongside T) count count') :
    Mimics T (.call node c args launch count sig) (.call n' o args' launch count' sig') := by
  have heach := checkEach_tracks false has
  have hclosed : ∀ x ∈ (Expr.call node c args launch count sig).children, x.isOpen = false := fun x hx => hk.closed rfl hx
  have hargs : ∀ x ∈ args, x.isOpen = false := fun x hx => hclosed x (by simp [children, hx])
  have hopen : ∀ x, count = some x → x.isOpen = false := fun x hx => hclosed x (by simp [children, hx])
  have hcall : ∀ {dn un : Option Expr} {d u : Expr} {ds us : List Expr}, Twins c d u → AllTwins args ds us →
      MaybeTwins count dn un → Yields T (checkCall node d ds launch dn) fun x =>
        x.outline = (Expr.call node c args launch count sig).outline → Accepts T (checkCall n' u us launch un) x.Resembles := by
    intro dn un d u ds us hd hds hdn
    obtain ⟨ts, hts⟩ := hds.typed
    exact checkCall_follows n' hds hts hargs hdn hopen hd
  refine .rebuilt hn ?_
  rw [check, check]
  cases hcount with
  | none =>
    simp only [pure_bind]
    refine Tracks.bind hc (fun d u hd => ?_) (Yields.bind heach (fun _ _ => Yields.none) Yields.none)
    exact Tracks.bind heach (fun ds us hds => hcall hd hds .none) Yields.none
  | some h =>
    refine Tracks.bind hc (fun d u hd => ?_) ?_
    · refine Tracks.bind heach (fun ds us hds => ?_) ?_
      · refine Tracks.bind h (fun dn un hdn => ?_) ?_
        · simp only [Option.map_some, pure_bind]
          exact hcall hd hds (.some hdn)
        · simp only [Option.map_none, pure_bind]
          exact Yields.none
      · refine Yields.bind h (fun _ _ => ?_) ?_
        all_goals simp only [pure_bind]
        all_goals exact Yields.none
    · refine Yields.bind heach (fun _ _ => ?_) ?_
      all_goals refine Yields.bind h (fun _ _ => ?_) ?_
      all_goals simp only [pure_bind]
      all_goals exact Yields.none

theorem new_mimics {allocated : Ty} {count count' init init' : Option Expr} {varying : Bool}
    (hk : Repeatable T (.new node allocated count init varying)) (hcount : Option.Rel (Alongside T) count count')
    (hinit : Option.Rel (Alongside T) init init') :
    Mimics T (.new node allocated count init varying) (.new n' allocated count' init' varying) := by
  refine .rebuilt hn ?_
  rw [check, check]
  split
  · exact Yields.reject _ _
  cases hcount with
  | none =>
    simp only [pure_bind]
    cases hinit with
    | none => exact Yields.some fun _ => Accepts.some (.of_nodes rfl rfl rfl rfl rfl rfl rfl)
    | some h =>
      refine Tracks.bind h (fun d u hd => ?_) Yields.none
      simp only [Option.map_some]
      obtain ⟨s, hs⟩ := hd.typed
      exact checkNew_initialized n' hd hs (hk.closed rfl (by simp [children]))
  | some h =>
    cases hinit with
    | none =>
      refine Tracks.bind h.typed (fun d u hd => ?_) Yields.none
      simp only [Option.map_some]
      obtain ⟨s, hs⟩ := hd.typed
      exact checkNew_counted n' hd hs (hk.closed rfl (by simp [children]))
    | some h' =>
      -- a count and an initializer are refused together
      refine Tracks.bind h.typed (fun _ _ _ => ?_) ?_
      · simp only [Option.map_some, pure_bind]
        refine Tracks.bind h' (fun _ _ _ => ?_) Yields.none
        simp only [Option.map_some]
        exact Yields.reject _ _
      · simp only [Option.map_none, pure_bind]
        exact Yields.bind h' (fun _ _ => Yields.none) Yields.none

end

/-! ### Lists and symbols -/

section
variable {node n' : Node} {cs os : List Expr}

theorem list_tracks (hk : Repeatable T (.list node cs)) (h : List.Forall₂ (Alongside T) cs os) :
    Alongside T (.list node cs) (.list n' os) := by
  have hlist : Yields T (check (.list node cs)) fun d => Accepts T (check (.list n' os)) d.Resembles := by
    rw [check, check]
    refine Yields.mono (Tracks.bind (G := fun _ => True) (checkEach_tracks true h) (fun ds us hds => ?_) Yields.none)
      fun d hd => hd trivial
    exact Yields.mono (checkList_follows n' hds) fun _ h _ => h
  exact Yields.mono (Yields.and (check_drawn hk) hlist) fun d hd => Accepts.mono hd.2 fun u hu => ⟨hd.1, hu⟩

theorem symbol_mimics {s : Symbol} {R : Nat → Scalar → Prop} {o : Expr} (hf : (Expr.symbol node s).Formed T)
    (hv : s.value.isSome = true) (hlit : IsLiteral T node R o) : Mimics T (.symbol node s) o := by
  obtain ⟨hn, hsound⟩ := hf.grounded
  obtain ⟨q, c, hq, rfl, -, -⟩ := hlit
  have htype : s.type = .scalar q := Option.some.inj (hn.symm.trans hq)
  have hconst := hsound.isConst hv
  refine ⟨fun t ht hr => ?_, ?_⟩
  · rw [show t = .scalar q from Option.some.inj (Eq.trans (Eq.symm ht) hq)] at hr
    cases hr
  · rw [check, Literal.expr, check]
    refine Yields.some fun _ => Accepts.some ⟨.closed rfl rfl, fun t ht => ⟨_, rfl, ?_⟩, fun hs => (by cases hs), fun hs => ?_⟩
    · obtain rfl : t = .scalar q := Option.some.inj (Eq.trans (Eq.symm ht) hq)
      exact ⟨Ty.relaxed_asConst rfl, fun _ => Ty.outline_asConst (htype ▸ hconst)⟩
    · rw [isScalarSymbol, hq] at hs
      cases hs

end

/-! ### Replaced nodes -/

section
variable {node : Node} {t : Ty}

theorem comma_checks {l l' r r' : Expr} {reported : Bool} (hl : Alongside T l l') (hr : Alongside T r r') :
    Yields T (check (.binary node .comma l r reported)) fun x => x.outline = (Expr.binary node .comma l r reported).outline →
      ∃ d s, d.outline = r.outline ∧ d.type? = some s ∧ x.type? = some s.rvalue ∧ Accepts T (check r') (Twins r d) := by
  rw [check]
  refine Yields.both (resolved_needed hl) (resolved_needed hr) (fun d d' _ hd' => ?_) (fun _ => Yields.none) fun _ => Yields.none
  refine Gives.lift fun s hs => Yields.some fun hout => ?_
  simp only [outline, binary.injEq] at hout
  exact ⟨d', s, hout.2.2.2.1, type?_of_ok hs, rfl, hd'⟩

section
variable {l l' r r' : Expr} {reported : Bool} (hk : Repeatable T (.binary node .comma l r reported)) (hl : Alongside T l l')
  (hr : Follows T r r') {w : Ty} (hw : r'.type? = some w)
include hk hl hr hw

theorem comma_replaced {o : Expr} (h : ∀ d s, Accepts T (check r') (Twins r d) → d.type? = some s → s.isReference = w.isReference →
    s.rvalue.isReference = false → Accepts T (check o) fun u => u.Determined ∧ ∃ t', u.type? = some t' ∧
      t'.relaxed = s.rvalue.relaxed) : Mimics T (.binary node .comma l r reported) o := by
  obtain ⟨t, a, ht, ha, hcore⟩ := hk.checked.here.grounded
  have hright : Checked T r := hk.checked.child (by simp [children])
  obtain ⟨w', hw', hcw⟩ := hr.refined.type ha
  obtain rfl : w = w' := Option.some.inj (hw.symm.trans hw')
  have htr : t.isReference = false := by
    have hlegal := hright.legal ha
    rw [Ty.isReference_eq hcore]
    cases a with
    | reference => exact hlegal.1
    | _ => rfl
  refine .replaced rfl ht htr (Yields.mono (comma_checks hl hr.tracks) fun x hx hout => ?_)
  obtain ⟨d, s, hdout, hs, hxs, hd⟩ := hx hout
  obtain ⟨a', ha', haout⟩ := type_of_outline hdout.symm hs
  obtain rfl : a = a' := Option.some.inj (ha.symm.trans ha')
  have hsr : s.isReference = w.isReference := by
    rw [Ty.isReference_eq hcw, Ty.eq_of_bare Ty.isReference_bare (Ty.bare_of_outline haout)]
  obtain ⟨t', ht', htout⟩ := type_of_outline hout ht
  obtain rfl : s.rvalue = t' := Option.some.inj (hxs.symm.trans ht')
  have hlegal : s.rvalue.isReference = false := by
    rwa [Ty.eq_of_bare Ty.isReference_bare (Ty.bare_of_outline htout)]
  rw [← Ty.relaxed_of_outline htout]
  exact h d s hd hs hsr hlegal

theorem comma_mimics (hnr : w.isReference = false) : Mimics T (.binary node .comma l r reported) r' := by
  refine comma_replaced hk hl hr hw fun d s hd hs hsr _ => Accepts.mono hd fun u hu => ⟨hu.resembles.determined, ?_⟩
  obtain ⟨s', hs', hrelaxed⟩ := hu.resembles.type hs
  refine ⟨s', hs', hrelaxed.trans ?_⟩
  cases s with
  | reference => rw [hnr] at hsr; cases hsr
  | _ => exact (Ty.relaxed_of_shape rfl (Ty.shape_withConst false _)).symm

theorem comma_reads {n : Node} (href : w.isReference = true) :
    Mimics T (.binary node .comma l r reported) (.dereference n r') := by
  refine comma_replaced hk hl hr hw fun d s hd hs hsr hlegal => ?_
  cases s with
  | reference z o =>
    rw [check]
    refine Accepts.bind (needed_accepts hd fun u hu => hu.resembles.determined) fun u hu => ?_
    obtain ⟨s', hs', hrelaxed⟩ := hu.resembles.type hs
    cases s' with
    | reference z' o' =>
      have hz : z'.asNonConst.outline = z.asNonConst.asNonConst.outline :=
        (Ty.outline_eq Ty.outline_asNonConst (Ty.reference.inj hrelaxed).1).trans (Ty.shape_withConst false z).symm
      show Accepts T (checkDereference n u) _
      unfold checkDereference
      simp only [type_ok hs', lift_ok, pure_bind]
      exact Accepts.some ⟨.closed rfl rfl, z', rfl, Ty.relaxed_of_shape hlegal hz⟩
    | _ => cases (Ty.isReference_of_relaxed hrelaxed : false = true)
  | _ =>
    rw [href] at hsr
    cases hsr

end

/-- What a child becomes when it takes the place of its parent. -/
def Becomes (T : Target) (c o : Expr) : Prop :=
  ∃ d s, d.type? = some s ∧ d.outline = c.outline ∧ Accepts T (check o) (Twins c d)

section
variable {test a b test' a' b' : Expr} (hk : Repeatable T (.select node test a b)) (ht : Alongside T test test')
  (ha : Alongside T a a') (hb : Alongside T b b')
include hk ht ha hb

theorem select_checks : Yields T (check (.select node test a b)) fun x =>
    x.outline = (Expr.select node test a b).outline → Becomes T a a' ∧ Becomes T b b' := by
  have hchild : ∀ {c o : Expr}, c ∈ (Expr.select node test a b).children → Alongside T c o →
      Yields T (needed (check c)) fun d => Drawn c d ∧ Accepts T (check o) (Twins c d) := fun hc h =>
    resolved_needed (Yields.and (check_drawn (hk.child hc)) h)
  rw [check]
  refine Yields.bind (hchild (by simp [children]) ht) (fun d hd => ?_) ?_
  · refine Yields.both (hchild (by simp [children]) ha) (hchild (by simp [children]) hb) (fun d₁ d₂ hd₁ hd₂ => ?_)
      (fun _ => Yields.none) fun _ => Yields.none
    obtain ⟨x, hx⟩ := hd.1.typed
    obtain ⟨s, hs⟩ := hd₁.1.typed
    obtain ⟨w, hw⟩ := hd₂.1.typed
    have hnr := hd₁.1.rvalue (hk.checked.child (c := a) (by simp [children])) hs
    refine Yields.mono (checkSelect_selects hd.1 hd₁.1 hd₂.1 hx hs hw (fun c hc => hk.closed rfl hc) hnr node) fun r hr hout => ?_
    obtain ⟨t, type, hsel, -⟩ := hr hout
    exact ⟨⟨d₁, s, hs, hd₁.1.redrawn.outline_eq hs hsel.left.2, hd₁.2⟩, d₂, w, hw, hd₂.1.redrawn.outline_eq hw hsel.right.2, hd₂.2⟩
  · exact Yields.both (hchild (by simp [children]) ha) (hchild (by simp [children]) hb) (fun _ _ _ _ => Yields.none)
      (fun _ => Yields.none) fun _ => Yields.none

theorem select_replaced {c o : Expr} (hc : c = a ∧ o = a' ∨ c = b ∧ o = b') : Mimics T (.select node test a b) o := by
  obtain ⟨t, v, hn, -, hat, -⟩ := hk.checked.here.coherent
  have htr : t.isReference = false := by
    rw [← hat.isReference_eq]
    exact hk.wellTyped.here.2.1
  refine .replaced rfl hn htr (Yields.mono (select_checks hk ht ha hb) fun x hx hout => ?_)
  have hbecomes : Becomes T c o := by
    rcases hc with ⟨rfl, rfl⟩ | ⟨rfl, rfl⟩
    · exact (hx hout).1
    · exact (hx hout).2
  obtain ⟨d, s, hs, hdout, hd⟩ := hbecomes
  obtain ⟨u, hu, huout⟩ := type_of_outline hdout.symm hs
  have hshape : u.asNonConst.outline = t.asNonConst.outline := hk.tolerant.here.node t u hn <| by
    rcases hc with ⟨rfl, -⟩ | ⟨rfl, -⟩
    · exact .inl hu
    · exact .inr hu
  refine Accepts.mono hd fun y hy => ⟨hy.resembles.determined, ?_⟩
  obtain ⟨s', hs', hrelaxed⟩ := hy.resembles.type hs
  refine ⟨s', hs', hrelaxed.trans (Ty.relaxed_of_shape htr ?_)⟩
  exact (Ty.outline_eq Ty.outline_asNonConst huout.symm).trans hshape

end

section
variable {target : Ty} {c o : Expr} {reported : Bool} (hk : Repeatable T (.cast node target c reported)) (hc : Follows T c o)
include hk hc

theorem cast_checks : Yields T (check (.cast node target c reported)) fun x =>
    x.outline = (Expr.cast node target c reported).outline → Becomes T c o := by
  rw [check]
  refine Yields.bind (Yields.and (check_drawn (hk.child (by simp [children]))) hc.tracks) (fun d hd => ?_) Yields.none
  obtain ⟨s, hs⟩ := hd.1.typed
  exact Yields.mono (checkCast_kept hd.1.redrawn hs node reported) fun x hx hout => ⟨d, s, hs, hx hout, hd.2⟩

theorem cast_replaced {w : Ty} (hw : o.type? = some w) (hsame : w.same target = true) :
    Mimics T (.cast node target c reported) o := by
  obtain ⟨hn, -, -⟩ := hk.checked.here.grounded
  have hchild : Checked T c := hk.checked.child (by simp [children])
  obtain ⟨t, ht, -⟩ := hchild.typed
  obtain ⟨w', hw', hcw⟩ := hc.refined.type ht
  obtain rfl : w = w' := Option.some.inj (hw.symm.trans hw')
  obtain ⟨hshape, hplaced⟩ := hk.tolerant.here.node.2 t ht (hcw.symm.trans (Ty.core_eq_of_same hsame))
  cases htr : target.isReference with
  | false =>
    refine .replaced rfl hn htr (Yields.mono (cast_checks hk hc) fun x hx hout => ?_)
    obtain ⟨d, s, hs, hdout, hd⟩ := hx hout
    obtain ⟨t', ht', htout⟩ := type_of_outline hdout.symm hs
    obtain rfl : t = t' := Option.some.inj (ht.symm.trans ht')
    refine Accepts.mono hd fun u hu => ⟨hu.resembles.determined, ?_⟩
    obtain ⟨s', hs', hrelaxed⟩ := hu.resembles.type hs
    refine ⟨s', hs', hrelaxed.trans (Ty.relaxed_of_shape htr ?_)⟩
    exact (Ty.outline_eq Ty.outline_asNonConst htout.symm).trans hshape
  | true =>
    have href : t.isReference = true := by
      rw [← Ty.isReference_eq (hcw.symm.trans (Ty.core_eq_of_same hsame) : t.core = target.core)] at htr
      exact htr
    obtain ⟨w', hw', hbare⟩ := hc.bound t ht href
    obtain rfl : w = w' := Option.some.inj (hw.symm.trans hw')
    have hbound := (Ty.same_iff _ _).mp hsame
    have hexact : t.outline = target.outline := Ty.outline_of_shape (hbare.symm.trans hbound) hshape
    refine ⟨fun t' ht' _ => ⟨w, hw, ?_⟩, Yields.mono (cast_checks hk hc) fun x hx hout => ?_⟩
    · rw [hbound, ← Option.some.inj (Eq.trans (Eq.symm hn) ht')]
    obtain ⟨d, s, hs, hdout, hd⟩ := hx hout
    obtain ⟨t', ht', htout⟩ := type_of_outline hdout.symm hs
    obtain rfl : t = t' := Option.some.inj (ht.symm.trans ht')
    obtain ⟨y, hy, hyout⟩ := type_of_outline hout hn
    obtain ⟨a, ha⟩ := hchild.addressType_ok
    obtain ⟨b, hb, hbout⟩ := addressType_mirrors hdout a ha
    have hyr : y.isReference = true := by rwa [Ty.eq_of_bare Ty.isReference_bare (Ty.bare_of_outline hyout)]
    refine Accepts.mono hd fun u hu => .of_bound (isComputed_of_outline hout rfl) hy hs
      (htout.symm.trans (hexact.trans hyout.symm)) hyr hu.resembles ⟨b, hb, fun v hv => ?_⟩
    subst hv
    obtain ⟨v', rfl, hvout⟩ := Option.map_eq_some_iff.mp hbout.symm
    rw [isVarying_of_outline hvout.symm]
    exact hplaced href v' ha

end

end

/-! ## Trees -/

theorem leaf_mimics {e : Expr} (hk : Repeatable T e) (hn : e.awaitsTarget = false) (hc : check e = return some e) :
    Mimics T e e := by
  obtain ⟨t, ht, -⟩ := hk.checked.typed
  refine .rebuilt rfl ?_
  rw [hc]
  exact Yields.some fun _ => Accepts.some (.refl (.closed hn ht))

theorem name_mimics {f : FunctionName} (hk : Repeatable T (.function f)) : Mimics T (.function f) (.function f) := by
  obtain ⟨t, ht, -⟩ := hk.checked.typed
  have hknown := hk.recurs.here.known f rfl
  have hdetermined : (Expr.function f).Determined := .name hknown ht (hk.tolerant.here.node t ht)
  refine .rebuilt rfl ?_
  rw [check, hknown.settleType_eq]
  refine Gives.bind (Meets.gives (note_meets f)) fun _ _ => Yields.some fun _ => ?_
  exact Quiet.accepts (Quiet.bind (note_quiet f) fun _ _ => Quiet.pure ⟨_, rfl, .refl hdetermined⟩)

section
variable {c o : Expr}

theorem placed_of_alongside (h : Alongside T c o) (hs : isSymbol c = false) : Placed T c o := by
  refine Yields.mono h fun d hd => Accepts.mono hd fun u hu => ⟨hu, hu.resembles.stored ?_⟩
  have hredrawn := hu.redrawn
  cases d with
  | symbol =>
    cases c with
    | list =>
      obtain ⟨_, _, _, hd, -⟩ := hredrawn
      cases hd
    | symbol => cases hs
    | _ => cases hredrawn
  | _ => rfl

theorem Held.placed (hk : Repeatable T c) (h : Held (Follows T) c o) : Placed T c o := by
  cases h with
  | symbol hs =>
    cases c with
    | symbol node s =>
      obtain ⟨t, ht, -⟩ := hk.checked.typed
      rw [Placed, check]
      exact Yields.some (Accepts.some ⟨⟨⟨hk.tolerant, rfl, t, ht⟩, .refl (.closed rfl ht)⟩, .refl _⟩)
    | _ => cases hs
  | other hs _ h => exact placed_of_alongside h.tracks hs

end

section
variable {e o : Expr} (hk : Repeatable T e)
include hk

theorem isLeaf_mimics (he : isLeaf e = true) : Mimics T e e := by
  cases e with
  | const | null | symbol => exact leaf_mimics hk rfl rfl
  | sync | sizeOf | sizeOfType => exact .kept hk rfl rfl
  | function => exact name_mimics hk
  | _ => cases he

/-- Where another check of the children goes alongside that of what became of them, it does so for what became of the node. -/
theorem Rewritten.follows (ho : Rewritten T (Follows T) e o) : Follows T e o := by
  have href : Refined T e o := ho.refined hk.checked fun _ _ => Follows.refined
  have hf := hk.checked.here
  have placed : ∀ {c c'}, c ∈ e.children → Held (Follows T) c c' → Placed T c c' := fun hm hc => hc.placed (hk.child hm)
  have given : ∀ {c c'}, Option.Rel (Follows T) c c' → Option.Rel (Alongside T) c c' := fun h => by
    cases h with
    | some h => exact .some h.tracks
    | none => exact .none
  have mimics : e.isList = false → Mimics T e o → Follows T e o := fun hl hm => hm.follows hk hl href
  cases ho with
  | leaf he => exact mimics (by cases e <;> first | rfl | cases he) (isLeaf_mimics hk he)
  | value hv hlit => exact mimics rfl (symbol_mimics hf (Option.isSome_of_eq_some hv) hlit)
  | unary hn hc => exact mimics rfl (unary_mimics hn hk hc.tracks)
  | foldedUnary _ _ hlit => exact mimics rfl (hlit.mimics hk rfl rfl)
  | step hn hc => exact mimics rfl (step_mimics hn (placed (by simp [children]) hc))
  | binary hn hl hr => exact mimics rfl (binary_mimics hn hk hl.tracks hr.tracks)
  | foldedBinary _ _ _ _ _ _ hlit => exact mimics rfl (hlit.mimics hk rfl rfl)
  | comma hl _ hr _ hu hvalue => exact mimics rfl (comma_mimics hk hl.tracks hr hu hvalue)
  | readComma hl _ hr _ hu => exact mimics rfl (comma_reads hk hl.tracks hr hu rfl)
  | assign hn ht hv => exact mimics rfl (assign_mimics hn hk (placed (by simp [children]) ht) hv.tracks)
  | select hn ht _ ha hb => exact mimics rfl (select_mimics hn hk ht.tracks ha.tracks hb.tracks)
  | @branch _ _ _ _ _ _ _ _ v ht _ ha hb =>
    cases v with
    | true => exact mimics rfl (select_replaced hk ht.tracks ha.tracks hb.tracks (.inl ⟨rfl, rfl⟩))
    | false => exact mimics rfl (select_replaced hk ht.tracks ha.tracks hb.tracks (.inr ⟨rfl, rfl⟩))
  | foldedSelect _ _ _ _ _ _ _ _ hlit => exact mimics rfl (hlit.mimics hk rfl rfl)
  | list hn hes => exact ⟨href, fun t ht _ => ⟨t, hn.trans ht, rfl⟩, list_tracks hk (hes.imp fun _ _ => Follows.tracks)⟩
  | call hn hc has hcount => exact mimics rfl (call_mimics hn hk hc.tracks (has.imp fun _ _ => Follows.tracks) (given hcount))
  | index hn hb hp => exact mimics rfl (index_mimics hn hk hb.tracks hp.tracks)
  | member hn hb => exact mimics rfl (member_mimics hn hk hb.tracks)
  | cast hn hc => exact mimics rfl (cast_mimics hn hk hc.tracks)
  | droppedCast hc hu hsame => exact mimics rfl (cast_replaced hk hc hu hsame)
  | foldedCast _ _ hlit => exact mimics rfl (hlit.mimics hk rfl rfl)
  | reference hn hc => exact mimics rfl (reference_mimics hn (placed (by simp [children]) hc))
  | dereference hn hc => exact mimics rfl (dereference_mimics hn hc.tracks)
  | addressOf hn hc => exact mimics rfl (addressOf_mimics hn (placed (by simp [children]) hc))
  | new hn hcount hinit => exact mimics rfl (new_mimics hn hk (given hcount) (given hinit))

end

/-- Another check of a checked tree that is folded goes alongside another check of the tree. -/
theorem optimize_follows {e : Expr} (h : Repeatable T e) : Folds U (optimize e) (Follows T e) := by
  induction e using Expr.induct with
  | h e ih =>
  have child : ∀ c ∈ e.children, Folds U (optimize c) (Follows T c) := fun c hc => ih c hc (h.child hc)
  exact Folds.mono (optimize_rewrites h.checked (fun _ _ => Follows.refined) child) fun o ho => ho.follows h

theorem typecheck_repeatable {e : Expr} (h : Everywhere (Loaded T) e) : Yields T (typecheck e) fun t =>
    Everywhere Repeats t → Everywhere Tolerant t → Repeatable T t := by
  have hprepared := prepared_of_loaded h
  refine Yields.mono (needed_yields (check_delivers hprepared) (Yields.and (check_wellTyped hprepared) (check_rooted h))) fun t ht => ?_
  obtain ⟨⟨hw, -, hrecurs⟩, ho, u, hu⟩ := ht
  exact fun hrep htol => ⟨ho.toChecked hu, hw, hrecurs, hrep, htol⟩

/-- What the optimizer makes of a checked tree is accepted, with the type of the tree but for `const`. -/
theorem typecheck_optimized {e : Expr} (h : Everywhere (Loaded T) e) : Yields T (typecheck e) fun t =>
    Everywhere Repeats t → Everywhere Tolerant t → Folds U (optimize t) fun o =>
      Accepts T (typecheck o) fun u => ∃ a b, t.type? = some a ∧ u.type? = some b ∧ b.relaxed = a.relaxed := by
  refine Yields.mono (Yields.and (typecheck_repeatable h) (typecheck_again h)) fun t ht hrep htol => ?_
  have hk := ht.1 hrep htol
  obtain ⟨a, ha, -⟩ := hk.checked.typed
  refine Folds.mono (optimize_follows hk) fun o ho s hs => ?_
  obtain ⟨_, s', hrun, -, -, d, rfl, hd⟩ := (ht.2 hrep).run hs
  have hbeside := ((resolved_needed ho.tracks) s hs _ _ hrun).1 d rfl
  refine Accepts.mono (needed_accepts hbeside fun _ hu => hu.resembles.determined) (fun u hu => ?_) s hs
  obtain ⟨x, hx, hxout⟩ := type_of_outline hd ha
  obtain ⟨b, hb, hrelaxed⟩ := hu.resembles.type hx
  exact ⟨a, b, ha, hb, hrelaxed.trans (Ty.relaxed_of_outline hxout)⟩

end Check

end Spmd
