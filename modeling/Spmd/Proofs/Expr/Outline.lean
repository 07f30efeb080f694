import Spmd.Expr.Storage
import Spmd.Proofs.Except
import Spmd.Proofs.Expr.Everywhere
import Spmd.Proofs.Ty.Outline

/-!
# Outlines of expressions

`Expr.outline` keeps what a check looks at in a checked tree: its form and the outlines of its types, without places and
without what checks add for the emission of code. A dump shows nothing else (`Expr.dump_outline`), and the outline of a
tree decides what storage it denotes.
-/

namespace Spmd

def Node.outline (n : Node) : Node := ⟨none, none, n.type.map Ty.outline⟩

def Access.outline : Access → Access
  | field i aggregate => .field i aggregate.outline
  | swizzle indices aggregate => .swizzle indices aggregate.outline

namespace Expr

mutual
def outline : Expr → Expr
  | unary n op e => unary n.outline op e.outline
  | step n s e _ => step n.outline s e.outline none
  | binary n op l r _ => binary n.outline op l.outline r.outline false
  | assign n op t v _ => assign n.outline op t.outline v.outline none
  | select n t a b => select n.outline t.outline a.outline b.outline
  | list n es => list n.outline (outlineEach es)
  | call n c args launch count _ => call n.outline c.outline (outlineEach args) launch (outlineOf count) none
  | index n b i => index n.outline b.outline i.outline
  | member n b name arrow access => member n.outline b.outline name arrow (access.map Access.outline)
  | const n v => const n.outline v
  | cast n t e _ => cast n.outline t.outline e.outline false
  | reference n e => reference n.outline e.outline
  | dereference n e => dereference n.outline e.outline
  | addressOf n e => addressOf n.outline e.outline
  | sizeOf n e => sizeOf n.outline e.outline
  | sizeOfType n t => sizeOfType n.outline t.outline
  | symbol n s => symbol n.outline s
  | function f => function { f with node := f.node.outline }
  | sync n => sync n.outline
  | null n => null n.outline
  | new n t count init varying => new n.outline t.outline (outlineOf count) (outlineOf init) varying
def outlineEach : List Expr → List Expr
  | [] => []
  | e :: es => e.outline :: outlineEach es
def outlineOf : Option Expr → Option Expr
  | none => none
  | some e => some e.outline
end

variable {e e' : Expr}

theorem outlineEach_eq (es : List Expr) : outlineEach es = es.map outline := by
  induction es with
  | nil => rfl
  | cons e es ih => rw [outlineEach, ih, List.map_cons]

theorem outlineOf_eq (o : Option Expr) : outlineOf o = o.map outline := by cases o <;> rfl

theorem node_outline (e : Expr) : e.outline.node = e.node.outline := by cases e <;> rfl

theorem type_outline (e : Expr) : e.outline.type? = e.type?.map Ty.outline := congrArg Node.type e.node_outline

/-! ## Text -/

theorem kindName_outline (e : Expr) : e.outline.kindName = e.kindName := by cases e <;> rfl

theorem text_type_outline (t : Ty) : t.outline.text = t.text := Ty.eq_of_bare Ty.text_bare (Ty.bare_outline t)

theorem label_outline (e : Expr) : e.outline.label = e.label := by
  cases e with
  | cast n t e reported => exact congrArg ("<" ++ · ++ ">") (text_type_outline t)
  | _ => rfl

theorem line_outline (e : Expr) : e.outline.line = e.line := by
  unfold line
  rw [kindName_outline, label_outline, type_outline]
  cases e.type? with
  | none => rfl
  | some t => simp only [Option.map_some, text_type_outline]

theorem dumpAll_outline {es : List Expr} (h : ∀ e ∈ es, e.outline.dump = e.dump) : dumpAll (outlineEach es) = dumpAll es := by
  induction es with
  | nil => rfl
  | cons e es ih =>
    rw [outlineEach, dumpAll, dumpAll, h e List.mem_cons_self, ih fun c hc => h c (List.mem_cons_of_mem e hc)]

/-- A dump shows the outline of a tree and nothing else. -/
theorem dump_outline (e : Expr) : e.outline.dump = e.dump := by
  induction e using Expr.induct with
  | h e ih =>
  have hline := e.line_outline
  cases e with
  | unary n op a | step n s a amount | member n a name arrow access | cast n t a reported | reference n a | dereference n a
  | addressOf n a | sizeOf n a =>
    rw [outline] at hline ⊢
    rw [dump, dump, hline, ih a (by simp [children])]
  | binary n op a b reported | assign n op a b operandType | index n a b =>
    rw [outline] at hline ⊢
    rw [dump, dump, hline, ih a (by simp [children]), ih b (by simp [children])]
  | select n t a b =>
    rw [outline] at hline ⊢
    rw [dump, dump, hline, ih t (by simp [children]), ih a (by simp [children]), ih b (by simp [children])]
  | list n es =>
    have hall : dumpAll (outlineEach es) = dumpAll es := dumpAll_outline ih
    rw [outline] at hline ⊢
    rw [dump, dump, hline, hall]
  | call n c args launch count signature =>
    have hargs : dumpAll (outlineEach args) = dumpAll args := dumpAll_outline fun a ha => ih a (by simp [children, ha])
    cases count with
    | none =>
      rw [outline, outlineOf] at hline ⊢
      rw [dump, dump, hline, ih c (by simp [children]), hargs]
    | some m =>
      rw [outline, outlineOf] at hline ⊢
      rw [dump, dump, hline, ih c (by simp [children]), hargs, ih m (by simp [children])]
  | new n t count init varying =>
    cases count with
    | none =>
      cases init with
      | none => exact congrArg (· ++ "" ++ "") hline
      | some a =>
        rw [outline, outlineOf, outlineOf] at hline ⊢
        rw [dump, dump, hline, ih a (by simp [children])]
    | some m =>
      cases init with
      | none =>
        rw [outline, outlineOf, outlineOf] at hline ⊢
        rw [dump, dump, hline, ih m (by simp [children])]
      | some a =>
        rw [outline, outlineOf, outlineOf] at hline ⊢
        rw [dump, dump, hline, ih m (by simp [children]), ih a (by simp [children])]
  | const n v | sizeOfType n t | symbol n s | sync n | null n | function f => exact hline

/-! ## Trees with one outline -/

theorem isNull_outline (e : Expr) : e.outline.isNull = e.isNull := by cases e <;> rfl

theorem isZeroConstant_outline (e : Expr) : e.outline.isZeroConstant = e.isZeroConstant := by
  cases e with
  | const n v =>
    show ((n.type.map Ty.outline).any Ty.isInteger && v.isZero) = (n.type.any Ty.isInteger && v.isZero)
    cases n.type with
    | none => rfl
    | some t => exact congrArg (· && v.isZero) (Ty.eq_of_bare Ty.isInteger_bare (Ty.bare_outline t))
  | _ => rfl

section
variable (h : e'.outline = e.outline)
include h

theorem type_of_outline {t : Ty} (ht : e.type? = some t) : ∃ t', e'.type? = some t' ∧ t'.outline = t.outline := by
  have htype := congrArg type? h
  rw [type_outline, type_outline, ht] at htype
  exact Option.map_eq_some_iff.mp htype

theorem function_of_outline {f : FunctionName} (he : e = .function f) :
    ∃ f', e' = .function f' ∧ f'.isResolved = f.isResolved ∧ f'.choice = f.choice := by
  subst he
  cases e' with
  | function f' =>
    simp only [outline, function.injEq, FunctionName.mk.injEq] at h
    obtain ⟨-, -, hcandidates, hchoice⟩ := h
    refine ⟨f', rfl, ?_, hchoice⟩
    simp only [FunctionName.isResolved, FunctionName.function?, hcandidates, hchoice]
  | _ => cases h

theorem list_of_outline {n : Node} {items : List Expr} (he : e = .list n items) :
    ∃ n' items', e' = .list n' items' ∧ items'.map outline = items.map outline := by
  subst he
  cases e' with
  | list n' items' =>
    simp only [outline, list.injEq, outlineEach_eq] at h
    exact ⟨n', items', rfl, h.2⟩
  | _ => cases h

/-! ## Storage -/

end

theorem accessedType_outline (a : Access) : accessedType? a.outline = (accessedType? a).map Ty.outline := by
  cases a with
  | field i aggregate => exact Ty.outline_elementAt i aggregate
  | swizzle indices aggregate => cases aggregate <;> rfl

theorem isAddressable_outline (a : Access) : a.outline.isAddressable = a.isAddressable := by cases a <;> rfl

theorem addressOfType_outline (t : Ty) (varying : Bool) : (addressOfType t varying).outline = addressOfType t.outline varying :=
  rfl

/-- Where one reading ends without a fault, so does the other, and the results look the same. -/
def Mirrors {α β : Type} (f : α → β) (x x' : Except Fault α) : Prop := ∀ a, x = .ok a → ∃ a', x' = .ok a' ∧ f a' = f a

section
variable {α β γ δ : Type} {f : α → β} {g : γ → δ} {x x' : Except Fault α} {a a' : α}

theorem Mirrors.ok (h : f a' = f a) : Mirrors f (.ok a) (.ok a') := by
  rintro _ ⟨⟩
  exact ⟨a', rfl, h⟩

theorem Mirrors.bind {k k' : α → Except Fault γ} (h : Mirrors f x x') (hk : ∀ a a', f a' = f a → Mirrors g (k a) (k' a')) :
    Mirrors g (x >>= k) (x' >>= k') := by
  intro c hc
  obtain ⟨a, rfl, hc⟩ := bind_eq_ok hc
  obtain ⟨a', rfl, ha⟩ := h a rfl
  exact hk a a' ha c hc

theorem Mirrors.map {k : α → γ} {k' : α → γ} (h : Mirrors f x x') (hk : ∀ a a', f a' = f a → g (k' a') = g (k a)) :
    Mirrors g (k <$> x) (k' <$> x') :=
  Mirrors.bind h fun a a' ha => Mirrors.ok (hk a a' ha)

end

theorem mirrors_type (h : e'.outline = e.outline) : Mirrors Ty.outline e.type e'.type := by
  intro t ht
  unfold type Node.checked at ht
  split at ht
  · rename_i u hu
    cases ht
    obtain ⟨t', ht', hout⟩ := type_of_outline h hu
    refine ⟨t', ?_, hout⟩
    rw [type, Node.checked, show e'.node.type = some t' from ht']
  · cases ht

theorem isVarying_of_outline {t t' : Ty} (h : t'.outline = t.outline) : t'.isVarying = t.isVarying :=
  Ty.eq_of_bare Ty.isVarying_bare (Ty.bare_of_outline h)

section
variable {x x' : Except Fault (Option Ty)} {y y' : Except Fault Ty} (hy : Mirrors Ty.outline y y')
include hy

theorem storageVariability_mirrors (hx : Mirrors (Option.map Ty.outline) x x') :
    Mirrors id (storageVariability x y) (storageVariability x' y') := by
  refine Mirrors.bind hx fun a a' ha => ?_
  cases a with
  | some t =>
    obtain ⟨t', rfl, ht⟩ := Option.map_eq_some_iff.mp ha
    exact Mirrors.ok (congrArg some (isVarying_of_outline ht))
  | none =>
    rw [Option.map_none, Option.map_eq_none_iff] at ha
    subst ha
    refine Mirrors.bind hy fun t t' ht => Mirrors.ok ?_
    rw [Ty.eq_of_bare Ty.isReference_bare (Ty.bare_of_outline ht)]

theorem elementAddressType_mirrors {t t' : Ty} {z z' : Except Fault Bool} (ht : t'.outline = t.outline) (hz : Mirrors id z z') :
    Mirrors (Option.map Ty.outline) (elementAddressType t z y) (elementAddressType t' z' y') := by
  have hs : t'.stored.outline = t.stored.outline := Ty.outline_eq Ty.outline_stored ht
  -- the address of an element of a sequence that is storage
  have element : ∀ {u u' : Ty}, u'.outline = u.outline → Mirrors (Option.map Ty.outline)
      (do if ← z then .ok (some (addressOfType u (← y).isVarying)) else .ok none)
      (do if ← z' then .ok (some (addressOfType u' (← y').isVarying)) else .ok none) := by
    intro u u' hu
    refine Mirrors.bind hz fun b b' hb => ?_
    cases hb
    cases b with
    | false => exact Mirrors.ok rfl
    | true =>
      refine Mirrors.bind hy fun p p' hp => Mirrors.ok ?_
      rw [Option.map_some, Option.map_some, addressOfType_outline, addressOfType_outline, hu, isVarying_of_outline hp]
  unfold elementAddressType
  generalize t.stored = u at hs
  generalize t'.stored = u' at hs
  cases u with
  | pointer p q o =>
    cases u' with
    | pointer p' q' o' =>
      simp only [Ty.outline, Ty.pointer.injEq] at hs
      obtain ⟨hp, rfl, -⟩ := hs
      have hpointer : ∀ v, Mirrors (Option.map Ty.outline) (.ok (some (addressOfType p v))) (.ok (some (addressOfType p' v))) :=
        fun v => Mirrors.ok (congrArg (some <| Ty.pointer · _) hp)
      dsimp only
      split
      · exact hpointer true
      · refine Mirrors.bind (f := id) (Mirrors.map hy fun _ _ => isVarying_of_outline) fun v v' hv => ?_
        cases hv
        exact hpointer v
    | _ => cases hs
  | array e n o =>
    cases u' with
    | array e' n' o' =>
      simp only [Ty.outline, Ty.array.injEq] at hs
      exact element hs.1
    | _ => cases hs
  | vector s n o =>
    cases u' with
    | vector s' n' o' =>
      simp only [Ty.outline, Ty.vector.injEq] at hs
      exact element (congrArg Ty.scalar hs.1)
    | _ => cases hs
  | _ =>
    cases u' with
    | pointer | array | vector => cases hs
    | _ => exact Mirrors.ok rfl

end

theorem pickedAddress_mirrors {a a' : Access} (h : (accessedType? a').map Ty.outline = (accessedType? a).map Ty.outline)
    (name : String) (varying : Bool) :
    Mirrors (Option.map Ty.outline)
      (match accessedType? a with
        | some t => Except.ok (some (addressOfType t varying))
        | none => Except.error (Fault.missingMember name))
      (match accessedType? a' with
        | some t => Except.ok (some (addressOfType t varying))
        | none => Except.error (Fault.missingMember name)) := by
  cases hp : accessedType? a with
  | none => exact nofun
  | some t =>
    rw [hp] at h
    obtain ⟨t', ht', hout⟩ := Option.map_eq_some_iff.mp h
    rw [ht']
    exact Mirrors.ok (congrArg (some <| Ty.pointer · _) hout)

theorem member_addressType_mirrors {n n' : Node} {b b' : Expr} {a a' : Access} (name : String) (arrow : Bool)
    (hb : b'.outline = b.outline) (hbase : Mirrors (Option.map Ty.outline) b.addressType b'.addressType)
    (ha : a'.outline = a.outline) :
    Mirrors (Option.map Ty.outline) (member n b name arrow (some a)).addressType (member n' b' name arrow (some a')).addressType := by
  have haddressable : a'.isAddressable = a.isAddressable := by
    rw [← isAddressable_outline, ha, isAddressable_outline]
  have hpicked : (accessedType? a').map Ty.outline = (accessedType? a).map Ty.outline := by
    rw [← accessedType_outline, ha, accessedType_outline]
  -- the base is a pointer or storage, and either way both addresses vary or neither does
  have picked : ∀ {x x' : Except Fault (Option Bool)} {k k' : Option Bool → Except Fault (Option Ty)}, Mirrors id x x' →
      Mirrors (Option.map Ty.outline) (k none) (k' none) →
      (∀ v, Mirrors (Option.map Ty.outline) (k (some v)) (k' (some v))) →
      Mirrors (Option.map Ty.outline) (x >>= k) (x' >>= k') := by
    intro x x' k k' hx hnone hsome
    refine Mirrors.bind hx fun v v' hv => ?_
    cases hv
    cases v with
    | none => exact hnone
    | some v => exact hsome v
  simp only [addressType, haddressable]
  split
  · exact Mirrors.ok rfl
  · split
    · refine picked (Mirrors.map (mirrors_type hb) fun t t' ht => ?_) (Mirrors.ok rfl) (pickedAddress_mirrors hpicked name)
      exact congrArg some (isVarying_of_outline (Ty.outline_eq Ty.outline_stored ht))
    · exact picked (storageVariability_mirrors (mirrors_type hb) hbase) (Mirrors.ok rfl) (pickedAddress_mirrors hpicked name)

theorem dereference_addressType_mirrors {n n' : Node} {c c' : Expr} (h : c'.outline = c.outline) :
    Mirrors (Option.map Ty.outline) (dereference n c).addressType (dereference n' c').addressType := by
  rw [addressType, addressType]
  refine Mirrors.bind (mirrors_type h) fun t t' ht => ?_
  cases t with
  | reference u o =>
    cases t' with
    | reference u' o' =>
      simp only [Ty.outline, Ty.reference.injEq, and_true] at ht
      exact Mirrors.ok (congrArg (some <| Ty.pointer · _) ht)
    | _ => cases ht
  | pointer p q o =>
    cases t' with
    | pointer p' q' o' =>
      simp only [Ty.outline, Ty.pointer.injEq, and_true] at ht
      obtain ⟨hp, rfl⟩ := ht
      exact Mirrors.ok (congrArg (some <| Ty.pointer · _) hp)
    | _ => cases ht
  | _ =>
    cases t' with
    | reference | pointer => cases ht
    | _ => exact Mirrors.ok rfl

/-- The outline of a tree decides what storage it denotes. -/
theorem addressType_mirrors (h : e'.outline = e.outline) : Mirrors (Option.map Ty.outline) e.addressType e'.addressType := by
  induction e using Expr.induct generalizing e' with
  | h e ih =>
  -- the outlines are the same, so that the other node is of the same form
  cases e with
  | index n b i =>
    cases e' with
    | index n' b' i' =>
      simp only [outline, index.injEq] at h
      have hb : Mirrors _ b.addressType b'.addressType := ih b (by simp [children]) h.2.1
      have hs := storageVariability_mirrors (mirrors_type h.2.1) hb
      rw [addressType, addressType]
      refine Mirrors.bind (mirrors_type h.2.1) fun t t' ht => elementAddressType_mirrors (mirrors_type h.2.2) ht ?_
      exact Mirrors.map hs fun a a' ha => congrArg Option.isSome ha
    | _ => cases h
  | member n b name arrow access =>
    cases e' with
    | member n' b' name' arrow' access' =>
      simp only [outline, member.injEq] at h
      obtain ⟨-, hb, rfl, rfl, haccess⟩ := h
      cases access with
      | none => exact nofun
      | some a =>
        obtain ⟨a', rfl, ha⟩ := Option.map_eq_some_iff.mp haccess
        exact member_addressType_mirrors name' arrow' hb (ih b (by simp [children]) hb) ha
    | _ => cases h
  | reference n c =>
    cases e' with
    | reference n' c' =>
      simp only [outline, reference.injEq] at h
      have hc : Mirrors _ c.addressType c'.addressType := ih c (by simp [children]) h.2
      rw [addressType, addressType]
      exact hc
    | _ => cases h
  | dereference n c =>
    cases e' with
    | dereference n' c' =>
      simp only [outline, dereference.injEq] at h
      exact dereference_addressType_mirrors h.2
    | _ => cases h
  | symbol n s =>
    cases e' with
    | symbol n' s' =>
      rw [addressType, addressType]
      exact Mirrors.bind (mirrors_type h) fun t t' ht => Mirrors.ok (congrArg (some <| Ty.pointer · _) ht)
    | _ => cases h
  | _ =>
    cases e' with
    | index | member | reference | dereference | symbol => cases h
    | _ => exact Mirrors.ok rfl

theorem isAssignable_mirrors (h : e'.outline = e.outline) : Mirrors id e.isAssignable e'.isAssignable :=
  Mirrors.map (addressType_mirrors h) fun a a' ha => by
    rw [id, id, ← Option.isSome_map (f := Ty.outline), ha, Option.isSome_map]

theorem isStorage_mirrors (h : e'.outline = e.outline) : Mirrors id e.isStorage e'.isStorage :=
  Mirrors.map (storageVariability_mirrors (mirrors_type h) (addressType_mirrors h)) fun _ _ ha => congrArg Option.isSome ha

end Expr

end Spmd
