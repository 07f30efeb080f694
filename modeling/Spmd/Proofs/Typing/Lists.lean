import Spmd.Proofs.Sharing.Conversion
import Spmd.Proofs.Typing.Acceptance
import Spmd.Proofs.Typing.Resolution
import Spmd.Proofs.Typing.Reports

/-!
# Lists convert item by item

An initializer list becomes an aggregate with the converted items, and does so when all of its items convert
(`lists_convert`). This leaves out varying lists, which become no uniform aggregate, and the few items that convert in a way
that their types do not tell (`Expr.MisreadFor`, `Expr.NullFor`).
-/

namespace Spmd

namespace Expr

/-- A reference that is given where the function, or `void`, that it refers to is wanted. -/
def MisreadFor (a : Expr) (p : Ty) : Prop :=
  ∃ t o, a.type? = some (.reference t o) ∧ t.same p = true ∧ (p.isVoid = true ∨ p.isFunction = true)

/-- A null pointer or a literal zero that is given where a pointer is wanted that its own type does not convert to. -/
def NullFor (a : Expr) (p : Ty) : Prop :=
  (a.isNull || a.isZeroConstant) = true ∧ ∃ t, a.type? = some t ∧ t.acceptsNull p = true ∧ t.converts false p = false

theorem MisreadFor.obstacle {a : Expr} {t p : Ty} (h : MisreadFor a p) (ht : a.type? = some t) :
    Ty.obstacle false t p ≠ none := by
  obtain ⟨r, o, hr, -, hp⟩ := h
  obtain rfl : t = .reference r o := Option.some.inj (ht.symm.trans hr)
  intro ho
  rcases hp with hvoid | hfunction
  · have hv := Ty.obstacle_to_void hvoid ho
    cases hv
  · have hsame := Ty.same_of_function hfunction ho
    cases p with
    | function => cases hsame
    | _ => cases hfunction

theorem Operand.waiting {T : Target} {e : Expr} (h : Operand T e) : Waiting (fun _ f => Known f.settleType) none e := by
  induction h with
  | name known => exact .name (known.settleType_eq.symm ▸ known)
  | list _ _ _ ih => exact .list ih
  | checked _ closed => exact .closed closed

end Expr

namespace Check

open Spmd.Expr

variable {T : Target} {α β : Type} {context : String} {e : Expr} {s t : Ty}

/-! ## Checks that are decided -/

/-- A check without a result that reports an error. -/
def Refuses (T : Target) (m : Check (Option α)) : Prop := Meets T m fun o new => o = none ∧ Log.errors new ≠ []

theorem Refuses.bind {m : Check (Option β)} {k : Option β → Check (Option α)} (h : Refuses T m)
    (hn : k none = Pure.pure none) : Refuses T (m >>= k) := by
  refine Meets.bind h fun o new ho => ?_
  obtain ⟨rfl, hnew⟩ := ho
  rw [hn]
  refine Meets.pure ⟨rfl, ?_⟩
  rwa [List.append_nil]

theorem Refuses.after {m : Check (Option β)} {k : Option β → Check (Option α)} {b : β} (h : Accepts T m (· = b))
    (hk : Refuses T (k (some b))) : Refuses T (m >>= k) := by
  refine Meets.bind h fun o new ho => ?_
  obtain ⟨hnew, _, rfl, rfl⟩ := ho
  refine Meets.mono hk fun o more hmore => ⟨hmore.1, ?_⟩
  rw [Log.errors_append, hnew]
  exact hmore.2

theorem Refuses.not_accepts {m : Check (Option α)} {P : α → Prop} (h : Refuses T m) : ¬ Accepts T m P := by
  intro ha
  obtain ⟨o, new, found, -, ⟨hnone, -⟩, -, a, hsome, -⟩ := Meets.and h ha { target := T } rfl
  rw [hnone] at hsome
  cases hsome

theorem Accepts.unique {m : Check (Option α)} {a b : α} (ha : Accepts T m (· = a)) (hb : Accepts T m (· = b)) : a = b := by
  obtain ⟨o, new, found, -, ⟨-, x, ho, rfl⟩, -, y, ho', rfl⟩ := Meets.and ha hb { target := T } rfl
  rw [ho] at ho'
  exact Option.some.inj ho'

/-- An expression converts to another one in every session, and no error is reported. -/
def Turns (T : Target) (context : String) (e : Expr) (t : Ty) (d : Expr) : Prop := Accepts T (convert e t context) (· = d)

/-- In every session a conversion gives the same expression, or none. -/
theorem convert_decides (he : Operand T e) (ht : t.Legal) (context : String) :
    (∃ d, Turns T context e t d) ∨ Refuses T (convert e t context) := by
  have hleaves : Leaves T _ none (convert e t context) := convert_leaves known_lawful he.waiting t
  obtain ⟨o, new, found, hrun, -, -, -, hout⟩ := hleaves.settles rfl (convert_delivers he context ht)
  cases o with
  | none => exact .inr fun s hs => ⟨none, new, found, hrun s hs, rfl, hout⟩
  | some d => exact .inl ⟨d, fun s hs => ⟨some d, new, found, hrun s hs, hout.1, d, rfl, rfl⟩⟩

/-! ## Items -/

/-- The items of a list convert to the types of their positions, or one of them is refused, and so are the items together. -/
theorem convertItems_decides (context : String) {items : List Expr} : ∀ {us : List Ty}, us.length = items.length →
    (∀ q ∈ items.zip us, Operand T q.1 ∧ q.2.Legal) →
    (∃ ds, List.Forall₂ (fun q d => Turns T context q.1 q.2 d) (items.zip us) ds ∧
        Accepts T (convertItems items (us.map some) context) (· = ds)) ∨
      (∃ q ∈ items.zip us, Refuses T (convert q.1 q.2 context)) ∧
        Refuses T (convertItems items (us.map some) context) := by
  induction items with
  | nil =>
    intro us _ _
    refine .inl ⟨[], .nil, ?_⟩
    rw [convertItems]
    exact Accepts.some rfl
  | cons e es ih =>
    intro us hn hall
    cases us with
    | nil => cases hn
    | cons u us =>
      obtain ⟨hfirst, hrest⟩ := List.forall_mem_cons.mp hall
      rw [List.map_cons, convertItems, List.zip_cons_cons]
      rcases convert_decides hfirst.1 hfirst.2 context with ⟨d, hd⟩ | hd
      · rcases ih (by simpa using hn) hrest with ⟨ds, hds, hitems⟩ | ⟨⟨q, hq, hrefused⟩, hitems⟩
        · refine .inl ⟨d :: ds, .cons hd hds, Accepts.bind hd fun _ ho => ?_⟩
          subst ho
          refine Accepts.bind hitems fun _ ho => ?_
          subst ho
          exact Accepts.some rfl
        · refine .inr ⟨⟨q, List.mem_cons_of_mem _ hq, hrefused⟩, Refuses.after hd ?_⟩
          exact Refuses.bind hitems rfl
      · exact .inr ⟨⟨(e, u), List.mem_cons_self, hd⟩, Refuses.bind hd rfl⟩

theorem firstObstacle_items {explicit : Bool} {items : List Expr} : ∀ {ts us : List Ty}, items.map type? = ts.map some →
    (Ty.firstObstacle explicit ts us = none ↔
      ∀ q ∈ items.zip us, ∀ t, q.1.type? = some t → Ty.obstacle explicit t q.2 = none) := by
  induction items with
  | nil =>
    intro ts us hts
    cases ts with
    | nil => exact ⟨fun _ _ hq => (List.not_mem_nil hq).elim, fun _ => rfl⟩
    | cons => cases hts
  | cons e es ih =>
    intro ts us hts
    cases ts with
    | nil => cases hts
    | cons t ts =>
      cases us with
      | nil => exact ⟨fun _ _ hq => (List.not_mem_nil hq).elim, fun _ => rfl⟩
      | cons u us =>
        obtain ⟨ht, hts⟩ := List.cons.inj hts
        have hfirst : (∀ s, e.type? = some s → Ty.obstacle explicit s u = none) ↔ Ty.obstacle explicit t u = none :=
          ⟨fun h => h t ht, fun h s hs => Option.some.inj (ht.symm.trans hs) ▸ h⟩
        rw [List.zip_cons_cons, List.forall_mem_cons, hfirst, ← ih hts, Ty.firstObstacle]
        cases Ty.obstacle explicit t u with
        | none => exact ⟨fun h => ⟨rfl, h⟩, fun h => h.2⟩
        | some => exact ⟨nofun, fun h => h.1⟩

/-- Where an item converts, its type does, but for what is said of nulls and of what is read. -/
theorem obstacle_of_turns {d : Expr} (he : Operand T e) (hs : e.type? = some s) (ht : t.Legal) (hread : ¬ MisreadFor e t)
    (hnull : ¬ NullFor e t) (h : Turns T context e t d) : Ty.obstacle false s t = none := by
  have hnulls : (e.isNull || e.isZeroConstant) = true → ∀ u, e.type? = some u → u.acceptsNull t = true →
      u.converts false t = true := by
    intro hn u hu haccepts
    by_contra hc
    exact hnull ⟨hn, u, hu, haccepts, by simpa using hc⟩
  have hpassed : Passed e t := by
    refine ⟨?_, fun hn => hnulls (by rw [hn, Bool.true_or]), fun r o hr hsame => ?_⟩
    · rintro f rfl
      cases he with
      | name known =>
        have htype := known.type_eq.symm.trans hs
        obtain ⟨x, hx, -⟩ := Option.map_eq_some_iff.mp htype
        exact Option.isSome_iff_exists.mpr ⟨x, hx⟩
      | checked checked closed => cases closed
    · by_contra hvalue
      refine hread ⟨r, o, hr, hsame, ?_⟩
      cases hv : t.isVoid with
      | true => exact .inl rfl
      | false => exact .inr (by simpa [hv] using hvalue)
  obtain ⟨o, new, found, hrun, -, _, rfl, rfl⟩ := h { target := T } rfl
  have haccepted := (convert_accepted he hs ht hpassed context { target := T } rfl _ _ hrun).1 _ rfl
  rcases (Bool.or_eq_true _ _).mp haccepted with hzero | hconverts
  · obtain ⟨hz, haccepts⟩ := (Bool.and_eq_true _ _).mp hzero
    exact Option.isNone_iff_eq_none.mp (hnulls (by rw [show e.isZeroConstant = true from hz, Bool.or_true]) s hs haccepts)
  · exact Option.isNone_iff_eq_none.mp hconverts

/-! ## Lists -/

variable {node : Node} {items : List Expr} {ts us : List Ty} {d : Expr}

theorem fillTargets_of_listTargets {n : Nat} (hus : Ty.listTargets n t = .ok us) : fillTargets? n t = some (us.map some) := by
  cases hf : fillTargets? n t with
  | none => cases t <;> first | cases hus | cases hf
  | some xs => rw [fillTargets_eq hf hus]

theorem convert_list_refused (type_eq : node.type = some (.list ts)) (hus : Ty.listTargets items.length t = .ok us)
    (ho : Ty.obstacle false (.list ts) t ≠ none) (context : String) : Refuses T (convert (.list node items) t context) := by
  obtain ⟨o, ho⟩ := Option.ne_none_iff_exists'.mp ho
  rw [convert_list type_eq (fillTargets_of_listTargets hus), canConvert, ho, bind_assoc]
  refine Meets.bind (report_meets _ _) fun _ new hnew => Meets.pure ⟨rfl, ?_⟩
  subst hnew
  simp [Log.errors, Message.isError]

/-- What a list is refused for: it is varying, or has an item that is read for what it is not. -/
theorem convert_list_refuses (type_eq : node.type = some (.list ts)) (types : items.map type? = ts.map some)
    (hus : Ty.listTargets items.length t = .ok us)
    (h : (Ty.list ts).isVarying = true ∧ t.isUniform = true ∨ ∃ q ∈ items.zip us, MisreadFor q.1 q.2) (context : String) :
    Refuses T (convert (.list node items) t context) := by
  have hlength : items.length = ts.length := by simpa using congrArg List.length types
  have hsame : (Ty.list ts).same t = false := by
    cases t <;> first | rfl | cases hus
  refine convert_list_refused type_eq hus (fun ho => ?_) context
  rcases h with ⟨hv, hu⟩ | ⟨q, hq, hread⟩
  · rw [Ty.isUniform, eq_of_beq (Ty.obstacle_from_list_varying ho hsame (hlength ▸ hus) hv)] at hu
    cases hu
  · obtain ⟨us', hus', hfirst⟩ := Ty.obstacle_from_list (fillTargets_isReference (fillTargets_of_listTargets hus)) ho hsame
    obtain rfl : us' = us := by
      rw [← hlength, hus] at hus'
      exact (Except.ok.inj hus').symm
    obtain ⟨r, o, hr, -⟩ := id hread
    exact hread.obstacle hr ((firstObstacle_items types).mp hfirst q hq _ hr)

section
variable (type_eq : node.type = some (.list ts)) (types : items.map type? = ts.map some) (below : ∀ e ∈ items, Operand T e)
  (ht : t.Legal) (hus : Ty.listTargets items.length t = .ok us)
include below ht hus

theorem items_ok : us.length = items.length ∧ ∀ q ∈ items.zip us, Operand T q.1 ∧ q.2.Legal := by
  obtain ⟨hn, hlegal⟩ := fillTargets_ok (fillTargets_of_listTargets hus) hus ht
  refine ⟨by simpa using hn, fun q hq => ?_⟩
  obtain ⟨hitem, hu⟩ := List.of_mem_zip hq
  obtain ⟨u, hsome, hl⟩ := hlegal _ (List.mem_map_of_mem hu)
  exact ⟨below _ hitem, Option.some.inj hsome ▸ hl⟩

include type_eq

/-- Where its types do not stand in the way, a list converts as its items do. -/
theorem convert_list_decides (ho : Ty.obstacle false (.list ts) t = none) (context : String) :
    (∃ ds u, filledType items.length t = .ok u ∧
        List.Forall₂ (fun q d => Turns T context q.1 q.2 d) (items.zip us) ds ∧
        Turns T context (.list node items) t (.list (.typed node.place u) ds)) ∨
      (∃ q ∈ items.zip us, Refuses T (convert q.1 q.2 context)) ∧ Refuses T (convert (.list node items) t context) := by
  obtain ⟨hn, hall⟩ := items_ok below ht hus
  have hconvert : convert (.list node items) t context = _ := convert_list type_eq (fillTargets_of_listTargets hus)
  rw [canConvert_true ho, pure_bind, if_pos rfl] at hconvert
  rcases convertItems_decides context hn hall with ⟨ds, hds, hitems⟩ | ⟨hrefused, hitems⟩
  · have hlength : ds.length = items.length := by
      rw [← hds.length_eq, List.length_zip, hn, Nat.min_self]
    obtain ⟨u, hu, -⟩ := filledType_ok ds ht
    refine .inl ⟨ds, u, hlength ▸ hu, hds, ?_⟩
    rw [Turns, hconvert]
    refine Accepts.bind hitems fun _ hes => ?_
    subst hes
    exact Accepts.read hu (Accepts.some rfl)
  · rw [hconvert]
    exact .inr ⟨hrefused, Refuses.bind hitems rfl⟩

theorem convert_list_holds {context : String} (h : Turns T context (.list node items) t d) :
    ∃ ds u, filledType items.length t = .ok u ∧ d = .list (.typed node.place u) ds ∧
      List.Forall₂ (fun q d => Turns T context q.1 q.2 d) (items.zip us) ds := by
  by_cases ho : Ty.obstacle false (.list ts) t = none
  · rcases convert_list_decides type_eq below ht hus ho context with ⟨ds, u, hu, hds, hlist⟩ | ⟨-, hrefused⟩
    · exact ⟨ds, u, hu, h.unique hlist, hds⟩
    · exact absurd h hrefused.not_accepts
  · exact absurd h (convert_list_refused type_eq hus ho context).not_accepts

include types

theorem convert_list_accepts {context : String} (hv : ¬ ((Ty.list ts).isVarying = true ∧ t.isUniform = true))
    (hbare : ∀ q ∈ items.zip us, ¬ MisreadFor q.1 q.2 ∧ ¬ NullFor q.1 q.2)
    (hitems : ∀ q ∈ items.zip us, ∃ d, Turns T context q.1 q.2 d) :
    ∃ d, Turns T context (.list node items) t d := by
  obtain ⟨hn, hall⟩ := items_ok below ht hus
  have hlength : items.length = ts.length := by simpa using congrArg List.length types
  have hfirst : Ty.firstObstacle false ts us = none := by
    refine (firstObstacle_items types).mpr fun q hq s hs => ?_
    obtain ⟨d, hd⟩ := hitems q hq
    exact obstacle_of_turns (hall q hq).1 hs (hall q hq).2 (hbare q hq).1 (hbare q hq).2 hd
  have hvarying : (Ty.list ts).isVarying = true → t.isVarying = true := fun h =>
    Ty.isVarying_of_not_uniform (by simpa [h] using hv)
  have ho := Ty.obstacle_filling (hlength ▸ hus) hvarying hfirst
  rcases convert_list_decides type_eq below ht hus ho context with ⟨ds, u, -, -, hlist⟩ | ⟨⟨q, hq, hrefused⟩, -⟩
  · exact ⟨_, hlist⟩
  · obtain ⟨d, hd⟩ := hitems q hq
    exact absurd hd hrefused.not_accepts

end

end Check

open Check

variable {target : Target} {file : String} {json : Option Json} {p : Program} {e : Expr}

/-- A checked list of a program that becomes an aggregate becomes the list of its converted items. It becomes none if it is
varying and the aggregate is not, or if an item is a reference to the function, or to `void`, that is wanted for it. Any other
list becomes an aggregate as soon as all of its items convert to the types of their positions, unless one of them is a null
that only converts as one. -/
theorem lists_convert (hp : Program.read target file json = .ok p) (he : e ∈ p.expressions) :
    e.Everywhere fun n => ∀ s s' node items, s.target = target → (check n).run s = (.ok (some (.list node items)), s') →
      ∀ (t : Ty) us context, t.Legal → Ty.listTargets items.length t = .ok us →
        (∀ d, Turns target context (.list node items) t d → ∃ ds u, filledType items.length t = .ok u ∧
          d = .list (.typed node.place u) ds ∧
          List.Forall₂ (fun q d => Turns target context q.1 q.2 d) (items.zip us) ds) ∧
        ((Expr.list node items).isVarying = true ∧ t.isUniform = true ∨
            (∃ q ∈ items.zip us, Expr.MisreadFor q.1 q.2) →
          Refuses target (convert (.list node items) t context)) ∧
        (¬ ((Expr.list node items).isVarying = true ∧ t.isUniform = true) →
          (∀ q ∈ items.zip us, ¬ Expr.MisreadFor q.1 q.2 ∧ ¬ Expr.NullFor q.1 q.2) →
          (∀ q ∈ items.zip us, ∃ d, Turns target context q.1 q.2 d) →
          ∃ d, Turns target context (.list node items) t d) := by
  refine Expr.Everywhere.mono (fun n hn => ?_) (Program.prepared hp he).subtrees
  intro s s' node items hs hrun t us context ht hus
  have hoperand : Expr.Operand target (.list node items) := ((check_delivers hn).yields s hs _ _ hrun).1 _ rfl
  cases hoperand with
  | checked checked closed => cases closed
  | @list _ _ ts type_eq types below =>
    have hvarying : (Expr.list node items).isVarying = (Ty.list ts).isVarying := Expr.isVarying_eq type_eq
    rw [hvarying]
    refine ⟨fun d hd => convert_list_holds type_eq below ht hus hd, fun h => ?_, fun hv hbare hitems => ?_⟩
    · exact convert_list_refuses type_eq types hus h context
    · exact convert_list_accepts type_eq types below ht hus hv hbare hitems

theorem lists_convert_pair : ∃ d, Turns .standard "initialization" (pairExpr pairNode) int32Array d := by
  obtain ⟨scope, hread⟩ : ∃ scope, Program.read .standard "program" (some (programJson [] pairJson)) =
      .ok ⟨scope, [pairExpr {}]⟩ := ⟨_, rfl⟩
  have hone : (¬ one.MisreadFor .int32 ∧ ¬ one.NullFor .int32) ∧ ∃ d, Turns .standard "initialization" one .int32 d :=
    ⟨⟨nofun, nofun⟩, one, Accepts.some rfl⟩
  have hitems : ∀ q ∈ [one, one].zip [Ty.int32, Ty.int32],
      (¬ q.1.MisreadFor q.2 ∧ ¬ q.1.NullFor q.2) ∧ ∃ d, Turns .standard "initialization" q.1 q.2 d :=
    List.forall_mem_cons.mpr ⟨hone, List.forall_mem_singleton.mpr hone⟩
  have haccepts := ((lists_convert hread (List.mem_singleton_self _)).here { target := .standard } _ _ _ rfl rfl int32Array
    [.int32, .int32] "initialization" ⟨rfl, trivial⟩ rfl).2.2
  exact haccepts (fun h => nomatch h.1) (fun q hq => (hitems q hq).1) fun q hq => (hitems q hq).2

/-! ## Items that convert alone -/

/-- A list of one item is refused for a type, while the item converts to the type of its position. -/
structure Alone (json : Json) (item : Expr) (source t u : Ty) : Prop where
  read : ∃ scope, Program.read .standard "program" (some json) = .ok ⟨scope, [.list {} [item]]⟩
  checked : ((check (.list {} [item])).run { target := .standard }).1 =
    .ok (some (.list (.typed none (.list [source])) [item]))
  position : Ty.listTargets 1 t = .ok [u]
  list : Fails (.list (.typed none (.list [source])) [item]) t
  item : Passes item u

def singletonJson (symbols : List (String × Json)) (item : Json) : Json :=
  programJson symbols (.object [("list", .array [item])])

def varJson : Json := .object [("symbol", .string "v")]

def varyingStruct : Ty := .struct "S" [("x", .basic .int32 .varying)] {}

def zero : Expr := .const (.typed none Ty.int32.asConst) ⟨.int32, 8, [.int 0]⟩

def getterType : Ty := .function .int32 [] false

/-- Items that convert while their list does not: a varying one, for a varying member of a uniform struct; a literal zero and
a null pointer, for another pointer; and references to a function and to `void`, for what they refer to. -/
theorem lists_unlike :
    Alone (singletonJson [("v", .string "varying int32")] varJson) (localNamed "v" (.basic .int32 .varying))
        (.basic .int32 .varying) varyingStruct (.basic .int32 .varying) ∧
      Alone (singletonJson [] (.object [("const", .string "0"), ("type", .string "int32")])) zero Ty.int32.asConst
        (.array (.pointer .int32 {}) (some 1)) (.pointer .int32 {}) ∧
      Alone (singletonJson [] (.object [("null", .bool true)])) (.null (.typed none .voidPointer)) .voidPointer
        (.array (.pointer .int32 {}) (some 1)) (.pointer .int32 {}) ∧
      Alone (singletonJson [("v", .object [("reference", functionJson "int32" [])])] varJson)
        (localNamed "v" (.reference getterType)) (.reference getterType) (.array getterType (some 1)) getterType ∧
      Alone (singletonJson [("v", .object [("reference", .string "void")])] varJson) (localNamed "v" (.reference .void))
        (.reference .void) (.struct "V" [("x", .void)] {}) .void :=
  ⟨⟨⟨_, rfl⟩, rfl, rfl, rfl, _, rfl⟩, ⟨⟨_, rfl⟩, rfl, rfl, rfl, _, rfl⟩, ⟨⟨_, rfl⟩, rfl, rfl, rfl, _, rfl⟩,
    ⟨⟨_, rfl⟩, rfl, rfl, rfl, _, rfl⟩, ⟨_, rfl⟩, rfl, rfl, rfl, _, rfl⟩

end Spmd
