import Spmd.Proofs.Expr.Outline
import Spmd.Proofs.Session.Quiet
import Spmd.Proofs.Ty.Obstacle
import Spmd.Proofs.Typing.Check
import Spmd.Proofs.WellTyped.Conversion

/-!
# Checking again

`Check.Fixed` says that checking a checked tree reports nothing and gives a tree of the same outline. A first check does not
look at two things that it writes down (`Expr.Repeats`), so that what it gives is fixed where these agree at every
node (`Check.Durable`).
-/

namespace Spmd

namespace Expr

/-- Structs of one name count as one type, but a selection has the members of the common type. A list that fills a uniform
aggregate may have got varying elements from the members of a struct, and would lose them. -/
def Repeats : Expr → Prop
  | .select node _ a _ => ∀ t u, node.type = some t → a.type? = some u → u.rvalue.outline = t.outline
  | .list node items => ∀ t, node.type = some t → t.isVarying = false → ∀ e ∈ items, e.isVarying = false
  | _ => True

end Expr

namespace Check

open Spmd.Expr

variable {T : Target} {α β : Type} {P : α → Prop}

/-! ## Steps -/

/-- Nothing is reported, and the result looks like an expression that is known. -/
def Again (T : Target) (m : Check (Option Expr)) (e : Expr) : Prop :=
  Quiet T m fun o => ∃ e', o = some e' ∧ e'.outline = e.outline

theorem Quiet.result {m : Check (Option β)} {k : Option β → Check α} {R : β → Prop}
    (h : Quiet T m fun o => ∃ b, o = some b ∧ R b) (hk : ∀ b, R b → Quiet T (k (some b)) P) : Quiet T (m >>= k) P := by
  refine Quiet.bind h fun o ho => ?_
  obtain ⟨b, rfl, hb⟩ := ho
  exact hk b hb

theorem Quiet.law (T : Target) : Law fun m P => Quiet T m fun o => ∃ a, o = some a ∧ P a where
  some h := Quiet.pure ⟨_, rfl, h⟩
  bind hm hk _ := Quiet.result hm hk
  both hl hr hk _ _ := Quiet.result hl fun b hb => Quiet.result hr fun c hc => hk b c hb hc

section
variable {m : Check (Option Expr)} {e e' : Expr}

theorem Again.some (h : e'.outline = e.outline) : Again T (return some e') e := Quiet.pure ⟨e', rfl, h⟩

theorem Again.bind {k : Option Expr → Check α} (h : Again T m e)
    (hk : ∀ e', e'.outline = e.outline → Quiet T (k (Option.some e')) P) : Quiet T (m >>= k) P :=
  Quiet.result h hk

theorem Quiet.mirrors {γ : Type} {f : β → γ} {x x' : Except Fault β} {b : β} {k : β → Check α} (h : Mirrors f x x')
    (hx : x = .ok b) (hk : ∀ b', f b' = f b → Quiet T (k b') P) : Quiet T ((liftM x' : Check β) >>= k) P := by
  obtain ⟨b', hx', hb'⟩ := h b hx
  exact Quiet.read hx' (hk b' hb')

theorem Quiet.type {k : Ty → Check α} {t : Ty} (h : e'.outline = e.outline) (ht : e.type? = Option.some t)
    (hk : ∀ t', e'.type? = Option.some t' → t'.outline = t.outline → Quiet T (k t') P) :
    Quiet T ((liftM e'.type : Check Ty) >>= k) P := by
  obtain ⟨t', ht', hout⟩ := type_of_outline h ht
  exact Quiet.read (type_ok ht') (hk t' ht' hout)

theorem Quiet.converts {place : Option Location} {context : String} {explicit : Bool} {source target : Ty} {k : Bool → Check α}
    (ho : Ty.obstacle explicit source target = none) (hk : Quiet T (k true) P) :
    Quiet T (canConvert place context explicit source target >>= k) P := by
  unfold canConvert
  rw [ho]
  exact hk

end

/-! ## Fixed trees -/

def Fixed (T : Target) (e : Expr) : Prop := Again T (check e) e

/-- Fixed where checks have nothing to decide anew. -/
def Lasts (T : Target) (e : Expr) : Prop := Everywhere Repeats e → Fixed T e

/-- A node that waits for nothing, and lasts. -/
def Endures (T : Target) (e : Expr) : Prop := e.awaitsTarget = false ∧ Lasts T e

/-- What checking an expression gives is fixed, apart from names and lists that wait for a type. -/
inductive Durable (T : Target) : Expr → Prop
  | name {f : FunctionName} (fresh : Fresh f) : Durable T (.function f)
  | list {node : Node} {items : List Expr} {ts : List Ty} (type_eq : node.type = some (.list ts))
      (types : items.map type? = ts.map some) (below : ∀ e ∈ items, Durable T e) : Durable T (.list node items)
  | closed {e : Expr} (checked : Checked T e) (closed : e.awaitsTarget = false) (lasts : Lasts T e) : Durable T e

section
variable {e : Expr}

theorem Durable.operand (h : Durable T e) : Operand T e := by
  induction h with
  | name fresh => exact .name fresh.toKnown
  | list type_eq types _ ih => exact .list type_eq types ih
  | closed checked closed _ => exact .checked checked closed

theorem Durable.takes (h : Durable T e) {n : Nat} : ∀ f, e = .function f → f.Takes n := by
  rintro f rfl
  cases h with
  | name fresh => exact fresh.takes n
  | closed _ closed _ => cases closed

theorem durably {m : Check (Option Expr)} (h : Delivers T m (Operand T)) (h' : Yields T m (Endures T)) :
    Yields T m (Durable T) := by
  refine Yields.mono (Yields.and h.yields h') fun e h => ?_
  obtain ⟨he, hc, hl⟩ := h
  cases he with
  | checked checked closed => exact .closed checked closed hl
  | _ => cases hc

theorem Durable.list_type (h : Durable T e) {t : Ty} (ht : e.type? = some t) (n : Node) (items : List Expr)
    (he : e = .list n items) : t.isList = true := by
  subst he
  cases h with
  | list type_eq _ _ =>
    obtain rfl : t = .list _ := Option.some.inj (ht.symm.trans type_eq)
    rfl
  | closed _ closed _ => cases closed

theorem function_fixed {f : FunctionName} {t : Ty} (ht : f.node.type = some t) : Fixed T (.function f) := by
  have hsettled : f.settleType = f := by
    unfold FunctionName.settleType
    split
    · rw [if_neg (by rw [ht]; exact Bool.false_ne_true)]
    · rfl
  rw [Fixed, check]
  rw [hsettled]
  exact Quiet.bind (note_quiet f) fun _ _ => Again.some rfl

theorem resolved_again (h : Checked T e) {e' : Expr} (he' : e'.outline = e.outline) : Again T (resolved (some e')) e := by
  unfold resolved
  split
  · rename_i f hf
    cases hf
    obtain ⟨f', rfl, hres, -⟩ := function_of_outline he'.symm rfl
    rw [if_pos (hres.symm.trans h.here.grounded)]
    exact Again.some he'
  · exact Again.some he'

theorem Fixed.needed (h : Fixed T e) (hc : Checked T e) : Again T (needed (check e)) e :=
  Again.bind h fun _ he' => resolved_again hc he'

end

/-! ## Lists -/

theorem typesOf_again {es es' : List Expr} {ts : List Ty} (h : es'.map outline = es.map outline)
    (ht : es.map type? = ts.map some) :
    ∃ ts', typesOf es' = .ok ts' ∧ es'.map type? = ts'.map some ∧ ts'.map Ty.outline = ts.map Ty.outline := by
  induction es generalizing es' ts with
  | nil =>
    cases es' with
    | nil =>
      cases ts with
      | nil => exact ⟨[], rfl, rfl, rfl⟩
      | cons => cases ht
    | cons => cases h
  | cons e es ih =>
    cases es' with
    | nil => cases h
    | cons e' es' =>
      cases ts with
      | nil => cases ht
      | cons t ts =>
        simp only [List.map_cons, List.cons.injEq] at h ht
        obtain ⟨t', ht', hout⟩ := type_of_outline h.1 ht.1
        obtain ⟨ts', hts, hmap, houts⟩ := ih h.2 ht.2
        refine ⟨t' :: ts', ?_, ?_, ?_⟩
        · rw [typesOf, type_ok ht', hts]
          rfl
        · rw [List.map_cons, List.map_cons, ht', hmap]
        · rw [List.map_cons, List.map_cons, hout, houts]

theorem outlines_of_forall {es es' : List Expr} (h : List.Forall₂ (fun e e' : Expr => e'.outline = e.outline) es es') :
    es'.map outline = es.map outline := by
  induction h with
  | nil => rfl
  | cons he _ ih => rw [List.map_cons, List.map_cons, he, ih]

theorem Durable.lasts {e : Expr} {t : Ty} (h : Durable T e) (ht : e.type? = some t) : Lasts T e := by
  induction h generalizing t with
  | name fresh => exact fun _ => function_fixed ht
  | @list node items ts type_eq types below ih =>
    intro hr
    have hitems : ∀ c ∈ items, Again T (needed (check c)) c := by
      intro c hc
      have hm : c.type? ∈ ts.map some := types ▸ List.mem_map_of_mem hc
      obtain ⟨u, -, hu⟩ := List.mem_map.mp hm
      exact (ih c hc hu.symm (hr.child hc)).needed ((below c hc).operand.toChecked hu.symm)
    rw [Fixed, check]
    refine Quiet.result ((Quiet.law T).checkEach true hitems) fun es hes => ?_
    have houts := outlines_of_forall hes
    obtain ⟨ts', hts', -, htypes⟩ := typesOf_again houts types
    unfold checkList
    refine Quiet.read hts' (Again.some ?_)
    simp only [outline, Node.outline, Node.typed, outlineEach_eq, houts, type_eq, Option.map_some, Ty.outline, Ty.outlineAll_eq,
      htypes]
  | closed checked closed lasts => exact lasts

end Check

end Spmd
