import Spmd.Proofs.Program.Loaded
import Spmd.Proofs.Sharing.Names
import Spmd.Expr.Sharing

/-!
# Walks over trees

A walk that maps the nodes of a tree maps the children first and then the node (`Expr.mapTree_eq`). Taking over findings is
such a walk: it changes function names only, and only those that something was found out about.
-/

namespace Spmd

namespace Expr

/-! ## Maps -/

/-- Maps the children of a node. -/
def mapChildren (g : Expr → Expr) : Expr → Expr
  | unary n op e => unary n op (g e)
  | step n s e amount => step n s (g e) amount
  | binary n op l r reported => binary n op (g l) (g r) reported
  | assign n op t v operandType => assign n op (g t) (g v) operandType
  | select n t a b => select n (g t) (g a) (g b)
  | list n es => list n (es.map g)
  | call n c args launch count signature => call n (g c) (args.map g) launch (count.map g) signature
  | index n b i => index n (g b) (g i)
  | member n b name arrow access => member n (g b) name arrow access
  | const n c => const n c
  | cast n t e reported => cast n t (g e) reported
  | reference n e => reference n (g e)
  | dereference n e => dereference n (g e)
  | addressOf n e => addressOf n (g e)
  | sizeOf n e => sizeOf n (g e)
  | sizeOfType n t => sizeOfType n t
  | symbol n s => symbol n s
  | function f => function f
  | sync n => sync n
  | null n => null n
  | new n t count init varying => new n t (count.map g) (init.map g) varying

variable {f g : Expr → Expr} {e : Expr}

theorem children_mapChildren (g : Expr → Expr) (e : Expr) : (e.mapChildren g).children = e.children.map g := by
  cases e with
  | call n c args launch count signature => cases count <;> simp [mapChildren, children]
  | new n t count init varying => cases count <;> cases init <;> rfl
  | _ => rfl

theorem mapChildren_id (h : ∀ c ∈ e.children, g c = c) : e.mapChildren g = e := by
  have all : ∀ {es : List Expr}, (∀ c ∈ es, g c = c) → es.map g = es := fun h =>
    (List.map_congr_left h).trans (List.map_id _)
  cases e with
  | list n es => rw [mapChildren, all (show ∀ c ∈ es, g c = c from h)]
  | call n c args launch count signature =>
    rw [mapChildren, h c (by simp [children]), all fun a ha => h a (by simp [children, ha])]
    cases count with
    | none => rfl
    | some m => rw [Option.map_some, h m (by simp [children])]
  | new n t count init varying =>
    cases count <;> cases init <;> simp only [mapChildren, Option.map_some, Option.map_none]
    all_goals simp_all [children]
  | _ => simp_all [mapChildren, children]

theorem traverseAll_eq (f : Expr → Expr) (es : List Expr) :
    Id.run (traverseAll (fun e => pure (f e)) es) = es.map (mapTree f) := by
  induction es with
  | nil => rfl
  | cons e es ih =>
    rw [List.map_cons, ← ih]
    rfl

theorem mapTree_eq (f : Expr → Expr) (e : Expr) : e.mapTree f = f (e.mapChildren (mapTree f)) := by
  cases e with
  | list n es => rw [mapChildren, ← traverseAll_eq]; rfl
  | call n c args launch count signature =>
    rw [mapChildren, ← traverseAll_eq]
    cases count <;> rfl
  | new n t count init varying => cases count <;> cases init <;> rfl
  | _ => rfl

theorem children_mapTree (hf : ∀ e, (f e).children = e.children) (e : Expr) :
    (e.mapTree f).children = e.children.map (mapTree f) := by
  rw [mapTree_eq, hf, children_mapChildren]

theorem mapTree_id (h : Everywhere (fun e => f e = e) e) : e.mapTree f = e := by
  induction h with
  | node here _ ih => rw [mapTree_eq, mapChildren_id ih, here]

/-- What a node has no matter what its children are is found at every node after the walk. -/
theorem everywhere_mapTree {P Q : Expr → Prop} (hf : ∀ e, (f e).children = e.children)
    (hPQ : ∀ e, P e → Q (f (e.mapChildren (mapTree f)))) (h : Everywhere P e) : Everywhere Q (e.mapTree f) := by
  induction h with
  | @node e here _ ih =>
    refine .node (mapTree_eq f e ▸ hPQ e here) fun c hc => ?_
    rw [children_mapTree hf] at hc
    obtain ⟨d, hd, rfl⟩ := List.mem_map.mp hc
    exact ih d hd

theorem everywhere_of_mapTree {P Q : Expr → Prop} (hf : ∀ e, (f e).children = e.children)
    (hPQ : ∀ e, P (f (e.mapChildren (mapTree f))) → Q e) (h : Everywhere P (e.mapTree f)) : Everywhere Q e := by
  induction e using Expr.induct with
  | h e ih =>
    refine .node (hPQ e (mapTree_eq f e ▸ h.here)) fun c hc => ih c hc (h.child ?_)
    rw [children_mapTree hf]
    exact List.mem_map_of_mem hc

/-! ## Tags -/

/-- The tree without tags. -/
def untagged (e : Expr) : Expr := e.mapTree (mapNode fun n => { n with tag := none })

/-- The tags of the function names in a tree. -/
def nameTags (e : Expr) : List Nat := (e.uses none).filterMap fun u => u.2.node.tag

theorem children_mapNode (f : Node → Node) (e : Expr) : (e.mapNode f).children = e.children := by
  cases e <;> rfl

/-- What a tree was loaded with does not depend on tags. -/
theorem loaded_of_untagged {T : Target} (h : Everywhere (Loaded T) e.untagged) : Everywhere (Loaded T) e := by
  refine everywhere_of_mapTree (children_mapNode _) (fun e he => ?_) h
  cases e <;> exact he

theorem untagged_of_unshared {T : Target} (h : Everywhere (Unshared T) e) : e.untagged = e := by
  refine mapTree_id (Everywhere.mono (fun e he => ?_) h)
  have htag := he.2
  cases e with
  | function f =>
    obtain ⟨⟨place, type, tag⟩, name, candidates, choice⟩ := f
    cases htag
    rfl
  | _ n =>
    obtain ⟨place, type, tag⟩ := n
    cases htag
    rfl

theorem nameTags_of_unshared {T : Target} (h : Everywhere (Unshared T) e) : e.nameTags = [] := by
  refine List.filterMap_eq_nil_iff.mpr fun u hu => ?_
  exact (uses_everywhere (Q := Unshared T) h hu).2

end Expr

/-! ## Findings -/

/-- Takes over what was last found out about a name. -/
def FunctionName.recall (findings : List Finding) (f : FunctionName) : FunctionName :=
  match f.node.tag.bind fun tag => findings.reverse.find? fun x => x.tag == tag with
  | some x => { f with choice := x.choice, node := { f.node with type := x.type } }
  | none => f

namespace Expr

variable {findings : List Finding} {e : Expr}

theorem learn_function (f : FunctionName) : learn findings (.function f) = .function (f.recall findings) := by
  unfold learn FunctionName.recall
  dsimp only
  generalize (f.node.tag.bind fun tag => findings.reverse.find? fun x => x.tag == tag) = found
  cases found <;> rfl

theorem learn_other (h : ∀ f, e ≠ .function f) : learn findings e = e := by
  cases e with
  | function f => exact absurd rfl (h f)
  | _ => rfl

theorem children_learn (e : Expr) : (learn findings e).children = e.children := by
  cases e with
  | function f => rw [learn_function]; rfl
  | _ => rfl

theorem recall_cases (findings : List Finding) (f : FunctionName) : f.recall findings = f ∨ ∃ y ∈ findings, f.node.tag = some y.tag ∧
    f.recall findings = { f with choice := y.choice, node := { f.node with type := y.type } } := by
  unfold FunctionName.recall
  split
  · rename_i x hx
    rw [Option.bind_eq_some_iff] at hx
    obtain ⟨tag, htag, hfind⟩ := hx
    have hmem := List.mem_reverse.mp (List.mem_of_find?_eq_some hfind)
    have heq : x.tag = tag := by simpa using List.find?_some hfind
    exact .inr ⟨x, hmem, heq ▸ htag, rfl⟩
  · exact .inl rfl

theorem recall_of_not_mem {f : FunctionName} (h : ∀ y ∈ findings, f.node.tag ≠ some y.tag) : f.recall findings = f :=
  (recall_cases findings f).resolve_right fun ⟨y, hy, htag, _⟩ => h y hy htag

theorem refresh_eq (h : ∀ f, e ≠ .function f) : e.refresh findings = e.mapChildren (refresh findings) := by
  unfold refresh
  rw [mapTree_eq]
  refine learn_other fun f hf => ?_
  cases e with
  | function g => exact h g rfl
  | _ => cases hf

theorem uses_refresh (e : Expr) (k : Option Nat) :
    (e.refresh findings).uses k = (e.uses k).map fun u => (u.1, u.2.recall findings) := by
  induction e using Expr.induct generalizing k with
  | h e ih =>
  have all : ∀ {es : List Expr}, (∀ c ∈ es, c ∈ e.children) → (es.map (refresh findings)).flatMap (uses none) =
      (es.flatMap (uses none)).map fun u => (u.1, u.2.recall findings) := by
    intro es hes
    rw [List.map_flatMap, List.flatMap_map]
    exact List.flatMap_congr fun c hc => ih c (hes c hc) none
  cases e with
  | function f =>
    show (learn findings (.function f)).uses k = _
    rw [learn_function]
    rfl
  | list n es =>
    rw [refresh_eq (fun _ h => by cases h), mapChildren, uses, uses, usesAll_eq, usesAll_eq]
    exact all fun c hc => hc
  | call n c args launch count signature =>
    rw [refresh_eq (fun _ h => by cases h), mapChildren, uses, uses, usesAll_eq, usesAll_eq, List.length_map, ih c (by simp [children]),
      all fun a ha => by simp [children, ha], List.map_append, List.map_append]
    cases count with
    | none => rfl
    | some m => rw [Option.map_some, usesOf, usesOf, ih m (by simp [children])]
  | new n t count init varying =>
    rw [refresh_eq (fun _ h => by cases h), mapChildren, uses, uses, List.map_append]
    cases count with
    | none => cases init with
      | none => rfl
      | some i => simp [usesOf, ih i (by simp [children])]
    | some m => cases init with
      | none => simp [usesOf, ih m (by simp [children])]
      | some i => simp [usesOf, ih m (by simp [children]), ih i (by simp [children])]
  | const | sizeOfType | symbol | sync | null => rfl
  | _ =>
    rw [refresh_eq (fun _ h => by cases h), mapChildren]
    simp only [children, List.mem_cons, List.not_mem_nil, or_false, forall_eq_or_imp, forall_eq] at ih
    simp only [uses, List.map_append, ih]

theorem refresh_everywhere {Q : Expr → Prop} (hQ : ∀ e, (∀ f, e ≠ .function f) → Q e → Q (e.mapChildren (refresh findings)))
    (h : Everywhere (fun e => (∀ f, e ≠ .function f) → Q e) e) :
    Everywhere (fun e => (∀ f, e ≠ .function f) → Q e) (e.refresh findings) := by
  refine everywhere_mapTree children_learn (fun e he => ?_) h
  by_cases hf : ∃ f, e = .function f
  · obtain ⟨f, rfl⟩ := hf
    rw [mapChildren, learn_function]
    exact fun hn => absurd rfl (hn _)
  · have hother : ∀ f, e ≠ .function f := fun f h => hf ⟨f, h⟩
    have heq : learn findings (e.mapChildren (mapTree (learn findings))) = e.mapChildren (refresh findings) :=
      (mapTree_eq _ e).symm.trans (refresh_eq hother)
    rw [heq]
    exact fun _ => hQ e hother (he hother)

theorem refresh_of_not_mem (h : ∀ u ∈ e.uses none, ∀ y ∈ findings, u.2.node.tag ≠ some y.tag) : e.refresh findings = e := by
  refine mapTree_id (everywhere_of_uses (k := none) (fun u hu => ?_) fun e he => learn_other he)
  rw [learn_function, recall_of_not_mem (h u hu)]

end Expr

end Spmd
