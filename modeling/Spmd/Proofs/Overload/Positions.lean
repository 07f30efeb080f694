import Spmd.Proofs.Overload.Survivors

/-!
# Where the order of the arguments counts

Bringing the arguments into another order, and the parameters of every candidate with them, changes neither who survives nor,
as a rule, the verdict. The preference for pointers goes through the arguments that could be null from the first to the last
and narrows the candidates each time, so that an earlier argument decides before a later one is asked. The order counts
exactly where no survivor takes a pointer for all the arguments for which one of them does (`resolve_reorder_iff`).
-/

namespace Spmd

/-! ## Another order -/

/-- Brings a list into another order, which says where each entry comes from. What the order does not speak of stays where it is. -/
def reorder {α : Type} (order : List Nat) (l : List α) : List α :=
  order.filterMap (fun i => l[i]?) ++ l.drop order.length

/-- Brings the parameters of a candidate into another order. -/
def Symbol.reorder (order : List Nat) (s : Symbol) : Symbol :=
  match s.type with
  | .function result parameters isTask _ => { s with type := .function result (Spmd.reorder order parameters) isTask }
  | _ => s

def Resolution.map (f : Symbol → Symbol) : Resolution → Resolution
  | .resolved s => .resolved (f s)
  | .none => .none
  | .ambiguous ss => .ambiguous (ss.map f)

/-- A candidate that takes a pointer at every one of some positions where one of the candidates does. -/
def Symbol.Leads (s : Symbol) (positions : List Nat) (candidates : List Symbol) : Prop :=
  ∀ i ∈ positions, ∀ u ∈ candidates, u.takesPointerAt i = true → s.takesPointerAt i = true

variable {α β : Type} {order : List Nat} {n i j : Nat}

theorem range_filterMap_getElem? (l : List α) (n : Nat) : (List.range n).filterMap (fun i => l[i]?) = l.take n := by
  induction n with
  | zero => rfl
  | succ n ih =>
    rw [List.range_succ, List.filterMap_append, ih, List.take_add_one]
    cases h : l[n]? <;> simp [h]

theorem reorder_perm (h : order.Perm (List.range n)) (l : List α) : (reorder order l).Perm l := by
  have hfront := h.filterMap fun i => l[i]?
  rw [range_filterMap_getElem?] at hfront
  have hback := hfront.append_right (l.drop n)
  rwa [List.take_append_drop, ← List.length_range (n := n), ← h.length_eq] at hback

theorem reorder_of_length (h : order.Perm (List.range n)) {l : List α} (hl : l.length = n) :
    reorder order l = order.filterMap fun i => l[i]? := by
  have hlen : order.length = n := h.length_eq.trans List.length_range
  rw [reorder, List.drop_of_length_le (by omega), List.append_nil]

theorem filterMap_zip (order : List Nat) {l : List α} {l' : List β} (hl : l.length = l'.length) :
    (order.filterMap fun i => l[i]?).zip (order.filterMap fun i => l'[i]?) = order.filterMap fun i => (l.zip l')[i]? := by
  induction order with
  | nil => rfl
  | cons i is ih =>
    by_cases hi : i < l.length
    · have hi' : i < l'.length := hl ▸ hi
      have hzip : (l.zip l')[i]? = some (l[i], l'[i]) :=
        List.getElem?_zip_eq_some.mpr ⟨List.getElem?_eq_getElem hi, List.getElem?_eq_getElem hi'⟩
      rw [List.filterMap_cons_some (List.getElem?_eq_getElem hi), List.filterMap_cons_some (List.getElem?_eq_getElem hi'),
        List.filterMap_cons_some hzip, List.zip_cons_cons, ih]
    · have hi' : ¬ i < l'.length := hl ▸ hi
      have hzip : (l.zip l')[i]? = none := by
        rw [List.getElem?_eq_none_iff, List.length_zip]
        omega
      rw [List.filterMap_cons_none (by simpa using hi), List.filterMap_cons_none (by simpa using hi'),
        List.filterMap_cons_none hzip, ih]

theorem reorder_zip (h : order.Perm (List.range n)) {l : List α} {l' : List β} (hl : l.length = n) (hl' : l'.length = n) :
    (reorder order l).zip (reorder order l') = reorder order (l.zip l') := by
  rw [reorder_of_length h hl, reorder_of_length h hl', reorder_of_length h (by simp [hl, hl']), filterMap_zip order (hl.trans hl'.symm)]

theorem getElem?_filterMap {l : List α} (h : ∀ i ∈ order, i < l.length) (hj : order[j]? = some i) :
    (order.filterMap fun i => l[i]?)[j]? = l[i]? := by
  induction order generalizing j with
  | nil => cases hj
  | cons k ks ih =>
    rw [List.forall_mem_cons] at h
    rw [List.filterMap_cons_some (List.getElem?_eq_getElem h.1)]
    cases j with
    | zero =>
      cases hj
      exact (List.getElem?_eq_getElem h.1).symm
    | succ j => exact ih h.2 hj

theorem getElem?_reorder (h : order.Perm (List.range n)) {l : List α} (hl : l.length = n) (hj : order[j]? = some i) :
    (reorder order l)[j]? = l[i]? := by
  rw [reorder_of_length h hl]
  refine getElem?_filterMap (fun i hi => ?_) hj
  rw [hl]
  exact List.mem_range.mp (h.mem_iff.mp hi)

/-! ## Candidates -/

section Candidates

variable {arguments : List Argument} {candidates : List Symbol} {s : Symbol} {accepts : Ty → Ty → Bool}

theorem signature_reorder (order : List Nat) (s : Symbol) : (s.reorder order).signature? =
    s.signature?.map fun sig => { sig with parameters := reorder order sig.parameters } := by
  unfold Symbol.reorder Symbol.signature?
  cases h : s.type with
  | function result parameters isTask origin => rfl
  | _ => rw [h]; rfl

theorem takes_reorder (h : order.Perm (List.range arguments.length)) (s : Symbol) :
    (s.reorder order).takes accepts (reorder order arguments) = s.takes accepts arguments := by
  unfold Symbol.takes
  rw [signature_reorder]
  cases s.signature? with
  | none => rfl
  | some sig =>
    dsimp only [Option.map_some]
    rw [(reorder_perm h _).length_eq, (reorder_perm h _).length_eq]
    by_cases hlen : sig.parameters.length = arguments.length
    · rw [reorder_zip h rfl hlen, (reorder_perm h _).all_eq]
    · rw [beq_false_of_ne hlen, Bool.false_and, Bool.false_and]

theorem takesPointerAt_reorder (h : order.Perm (List.range arguments.length)) (hs : s.survives arguments = true)
    (hj : order[j]? = some i) : (s.reorder order).takesPointerAt j = s.takesPointerAt i := by
  obtain ⟨sig, hsig, hlen⟩ : ∃ sig, s.signature? = some sig ∧ sig.parameters.length = arguments.length :=
    (Bool.or_eq_true_iff.mp hs).elim takes_signature takes_signature
  unfold Symbol.takesPointerAt
  rw [signature_reorder, hsig, Option.map_some, Option.any_some, Option.any_some, getElem?_reorder h hlen hj]

theorem survivors_reorder (h : order.Perm (List.range arguments.length)) (candidates : List Symbol) :
    survivors (candidates.map (Symbol.reorder order)) (reorder order arguments) =
      (survivors candidates arguments).map (Symbol.reorder order) := by
  have hfilter : ∀ accepts, (candidates.map (Symbol.reorder order)).filter (Symbol.takes accepts (reorder order arguments)) =
      (candidates.filter (Symbol.takes accepts arguments)).map (Symbol.reorder order) := by
    intro accepts
    rw [List.filter_map]
    exact congrArg _ (List.filter_congr fun s _ => takes_reorder h s)
  unfold survivors
  rw [hfilter, hfilter]
  cases candidates.filter (Symbol.takes Ty.matchesExactly arguments) with
  | nil => rfl
  | cons s ss => rfl

/-! ## The preference -/

theorem preferPointersAt_of_mem (hs : s ∈ candidates) (ht : s.takesPointerAt i = true) :
    preferPointersAt candidates i = candidates.filter (Symbol.takesPointerAt i) := by
  have hpos : 0 < (candidates.filter (Symbol.takesPointerAt i)).length :=
    List.length_pos_of_mem (List.mem_filter.mpr ⟨hs, ht⟩)
  have hlen := List.length_filter_le (Symbol.takesPointerAt i) candidates
  unfold preferPointersAt
  dsimp only
  split
  · rfl
  · exact (List.filter_sublist.eq_of_length (by omega)).symm

theorem preferPointersAt_of_none (h : ∀ u ∈ candidates, ¬ u.takesPointerAt i = true) :
    preferPointersAt candidates i = candidates := by
  unfold preferPointersAt
  rw [List.filter_eq_nil_iff.mpr h]
  exact if_neg fun hpos => Nat.lt_irrefl 0 hpos.1

/-- At a position where one candidate takes a pointer if any does, the candidates like it in this are kept. -/
theorem preferPointersAt_eq_filter (hs : s ∈ candidates)
    (hlead : ∀ u ∈ candidates, u.takesPointerAt i = true → s.takesPointerAt i = true) :
    preferPointersAt candidates i = candidates.filter fun u => !s.takesPointerAt i || u.takesPointerAt i := by
  cases hi : s.takesPointerAt i with
  | true => exact preferPointersAt_of_mem hs hi
  | false =>
    rw [preferPointersAt_of_none fun u hu ht => by rw [hlead u hu ht] at hi; cases hi]
    exact (List.filter_eq_self.mpr fun _ _ => rfl).symm

/-- Where a candidate leads, those that take a pointer wherever it does are kept, whatever the order of the positions. -/
theorem foldl_preferPointersAt_eq_filter {positions : List Nat} (hs : s ∈ candidates) (hlead : s.Leads positions candidates) :
    positions.foldl preferPointersAt candidates =
      candidates.filter fun u => positions.all fun i => !s.takesPointerAt i || u.takesPointerAt i := by
  induction positions generalizing candidates with
  | nil => exact (List.filter_eq_self.mpr fun _ _ => rfl).symm
  | cons i is ih =>
    rw [Symbol.Leads, List.forall_mem_cons] at hlead
    have hsub : ∀ u ∈ preferPointersAt candidates i, u ∈ candidates := fun u hu => mem_of_preferPointersAt hu
    have hkept : s ∈ preferPointersAt candidates i := by
      rw [preferPointersAt_eq_filter hs hlead.1]
      exact List.mem_filter.mpr ⟨hs, Bool.not_or_self _⟩
    rw [List.foldl_cons, ih hkept fun j hj u hu => hlead.2 j hj u (hsub u hu), preferPointersAt_eq_filter hs hlead.1,
      List.filter_filter]
    exact List.filter_congr fun u _ => Bool.and_comm _ _

/-- The first position decides before all others. -/
theorem takesPointerAt_of_first {positions : List Nat} {u v : Symbol} (hu : u ∈ candidates) (ht : u.takesPointerAt i = true)
    (hv : v ∈ (i :: positions).foldl preferPointersAt candidates) : v.takesPointerAt i = true := by
  rw [List.foldl_cons] at hv
  have hmem := (foldl_preferPointersAt_sublist positions _).subset hv
  rw [preferPointersAt_of_mem hu ht] at hmem
  exact (List.mem_filter.mp hmem).2

/-! ## The verdict -/

theorem mem_nullPositions_reorder (h : order.Perm (List.range arguments.length)) (hj : order[j]? = some i) :
    j ∈ nullPositions (reorder order arguments) ↔ i ∈ nullPositions arguments := by
  rw [mem_nullPositions, mem_nullPositions, getElem?_reorder h rfl hj]

theorem lt_of_mem_nullPositions (hi : i ∈ nullPositions arguments) : i < arguments.length := by
  obtain ⟨a, ha, -⟩ := mem_nullPositions.mp hi
  exact (List.getElem?_eq_some_iff.mp ha).1

/-- An argument that could be null has a position in the new order, and comes from one in the old order. -/
theorem exists_position (h : order.Perm (List.range arguments.length)) (hi : i ∈ nullPositions arguments) :
    ∃ j : Nat, order[j]? = some i :=
  List.mem_iff_getElem?.mp (h.mem_iff.mpr (List.mem_range.mpr (lt_of_mem_nullPositions hi)))

theorem exists_source (h : order.Perm (List.range arguments.length)) (hj : j ∈ nullPositions (reorder order arguments)) :
    ∃ i, order[j]? = some i := by
  have hlt := lt_of_mem_nullPositions hj
  rw [(reorder_perm h _).length_eq, ← List.length_range (n := arguments.length), ← h.length_eq] at hlt
  exact ⟨_, List.getElem?_eq_getElem hlt⟩

theorem Symbol.Leads.reorder (hlead : s.Leads (nullPositions arguments) (survivors candidates arguments))
    (h : order.Perm (List.range arguments.length)) (hs : s ∈ survivors candidates arguments) :
    (s.reorder order).Leads (nullPositions (Spmd.reorder order arguments))
      ((survivors candidates arguments).map (Symbol.reorder order)) := by
  intro j hj u hu ht
  obtain ⟨v, hv, rfl⟩ := List.mem_map.mp hu
  obtain ⟨i, hi⟩ := exists_source h hj
  rw [takesPointerAt_reorder h (survives_of_mem hv) hi] at ht
  rw [takesPointerAt_reorder h (survives_of_mem hs) hi]
  exact hlead i ((mem_nullPositions_reorder h hi).mp hj) v hv ht

theorem preferred_reorder (h : order.Perm (List.range arguments.length)) (hs : s ∈ survivors candidates arguments)
    (hlead : s.Leads (nullPositions arguments) (survivors candidates arguments)) :
    preferred (candidates.map (Symbol.reorder order)) (reorder order arguments) =
      (preferred candidates arguments).map (Symbol.reorder order) := by
  unfold preferred
  rw [survivors_reorder h, foldl_preferPointersAt_eq_filter (List.mem_map_of_mem hs) (hlead.reorder h hs),
    foldl_preferPointersAt_eq_filter hs hlead, List.filter_map]
  refine congrArg _ (List.filter_congr fun u hu => ?_)
  rw [Function.comp_apply, Bool.eq_iff_iff, List.all_eq_true, List.all_eq_true]
  constructor
  · intro hall i hi
    obtain ⟨j, hj⟩ := exists_position h hi
    have hboth := hall j ((mem_nullPositions_reorder h hj).mpr hi)
    rwa [takesPointerAt_reorder h (survives_of_mem hs) hj, takesPointerAt_reorder h (survives_of_mem hu) hj] at hboth
  · intro hall j hj
    obtain ⟨i, hi⟩ := exists_source h hj
    rw [takesPointerAt_reorder h (survives_of_mem hs) hi, takesPointerAt_reorder h (survives_of_mem hu) hi]
    exact hall i ((mem_nullPositions_reorder h hi).mp hj)

theorem verdict_map (f : Symbol → Symbol) (kept : List Symbol) : verdict (kept.map f) = (verdict kept).map f := by
  match kept with
  | [] | [_] | _ :: _ :: _ => rfl

theorem verdict_injective {kept kept' : List Symbol} (h : verdict kept = verdict kept') : kept = kept' := by
  match kept, kept' with
  | [], [] => rfl
  | [_], [_] => cases h; rfl
  | _ :: _ :: _, _ :: _ :: _ => cases h; rfl
  | [], [_] | [], _ :: _ :: _ | [_], [] | [_], _ :: _ :: _ | _ :: _ :: _, [] | _ :: _ :: _, [_] => cases h

theorem nullPositions_cons {a : Argument} (h : a.couldBeNull = true) (as : List Argument) :
    ∃ rest, nullPositions (a :: as) = 0 :: rest := by
  refine ⟨((as.zipIdx 1).filter fun p => p.1.couldBeNull).map Prod.snd, ?_⟩
  rw [nullPositions, List.zipIdx_cons, List.filter_cons_of_pos (by exact h)]
  rfl

/-- Where the verdict does not depend on the order, a candidate that is left leads. -/
theorem leads_of_reorder {v : Symbol} (hv : v ∈ preferred candidates arguments)
    (h : ∀ order, order.Perm (List.range arguments.length) →
      resolve (candidates.map (Symbol.reorder order)) (reorder order arguments) =
        (resolve candidates arguments).map (Symbol.reorder order)) :
    v.Leads (nullPositions arguments) (survivors candidates arguments) := by
  intro i hi u hu ht
  -- the position in question comes first, so that nothing is left there but pointers
  let order := i :: (List.range arguments.length).erase i
  have horder : order.Perm (List.range arguments.length) :=
    (List.perm_cons_erase (List.mem_range.mpr (lt_of_mem_nullPositions hi))).symm
  have hfirst : order[0]? = some i := rfl
  have hsame : preferred (candidates.map (Symbol.reorder order)) (reorder order arguments) =
      (preferred candidates arguments).map (Symbol.reorder order) := by
    have hresolve := h order horder
    rw [resolve_eq, resolve_eq, ← verdict_map] at hresolve
    exact verdict_injective hresolve
  obtain ⟨rest, hrest⟩ : ∃ rest, nullPositions (reorder order arguments) = 0 :: rest := by
    obtain ⟨a, ha, hnull⟩ := mem_nullPositions.mp ((mem_nullPositions_reorder horder hfirst).mpr hi)
    cases hargs : reorder order arguments with
    | nil =>
      rw [hargs] at ha
      cases ha
    | cons b bs =>
      rw [hargs] at ha
      cases ha
      exact nullPositions_cons hnull bs
  have hkept : v.reorder order ∈ preferred (candidates.map (Symbol.reorder order)) (reorder order arguments) := by
    rw [hsame]
    exact List.mem_map_of_mem hv
  have hvsurvives := survives_of_mem ((foldl_preferPointersAt_sublist _ _).subset hv)
  rw [preferred, hrest, survivors_reorder horder] at hkept
  rw [← takesPointerAt_reorder horder hvsurvives hfirst]
  refine takesPointerAt_of_first (List.mem_map_of_mem hu) ?_ hkept
  rwa [takesPointerAt_reorder horder (survives_of_mem hu) hfirst]

end Candidates

/-- In every order of the arguments the same candidates survive. The verdict is the same in all orders exactly if no candidate
survives, or one of the survivors takes a pointer for every argument that could be null for which any of them does. -/
theorem resolve_reorder_iff (candidates : List Symbol) (arguments : List Argument) :
    (∀ order, order.Perm (List.range arguments.length) →
      survivors (candidates.map (Symbol.reorder order)) (reorder order arguments) =
        (survivors candidates arguments).map (Symbol.reorder order)) ∧
    ((∀ order, order.Perm (List.range arguments.length) →
      resolve (candidates.map (Symbol.reorder order)) (reorder order arguments) =
        (resolve candidates arguments).map (Symbol.reorder order)) ↔
      survivors candidates arguments = [] ∨
        ∃ s ∈ survivors candidates arguments, s.Leads (nullPositions arguments) (survivors candidates arguments)) := by
  refine ⟨fun order h => survivors_reorder h candidates, fun h => ?_, fun h order horder => ?_⟩
  · cases hkept : preferred candidates arguments with
    | nil => exact .inl (foldl_preferPointersAt_eq_nil.mp hkept)
    | cons v vs =>
      have hv : v ∈ preferred candidates arguments := by rw [hkept]; exact List.mem_cons_self
      exact .inr ⟨v, (foldl_preferPointersAt_sublist _ _).subset hv, leads_of_reorder hv h⟩
  · rw [resolve_eq, resolve_eq, ← verdict_map]
    rcases h with hnone | ⟨s, hs, hlead⟩
    · rw [preferred, preferred, survivors_reorder horder, hnone, List.map_nil,
        foldl_preferPointersAt_eq_nil.mpr rfl, foldl_preferPointersAt_eq_nil.mpr rfl, List.map_nil]
    · rw [preferred_reorder horder hs hlead]

/-- Of these two functions the second takes a pointer wherever the first does. -/
def nestedOverloads : List Symbol := [procedure [.int32, numberPointer], procedure [numberPointer, numberPointer]]

theorem resolve_reorder_nested : [1, 0].Perm (List.range 2) ∧
    resolve (nestedOverloads.map (Symbol.reorder [1, 0])) (reorder [1, 0] [literalZero, literalZero]) =
      (resolve nestedOverloads [literalZero, literalZero]).map (Symbol.reorder [1, 0]) := by
  have hsurvivors : survivors nestedOverloads [literalZero, literalZero] = nestedOverloads := rfl
  have hpointers : ∀ i ∈ nullPositions [literalZero, literalZero],
      (procedure [numberPointer, numberPointer]).takesPointerAt i = true := by decide
  have horder : [1, 0].Perm (List.range 2) := by decide
  have hleader : ∃ s ∈ survivors nestedOverloads [literalZero, literalZero],
      s.Leads (nullPositions [literalZero, literalZero]) (survivors nestedOverloads [literalZero, literalZero]) := by
    refine ⟨procedure [numberPointer, numberPointer], ?_, fun i hi _ _ _ => hpointers i hi⟩
    rw [hsurvivors]
    exact List.mem_cons_of_mem _ (List.mem_singleton_self _)
  exact ⟨horder, (resolve_reorder_iff nestedOverloads [literalZero, literalZero]).2.mpr (.inr hleader) [1, 0] horder⟩

/-- Two functions that take a pointer for another argument each. -/
def crossedOverloads : List Symbol := [procedure [numberPointer, .int32], procedure [.int32, numberPointer]]

/-- Two literal zeros are given to the function that takes a pointer for the first of them. With the arguments and parameters
the other way round, this is the other function. -/
theorem crossedOverloads_unlike :
    resolve crossedOverloads [literalZero, literalZero] = .resolved (procedure [numberPointer, .int32]) ∧
      ¬ ∀ (candidates : List Symbol) (arguments : List Argument) (order : List Nat),
        order.Perm (List.range arguments.length) →
          resolve (candidates.map (Symbol.reorder order)) (reorder order arguments) =
            (resolve candidates arguments).map (Symbol.reorder order) := by
  refine ⟨rfl, fun h => ?_⟩
  have hsame : Resolution.resolved (procedure [numberPointer, .int32]) = .resolved (procedure [.int32, numberPointer]) :=
    h crossedOverloads [literalZero, literalZero] [1, 0] (by decide)
  injection hsame with hsymbol
  cases congrArg (Symbol.takesPointerAt 0) hsymbol

end Spmd
