import Spmd.Proofs.Expr.Formed
import Spmd.Proofs.Session.Contract

/-!
# Picking an overload

A function that overload resolution settles on is one of the candidates and has a parameter for every argument. The
name that resolved to it has its type.
-/

namespace Spmd

/-! ## Candidates -/

theorem mem_of_preferPointersAt {candidates : List Symbol} {i : Nat} {s : Symbol}
    (h : s ∈ preferPointersAt candidates i) : s ∈ candidates := by
  unfold preferPointersAt at h
  dsimp only at h
  split at h
  · exact (List.mem_filter.mp h).1
  · exact h

theorem mem_of_preferPointers {arguments : List Argument} {candidates : List Symbol} {s : Symbol}
    (h : s ∈ preferPointers arguments candidates) : s ∈ candidates := by
  unfold preferPointers at h
  split at h
  · exact h
  · rename_i hlen
    clear hlen
    generalize arguments.zipIdx = positions at h
    induction positions generalizing candidates with
    | nil => exact h
    | cons p ps ih =>
      obtain ⟨a, i⟩ := p
      rw [List.foldl_cons] at h
      have hm := ih h
      dsimp only at hm
      split at hm
      · exact mem_of_preferPointersAt hm
      · exact hm

theorem settle_resolved {candidates : List Symbol} {s : Symbol} (h : settle? candidates = some (.resolved s)) :
    s ∈ candidates := by
  unfold settle? at h
  split at h <;> cases h
  exact List.mem_singleton_self s

theorem takes_signature {accepts : Ty → Ty → Bool} {arguments : List Argument} {s : Symbol}
    (h : s.takes accepts arguments = true) :
    ∃ sig, s.signature? = some sig ∧ sig.parameters.length = arguments.length := by
  unfold Symbol.takes at h
  split at h
  · rename_i sig hs
    exact ⟨sig, hs, by simpa using (Bool.and_eq_true_iff.mp h).1⟩
  · cases h

/-- The resolved candidate was left over by one of the phases. -/
theorem resolve_takes {candidates : List Symbol} {arguments : List Argument} {s : Symbol}
    (h : resolve candidates arguments = .resolved s) :
    s ∈ candidates ∧ (s.takes Ty.matchesExactly arguments = true ∨ s.takes (Ty.converts false) arguments = true) := by
  have phase : ∀ accepts, settle? (preferPointers arguments (candidates.filter (Symbol.takes accepts arguments))) =
      some (.resolved s) → s ∈ candidates ∧ s.takes accepts arguments = true :=
    fun accepts hs => List.mem_filter.mp (mem_of_preferPointers (settle_resolved hs))
  unfold resolve at h
  dsimp only at h
  split at h
  · rename_i r hr
    subst h
    exact (phase _ hr).imp_right .inl
  · cases hp : settle? (preferPointers arguments (candidates.filter (Symbol.takes (Ty.converts false) arguments))) with
    | none => rw [hp] at h; cases h
    | some r =>
      rw [hp] at h
      cases h
      exact (phase _ hp).imp_right .inr

theorem resolve_resolved {candidates : List Symbol} {arguments : List Argument} {s : Symbol}
    (h : resolve candidates arguments = .resolved s) :
    s ∈ candidates ∧ ∃ sig, s.signature? = some sig ∧ sig.parameters.length = arguments.length :=
  (resolve_takes h).imp_right fun ht => ht.elim takes_signature takes_signature

theorem resolve_single (s : Symbol) (arguments : List Argument) : resolve [s] arguments =
    if s.takes Ty.matchesExactly arguments || s.takes (Ty.converts false) arguments then .resolved s else .none := by
  have phase : ∀ accepts, settle? (preferPointers arguments ([s].filter (Symbol.takes accepts arguments))) =
      if s.takes accepts arguments then some (.resolved s) else none := by
    intro accepts
    cases h : s.takes accepts arguments with
    | true =>
      rw [List.filter_cons_of_pos h, List.filter_nil, preferPointers, if_pos (by simp)]
      rfl
    | false =>
      rw [List.filter_cons_of_neg (by simp [h]), List.filter_nil, preferPointers, if_pos (by simp)]
      rfl
  unfold resolve
  simp only [phase]
  cases s.takes Ty.matchesExactly arguments with
  | true => rfl
  | false => cases s.takes (Ty.converts false) arguments <;> rfl

theorem length_ofTypes : ∀ (ts : List Ty) (ns : List Bool), (Argument.ofTypes ts ns).length = ts.length
  | [], _ => by simp [Argument.ofTypes]
  | t :: ts, [] => by simp [Argument.ofTypes, length_ofTypes ts []]
  | t :: ts, n :: ns => by simp [Argument.ofTypes, length_ofTypes ts ns]

/-! ## Names -/

namespace FunctionName

theorem settleType_eq (f : FunctionName) : ∃ t, f.settleType = { f with node := { f.node with type := t } } := by
  unfold settleType
  split
  · split
    · exact ⟨_, rfl⟩
    · exact ⟨f.node.type, rfl⟩
  · exact ⟨f.node.type, rfl⟩

@[simp] theorem settleType_choice (f : FunctionName) : f.settleType.choice = f.choice := by
  obtain ⟨t, h⟩ := f.settleType_eq
  rw [h]

@[simp] theorem settleType_candidates (f : FunctionName) : f.settleType.candidates = f.candidates := by
  obtain ⟨t, h⟩ := f.settleType_eq
  rw [h]

@[simp] theorem settleType_name (f : FunctionName) : f.settleType.name = f.name := by
  obtain ⟨t, h⟩ := f.settleType_eq
  rw [h]

@[simp] theorem settleType_tag (f : FunctionName) : f.settleType.node.tag = f.node.tag := by
  obtain ⟨t, h⟩ := f.settleType_eq
  rw [h]

@[simp] theorem settleType_place (f : FunctionName) : f.settleType.node.place = f.node.place := by
  obtain ⟨t, h⟩ := f.settleType_eq
  rw [h]

@[simp] theorem settleType_function (f : FunctionName) : f.settleType.function? = f.function? := by
  rw [function?, function?, settleType_choice, settleType_candidates]

@[simp] theorem settleType_isResolved (f : FunctionName) : f.settleType.isResolved = f.isResolved := by
  rw [isResolved, isResolved, settleType_function]

theorem settleType_of_type {f : FunctionName} {t : Ty} (h : f.node.type = some t) : f.settleType = f := by
  unfold settleType
  split
  · rw [if_neg (by rw [h]; exact Bool.false_ne_true)]
  · rfl

end FunctionName

namespace Expr

/-- A name that was resolved to a function. -/
structure Settled (f : FunctionName) (s : Symbol) : Prop where
  chosen_eq : f.choice.chosen = some s
  type_eq : f.node.type = some s.type
  legal : s.type.Legal

theorem Settled.isResolved {f : FunctionName} {s : Symbol} (h : Settled f s) : f.isResolved = true := by
  rw [FunctionName.isResolved, FunctionName.function?, h.chosen_eq]
  rfl

theorem Settled.type_function {f : FunctionName} {s : Symbol} (h : Settled f s) : f.node.type = f.function?.map Symbol.type := by
  rw [FunctionName.function?, h.chosen_eq]
  exact h.type_eq

theorem Settled.checked {T : Target} {f : FunctionName} {s : Symbol} (h : Settled f s) :
    Checked T (.function f) :=
  Checked.leaf ⟨⟨s.type, h.type_eq, h.legal⟩, trivial, h.isResolved⟩ rfl

theorem Known.settleType_eq {f : FunctionName} (h : Known f) : f.settleType = f := by
  unfold FunctionName.settleType
  split
  · rename_i s hs
    rw [if_neg (by rw [h.type_eq, hs]; exact Bool.false_ne_true)]
  · rfl

theorem Known.settle {f : FunctionName} (h : Known f.settleType) (hc : f.choice = {}) {s : Symbol} (hs : s ∈ f.candidates) :
    Settled (FunctionName.settleType { f with choice := ⟨some s, true⟩ }) s := by
  have hlegal : s.type.Legal := h.legal s (f.settleType_candidates ▸ hs)
  cases ht : f.node.type with
  | none =>
    refine ⟨by simp, ?_, hlegal⟩
    unfold FunctionName.settleType
    simp only [FunctionName.function?, ht, Option.isNone_none, if_true]
  | some t =>
    have hf : f.settleType = f := FunctionName.settleType_of_type ht
    rw [hf] at h
    have hg : FunctionName.settleType { f with choice := ⟨some s, true⟩ } = { f with choice := ⟨some s, true⟩ } :=
      FunctionName.settleType_of_type ht
    rw [hg]
    have htype := h.type_eq
    rw [ht, eq_comm, Option.map_eq_some_iff] at htype
    obtain ⟨u, hu, rfl⟩ := htype
    rw [candidates_of_function hc hu, List.mem_singleton] at hs
    subst hs
    exact ⟨rfl, ht, hlegal⟩

theorem Known.settled {f : FunctionName} (h : Known f) {s : Symbol} (hs : f.choice.chosen = some s) :
    Settled f s ∧ ∃ sig, s.signature? = some sig := by
  rcases h.choice_cases with hc | ⟨u, hu, hc, hsig⟩
  · rw [hc] at hs
    cases hs
  · rw [hc] at hs
    cases hs
    have hfunction : f.function? = some s := by rw [FunctionName.function?, hc]
    exact ⟨⟨by rw [hc], h.type_eq.trans (by rw [hfunction]; rfl), h.legal s hu⟩, Option.isSome_iff_exists.mp hsig⟩

theorem Known.pick {f : FunctionName} (h : Known f.settleType) (hc : f.choice = {}) {s : Symbol} (hs : s ∈ f.candidates)
    {sig : Signature} (hsig : s.signature? = some sig) :
    Known (FunctionName.settleType { f with choice := ⟨some s, true⟩ }) where
  choice_cases := .inr ⟨s, by simpa using hs, by simp, by rw [hsig]; rfl⟩
  type_eq := (h.settle hc hs).type_eq.trans (by rw [FunctionName.settleType_function]; rfl)
  legal u hu := h.legal u (by simpa using hu)

end Expr

/-- Where a function was picked for a name, it has a parameter for each of a number of arguments. -/
def FunctionName.Takes (f : FunctionName) (n : Nat) : Prop :=
  ∀ s sig, f.choice.chosen = some s → s.signature? = some sig → sig.parameters.length = n

theorem Expr.Fresh.takes {f : FunctionName} (h : Fresh f) (n : Nat) : f.Takes n := by
  intro s sig hs
  rw [h.choice_eq] at hs
  cases hs

namespace Check

variable {T : Target}

/-- A name resolves to a function that takes the arguments, unless a function was picked for it before. -/
theorem resolve_meets {f : FunctionName} (h : Expr.Known f) (arguments : List Argument) :
    Meets T (f.resolve arguments) fun r new =>
      match r.1 with
      | some s => new.errors = [] ∧ Expr.Settled r.2 s ∧
          ∃ sig, s.signature? = some sig ∧ (sig.parameters.length = arguments.length ∨ f.choice.chosen = some s)
      | none => new.errors ≠ [] := by
  unfold FunctionName.resolve
  by_cases hopen : (f.choice.chosen.isSome || f.choice.attempted) = true
  · rw [if_pos hopen]
    obtain ⟨s, hs⟩ : ∃ s, f.choice.chosen = some s := by
      rcases h.choice_cases with hc | ⟨s, -, hc, -⟩
      · rw [hc] at hopen
        cases hopen
      · exact ⟨s, by rw [hc]⟩
    obtain ⟨hsettled, sig, hsig⟩ := h.settled hs
    refine Meets.pure ?_
    rw [hs]
    exact ⟨rfl, hsettled, sig, hsig, .inr rfl⟩
  rw [if_neg hopen]
  have hc : f.choice = {} := by
    rcases h.choice_cases with hc | ⟨s, -, hc, -⟩
    · exact hc
    · rw [hc] at hopen
      exact absurd rfl hopen
  split
  · rename_i s hs
    obtain ⟨hm, sig, hsig, hn⟩ := resolve_resolved hs
    refine Meets.bind (note_meets _) fun _ new hnew => Meets.pure ?_
    subst hnew
    exact ⟨rfl, (h.settleType_eq.symm ▸ h : Expr.Known f.settleType).settle hc hm, sig, hsig, .inl hn⟩
  -- neither no candidate nor several of them give a function
  all_goals
    refine Meets.bind (note_meets _) fun _ new hnew => Meets.bind (report_meets _ _) fun _ more hmore => Meets.pure ?_
    subst hnew hmore
    simp [Log.errors, Message.isError]

end Check

end Spmd
