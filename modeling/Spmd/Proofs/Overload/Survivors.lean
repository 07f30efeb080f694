import Spmd.Proofs.Typing.Program

/-!
# Only the survivors count

A candidate survives if it takes the arguments in one of the two phases. Resolution chooses among the survivors of the first
phase that has any (`resolve_eq`), by a preference that looks at each candidate alone. So its verdict depends neither on the
order of the candidates nor on those that do not survive (`resolve_among_survivors`).
-/

namespace Spmd

/-! ## The choice -/

/-- Whether a candidate takes the arguments, matching all of them exactly or converting all of them. An argument that could be
null fits a pointer either way. -/
def Symbol.survives (arguments : List Argument) (s : Symbol) : Bool :=
  s.takes Ty.matchesExactly arguments || s.takes (Ty.converts false) arguments

/-- The candidates to choose from: those that match exactly, or if there are none, those that the arguments convert to. -/
def survivors (candidates : List Symbol) (arguments : List Argument) : List Symbol :=
  match candidates.filter (Symbol.takes Ty.matchesExactly arguments) with
  | [] => candidates.filter (Symbol.takes (Ty.converts false) arguments)
  | s :: ss => s :: ss

/-- Two verdicts that differ at most in the order of the candidates they list. -/
inductive Resolution.Alike : Resolution → Resolution → Prop
  | resolved (s : Symbol) : Alike (.resolved s) (.resolved s)
  | none : Alike .none .none
  | ambiguous {ss ss' : List Symbol} (perm : ss.Perm ss') : Alike (.ambiguous ss) (.ambiguous ss')

/-- A verdict that the candidates bear out. -/
def Resolution.Justified (candidates : List Symbol) (arguments : List Argument) : Resolution → Prop
  | .resolved s => s ∈ candidates ∧ s.survives arguments = true ∧
      ∃ sig, s.signature? = some sig ∧ sig.parameters.length = arguments.length
  | .none => ∀ s ∈ candidates, s.survives arguments = false
  | .ambiguous ss => 2 ≤ ss.length ∧ ss.Sublist candidates ∧ ∀ s ∈ ss, s.survives arguments = true

variable {candidates candidates' : List Symbol} {arguments : List Argument} {s : Symbol}

theorem survivors_cases (candidates : List Symbol) (arguments : List Argument) :
    ∃ accepts, (accepts = Ty.matchesExactly ∨ accepts = Ty.converts false) ∧
      survivors candidates arguments = candidates.filter (Symbol.takes accepts arguments) := by
  unfold survivors
  split
  · exact ⟨_, .inr rfl, rfl⟩
  · rename_i h
    exact ⟨_, .inl rfl, h.symm⟩

theorem survivors_sublist (candidates : List Symbol) (arguments : List Argument) :
    (survivors candidates arguments).Sublist candidates := by
  obtain ⟨accepts, -, h⟩ := survivors_cases candidates arguments
  rw [h]
  exact List.filter_sublist

theorem survives_of_mem (h : s ∈ survivors candidates arguments) : s.survives arguments = true := by
  obtain ⟨accepts, ha, hs⟩ := survivors_cases candidates arguments
  rw [hs] at h
  have ht := (List.mem_filter.mp h).2
  rw [Symbol.survives, Bool.or_eq_true]
  rcases ha with rfl | rfl
  · exact .inl ht
  · exact .inr ht

theorem survivors_eq_nil : survivors candidates arguments = [] ↔ ∀ s ∈ candidates, s.survives arguments = false := by
  simp only [Symbol.survives, Bool.or_eq_false_iff, forall_and]
  unfold survivors
  split
  · rename_i hexact
    simp only [List.filter_eq_nil_iff, Bool.not_eq_true] at hexact ⊢
    exact ⟨fun h => ⟨hexact, h⟩, fun h => h.2⟩
  · rename_i s ss hexact
    refine ⟨nofun, fun h => ?_⟩
    have hs : s ∈ candidates.filter (Symbol.takes Ty.matchesExactly arguments) := by rw [hexact]; exact List.mem_cons_self
    obtain ⟨hmem, htakes⟩ := List.mem_filter.mp hs
    rw [h.1 s hmem] at htakes
    cases htakes

/-! ## The preference for pointers -/

theorem preferPointersAt_sublist (candidates : List Symbol) (i : Nat) :
    (preferPointersAt candidates i).Sublist candidates := by
  unfold preferPointersAt
  dsimp only
  split
  · exact List.filter_sublist
  · exact List.Sublist.refl _

theorem preferPointersAt_eq_nil {i : Nat} : preferPointersAt candidates i = [] ↔ candidates = [] := by
  unfold preferPointersAt
  dsimp only
  split
  · rename_i h
    refine ⟨fun hn => ?_, fun hn => by rw [hn]; rfl⟩
    rw [hn] at h
    exact absurd h.1 (Nat.lt_irrefl 0)
  · rfl

theorem preferPointersAt_perm (h : candidates.Perm candidates') (i : Nat) :
    (preferPointersAt candidates i).Perm (preferPointersAt candidates' i) := by
  have hfilter := h.filter (Symbol.takesPointerAt i)
  unfold preferPointersAt
  dsimp only
  rw [hfilter.length_eq, h.length_eq]
  split
  · exact hfilter
  · exact h

/-- The positions of the arguments that could be null. -/
def nullPositions (arguments : List Argument) : List Nat :=
  (arguments.zipIdx.filter fun p => p.1.couldBeNull).map Prod.snd

theorem mem_nullPositions {i : Nat} : i ∈ nullPositions arguments ↔ ∃ a, arguments[i]? = some a ∧ a.couldBeNull = true := by
  simp [nullPositions, List.mem_zipIdx_iff_getElem?, and_comm]

/-- A single candidate is not preferred to any other, so that its number need not be asked for. -/
theorem preferPointers_eq (arguments : List Argument) (candidates : List Symbol) :
    preferPointers arguments candidates = (nullPositions arguments).foldl preferPointersAt candidates := by
  unfold preferPointers
  split
  · rename_i hlen
    have hkept : ∀ i, preferPointersAt candidates i = candidates := fun i => if_neg (by omega)
    exact (List.foldl_fixed' hkept _).symm
  · rw [nullPositions, List.foldl_map, List.foldl_filter]

theorem foldl_preferPointersAt_sublist (positions : List Nat) (candidates : List Symbol) :
    (positions.foldl preferPointersAt candidates).Sublist candidates := by
  induction positions generalizing candidates with
  | nil => exact List.Sublist.refl _
  | cons i is ih => exact (ih _).trans (preferPointersAt_sublist candidates i)

theorem foldl_preferPointersAt_eq_nil {positions : List Nat} : positions.foldl preferPointersAt candidates = [] ↔ candidates = [] := by
  induction positions generalizing candidates with
  | nil => rfl
  | cons i is ih => exact ih.trans preferPointersAt_eq_nil

theorem foldl_preferPointersAt_perm (positions : List Nat) (h : candidates.Perm candidates') :
    (positions.foldl preferPointersAt candidates).Perm (positions.foldl preferPointersAt candidates') := by
  induction positions generalizing candidates candidates' with
  | nil => exact h
  | cons i is ih => exact ih (preferPointersAt_perm h i)

/-! ## The verdict -/

/-- The survivors that are left when each position where an argument could be null had its say. -/
def preferred (candidates : List Symbol) (arguments : List Argument) : List Symbol :=
  (nullPositions arguments).foldl preferPointersAt (survivors candidates arguments)

/-- The verdict on the candidates that are left. -/
def verdict (kept : List Symbol) : Resolution := (settle? kept).getD .none

theorem settle_eq_none {kept : List Symbol} : settle? kept = none ↔ kept = [] := by
  match kept with
  | [] | [_] | _ :: _ :: _ => simp [settle?]

theorem resolve_eq (candidates : List Symbol) (arguments : List Argument) :
    resolve candidates arguments = verdict (preferred candidates arguments) := by
  unfold resolve preferred survivors verdict
  simp only [preferPointers_eq]
  cases candidates.filter (Symbol.takes Ty.matchesExactly arguments) with
  | nil => rw [settle_eq_none.mpr (foldl_preferPointersAt_eq_nil.mpr rfl)]
  | cons s ss =>
    cases hsettle : settle? ((nullPositions arguments).foldl preferPointersAt (s :: ss)) with
    | none => cases foldl_preferPointersAt_eq_nil.mp (settle_eq_none.mp hsettle)
    | some r => rfl

theorem verdict_of_length {kept : List Symbol} (h : 2 ≤ kept.length) : verdict kept = .ambiguous kept := by
  match kept with
  | [] | [_] => simp at h
  | _ :: _ :: _ => rfl

theorem verdict_perm {kept kept' : List Symbol} (h : kept.Perm kept') : (verdict kept).Alike (verdict kept') := by
  match kept with
  | [] =>
    rw [List.nil_perm.mp h]
    exact .none
  | [s] =>
    rw [← List.singleton_perm.mp h]
    exact .resolved s
  | s :: t :: ss =>
    rw [verdict_of_length (by simp), verdict_of_length (by rw [← h.length_eq]; simp)]
    exact .ambiguous h

theorem verdict_justified {kept : List Symbol} (hs : kept.Sublist (survivors candidates arguments))
    (hn : kept = [] ↔ survivors candidates arguments = []) : (verdict kept).Justified candidates arguments := by
  have hkept : ∀ s ∈ kept, s ∈ candidates ∧ s.survives arguments = true := fun s h =>
    ⟨(survivors_sublist candidates arguments).subset (hs.subset h), survives_of_mem (hs.subset h)⟩
  match kept with
  | [] => exact survivors_eq_nil.mp (hn.mp rfl)
  | [s] =>
    obtain ⟨hmem, hsurvives⟩ := hkept s (List.mem_singleton_self s)
    refine ⟨hmem, hsurvives, ?_⟩
    rcases Bool.or_eq_true_iff.mp hsurvives with h | h
    · exact takes_signature h
    · exact takes_signature h
  | s :: s' :: ss =>
    exact ⟨by simp, hs.trans (survivors_sublist candidates arguments), fun u hu => (hkept u hu).2⟩

/-! ## Order and removal -/

theorem survivors_perm (h : candidates.Perm candidates') :
    (survivors candidates arguments).Perm (survivors candidates' arguments) := by
  have hexact := h.filter (Symbol.takes Ty.matchesExactly arguments)
  unfold survivors
  split
  · rename_i hn
    rw [hn, List.nil_perm] at hexact
    rw [hexact]
    exact h.filter _
  · rename_i s ss hs
    rw [hs] at hexact
    split
    · rename_i hn
      rw [hn, List.perm_nil] at hexact
      cases hexact
    · rename_i hs'
      rwa [hs'] at hexact

/-- A candidate that does not survive is not chosen from. -/
theorem survivors_remove {front back : List Symbol} (h : s.survives arguments = false) :
    survivors (front ++ s :: back) arguments = survivors (front ++ back) arguments := by
  rw [Symbol.survives, Bool.or_eq_false_iff] at h
  have hfilter : ∀ accepts, s.takes accepts arguments = false →
      (front ++ s :: back).filter (Symbol.takes accepts arguments) =
        (front ++ back).filter (Symbol.takes accepts arguments) := by
    intro accepts ha
    rw [List.filter_append, List.filter_append, List.filter_cons_of_neg (by rw [ha]; exact Bool.false_ne_true)]
  unfold survivors
  rw [hfilter _ h.1, hfilter _ h.2]

/-- In whatever order the candidates are declared, the verdict is the same, up to the order in which candidates are listed. A
candidate that does not survive may as well be missing. Whatever the verdict is, the candidates bear it out. -/
theorem resolve_among_survivors (candidates : List Symbol) (arguments : List Argument) :
    (∀ permuted, candidates.Perm permuted → (resolve candidates arguments).Alike (resolve permuted arguments)) ∧
      (∀ front s back, candidates = front ++ s :: back → s.survives arguments = false →
        resolve (front ++ back) arguments = resolve candidates arguments) ∧
      (resolve candidates arguments).Justified candidates arguments := by
  refine ⟨fun permuted h => ?_, fun front s back h hs => ?_, ?_⟩
  · rw [resolve_eq, resolve_eq]
    exact verdict_perm (foldl_preferPointersAt_perm _ (survivors_perm h))
  · rw [h, resolve_eq, resolve_eq, preferred, preferred, survivors_remove hs]
  · rw [resolve_eq]
    exact verdict_justified (foldl_preferPointersAt_sublist _ _) foldl_preferPointersAt_eq_nil

def literalZero : Argument := ⟨Ty.int32.asConst, true⟩

def numberPointer : Ty := .pointer .int32 {}

/-- Three functions of one name, of which the last takes no number. -/
def numberOverloads : List Symbol := [procedure [.int32], procedure [numberPointer], procedure [.struct "S" [] {}]]

theorem resolve_among_survivors_numbers :
    (resolve numberOverloads [literalZero]).Alike (resolve numberOverloads.reverse [literalZero]) ∧
      resolve [procedure [.int32], procedure [numberPointer]] [literalZero] = resolve numberOverloads [literalZero] ∧
      (resolve numberOverloads [literalZero]).Justified numberOverloads [literalZero] := by
  obtain ⟨hperm, hremove, hjustified⟩ := resolve_among_survivors numberOverloads [literalZero]
  exact ⟨hperm _ (List.reverse_perm _).symm, hremove [_, _] _ [] rfl rfl, hjustified⟩

/-- A literal zero is preferred as a pointer, and a number that is none is not. -/
example : resolve numberOverloads [literalZero] = .resolved (procedure [numberPointer]) ∧
    resolve numberOverloads [⟨.int32, false⟩] = .resolved (procedure [.int32]) := ⟨rfl, rfl⟩

end Spmd
