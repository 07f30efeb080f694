import Mathlib.Data.Int.Order.Basic
import Mathlib.Data.List.Induction
import Mathlib.Order.MinMax
import Spmd.Text.Distance

/-!
# The nearest names

`nearMatches` goes through the candidates once and keeps those at the smallest distance so far. What it keeps in the end are the
candidates at the smallest distance of all, each once and in the order they come first, if that distance is at most one more
than the limit (`nearMatches_eq`).
-/

namespace Spmd.Text

/-- The candidates at the smallest distance from a name, each once and in the order they come first. -/
def closest (name : String) (candidates : List String) : List String :=
  (candidates.filter fun c => ∀ d ∈ candidates, editDistance name c ≤ editDistance name d).eraseDups

/-- The smallest distance from a name, or the start value where no candidate is nearer. -/
def bestDistance (name : String) (start : Int) (candidates : List String) : Int :=
  candidates.foldl (fun best c => min best (editDistance name c)) start

/-- What is kept of some candidates: those at the best distance. -/
def Nearest.of (name : String) (start : Int) (candidates : List String) : Nearest where
  best := bestDistance name start candidates
  names := (candidates.filter fun c => (editDistance name c : Int) = bestDistance name start candidates).eraseDups

variable {name : String} {start : Int} {candidates : List String} {c : String}

/-! ## The smallest distance -/

theorem bestDistance_append (seen : List String) (c : String) :
    bestDistance name start (seen ++ [c]) = min (bestDistance name start seen) (editDistance name c) := by
  rw [bestDistance, List.foldl_append]
  rfl

theorem le_bestDistance_iff {bound : Int} :
    bound ≤ bestDistance name start candidates ↔ bound ≤ start ∧ ∀ c ∈ candidates, bound ≤ editDistance name c := by
  induction candidates using List.reverseRecOn with
  | nil => simp [bestDistance]
  | append_singleton seen c ih =>
    rw [bestDistance_append, le_min_iff, ih, List.forall_mem_append, List.forall_mem_singleton, and_assoc]

theorem bestDistance_le (h : c ∈ candidates) : bestDistance name start candidates ≤ editDistance name c :=
  (le_bestDistance_iff.mp le_rfl).2 c h

/-! ## One candidate more -/

theorem eraseDups_concat (l : List String) (c : String) :
    (l ++ [c]).eraseDups = if c ∈ l.eraseDups then l.eraseDups else l.eraseDups ++ [c] := by
  rw [List.eraseDups_append]
  by_cases hc : c ∈ l <;> simp [List.removeAll, List.eraseDups_cons, List.mem_eraseDups, hc]

theorem add_of (seen : List String) (c : String) :
    (Nearest.of name start seen).add name c = Nearest.of name start (seen ++ [c]) := by
  have hmin : ∀ s ∈ seen, bestDistance name start seen ≤ editDistance name s := fun s hs => bestDistance_le hs
  unfold Nearest.add Nearest.of
  dsimp only
  simp only [bestDistance_append, List.filter_append]
  generalize bestDistance name start seen = best at hmin ⊢
  rcases lt_trichotomy (editDistance name c : Int) best with hlt | heq | hgt
  · -- what was kept so far is farther away
    have hnone : seen.filter (fun s => decide ((editDistance name s : Int) = editDistance name c)) = [] :=
      List.filter_eq_nil_iff.mpr fun s hs hd => by
        have hle := hmin s hs
        rw [of_decide_eq_true hd] at hle
        omega
    have hkeep : [c].filter (fun s => decide ((editDistance name s : Int) = editDistance name c)) = [c] :=
      List.filter_cons_of_pos (decide_eq_true rfl)
    rw [if_pos hlt, min_eq_right hlt.le, hnone, hkeep]
    rfl
  · have hkeep : [c].filter (fun s => decide ((editDistance name s : Int) = best)) = [c] :=
      List.filter_cons_of_pos (decide_eq_true heq)
    rw [if_neg heq.not_lt, heq, min_self, hkeep, eraseDups_concat]
    generalize (seen.filter fun s => decide ((editDistance name s : Int) = best)).eraseDups = names
    by_cases hc : c ∈ names
    · rw [if_neg fun h => h.2 hc, if_pos hc]
    · rw [if_pos ⟨rfl, hc⟩, if_neg hc]
  · rw [if_neg hgt.not_gt, min_eq_left hgt.le]
    have hdrop : [c].filter (fun s => decide ((editDistance name s : Int) = best)) = [] :=
      List.filter_cons_of_neg (by simpa using hgt.ne')
    rw [if_neg fun h => hgt.ne' h.1, hdrop, List.append_nil]

/-- Going through the candidates one by one keeps what is at the best distance of those seen. -/
theorem foldl_add (name : String) (start : Int) (candidates : List String) :
    candidates.foldl (Nearest.add name) ⟨start, []⟩ = Nearest.of name start candidates := by
  induction candidates using List.reverseRecOn with
  | nil => rfl
  | append_singleton seen c ih => rw [List.foldl_append, ih, List.foldl_cons, List.foldl_nil, add_of]

/-! ## All candidates -/

/-- If some candidate is no farther than the start value, the best distance is that of the closest. -/
theorem bestDistance_eq_iff (hc : c ∈ candidates) (hle : ∃ d ∈ candidates, (editDistance name d : Int) ≤ start) :
    (editDistance name c : Int) = bestDistance name start candidates ↔
      ∀ d ∈ candidates, editDistance name c ≤ editDistance name d := by
  constructor
  · intro h d hd
    have hbest : bestDistance name start candidates ≤ editDistance name d := bestDistance_le hd
    omega
  · intro h
    obtain ⟨d, hd, hstart⟩ := hle
    have hcd := h d hd
    refine le_antisymm (le_bestDistance_iff.mpr ⟨by omega, fun d hd => ?_⟩) (bestDistance_le hc)
    exact_mod_cast h d hd

/-- The near matches are the candidates at the smallest distance, each once and in the order they come first, if this distance is
at most one more than the limit. Otherwise there are none. -/
theorem nearMatches_eq (name : String) (candidates : List String) (limit : Int) :
    nearMatches name candidates limit =
      if ∃ c ∈ candidates, (editDistance name c : Int) ≤ limit + 1 then closest name candidates else [] := by
  rw [nearMatches, foldl_add]
  unfold Nearest.of closest
  dsimp only
  split
  · rename_i hnear
    refine congrArg _ (List.filter_congr fun c hc => ?_)
    rw [decide_eq_decide]
    exact bestDistance_eq_iff hc hnear
  · rename_i hfar
    push Not at hfar
    have hnone : candidates.filter (fun c => decide ((editDistance name c : Int) = bestDistance name (limit + 1) candidates)) = [] :=
      List.filter_eq_nil_iff.mpr fun c hc hd => by
        have hle : bestDistance name (limit + 1) candidates ≤ limit + 1 := (le_bestDistance_iff.mp le_rfl).1
        have hlt := hfar c hc
        rw [of_decide_eq_true hd] at hlt
        omega
    rw [hnone]
    rfl

/-- Three edits are one more than the limit, and still near. -/
theorem nearMatches_exceeds : editDistance "abc" "xyz" = 3 ∧ nearMatches "abc" ["xyz"] 2 = ["xyz"] ∧
    ¬ ∀ (name : String) (candidates : List String) (limit : Int), 0 ≤ limit →
      nearMatches name candidates limit =
        if ∃ c ∈ candidates, (editDistance name c : Int) ≤ limit then closest name candidates else [] := by
  have hdistance : editDistance "abc" "xyz" = 3 := by decide
  have hnear : nearMatches "abc" ["xyz"] 2 = ["xyz"] := by decide
  refine ⟨hdistance, hnear, fun h => ?_⟩
  have hnone := h "abc" ["xyz"] 2 (by decide)
  rw [hnear, if_neg (by simp [hdistance])] at hnone
  cases hnone

/-- Ties and repetitions, each kept once and where it comes first, and a nearer name that comes late. -/
example : nearMatches "xx" ["yy", "x", "y", "x", "xy"] 1 = ["x", "xy"] := by decide

end Spmd.Text
