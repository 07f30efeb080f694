import Spmd.Text.Basic

/-!
# Edit distance and near matches

The distance is computed row by row: row `i` holds the distances between the first `i` elements of
one sequence and every initial part of the other.
-/

namespace Spmd.Text

/-! ## Edit distance -/

/-- The rest of a row, given the element `x` it belongs to, the row above from the diagonal
neighbour on, and the entry to the left. -/
def distanceRow {α : Type} [DecidableEq α] (x : α) : List α → List Nat → Nat → List Nat
  | y :: ys, diagonal :: above :: rest, left =>
    let entry := min (min (above + 1) (left + 1)) (diagonal + if x = y then 0 else 1)
    entry :: distanceRow x ys (above :: rest) entry
  | _, _, _ => []

def nextDistances {α : Type} [DecidableEq α] (b : List α) (row : List Nat) (x : α) : List Nat :=
  let first := row.headD 0 + 1
  first :: distanceRow x b row first

/-- The number of insertions, deletions and substitutions that turn `a` into `b`. -/
def distance {α : Type} [DecidableEq α] (a b : List α) : Nat :=
  (a.foldl (nextDistances b) (List.range (b.length + 1))).getLastD 0

def editDistance (a b : String) : Nat := distance (units a) (units b)

/-! ## Near matches -/

/-- The candidates kept so far and their distance. -/
structure Nearest where
  best : Int
  names : List String

def Nearest.add (name : String) (kept : Nearest) (candidate : String) : Nearest :=
  let d : Int := editDistance name candidate
  if d < kept.best then ⟨d, [candidate]⟩
  else if d = kept.best ∧ candidate ∉ kept.names then ⟨kept.best, kept.names ++ [candidate]⟩
  else kept

/-- The closest candidates, each once and in their order. -/
def nearMatches (name : String) (candidates : List String) (limit : Int) : List String :=
  (candidates.foldl (Nearest.add name) ⟨limit + 1, []⟩).names

/-- The suggestion that follows a misspelled name. -/
def hint (name : String) (candidates : List String) : String :=
  match nearMatches name candidates 2 with
  | [] => ""
  | near => " (did you mean " ++ " or ".intercalate (near.map quoted) ++ "?)"

/-! ## Repetitions -/

/-- The entries that are not the first of their kind, where `same` need not be reflexive. -/
def repeats {α : Type} (same : α → α → Bool) (values : List α) : List α :=
  (values.zipIdx.filter fun (x, i) => values.findIdx? (same x) != some i).map Prod.fst

end Spmd.Text
