import Spmd.Number.Decimal
import Spmd.Text.Basic

/-!
# Lines of a text

A text splits into its lines where it has a newline, and moving it to the right moves each of them by as many spaces
(`split_indent`). Numbers are written on one line.
-/

namespace Spmd.Text

/-! ## Splitting -/

theorem split_eq (c : Char) (s : String) : split c s = (s.toList.splitOn c).map String.ofList := by
  unfold split
  dsimp only
  induction s.toList with
  | nil => rfl
  | cons d l ih =>
    rw [List.foldr_cons, List.splitOn_cons_eq_if_modifyHead]
    by_cases h : d = c
    · rw [if_pos h, if_pos (beq_iff_eq.mpr h), List.map_cons, ← ih]
    · obtain ⟨word, rest, hl⟩ := List.exists_cons_of_ne_nil (List.splitOn_ne_nil c l)
      rw [hl, List.map_cons, List.cons.injEq, String.ofList_inj] at ih
      rw [if_neg h, if_neg (by simpa using h), hl, List.modifyHead_cons, List.map_cons, ih.1, ih.2]

theorem split_append_newline (s t : String) : split '\n' (s ++ "\n" ++ t) = split '\n' s ++ split '\n' t := by
  have hjoin : (s ++ "\n" ++ t).toList = s.toList ++ '\n' :: t.toList := by
    simp only [String.toList_append, List.append_assoc]
    rfl
  simp only [split_eq, hjoin, List.splitOn_append_cons_self, List.map_append]

/-! ## Texts of one line -/

def OneLine (s : String) : Prop := '\n' ∉ s.toList

instance (s : String) : Decidable (OneLine s) := inferInstanceAs (Decidable ('\n' ∉ s.toList))

@[simp] theorem oneLine_append (s t : String) : OneLine (s ++ t) ↔ OneLine s ∧ OneLine t := by
  simp only [OneLine, String.toList_append, List.mem_append, not_or]

theorem split_of_oneLine {s : String} (h : OneLine s) : split '\n' s = [s] := by
  rw [split_eq, List.splitOn_eq_singleton h, List.map_singleton, String.ofList_toList]

@[simp] theorem oneLine_commas (parts : List String) : OneLine (commas parts) ↔ ∀ s ∈ parts, OneLine s := by
  unfold commas
  induction parts with
  | nil => exact ⟨nofun, fun _ => by decide⟩
  | cons s rest ih =>
    cases rest with
    | nil => simp
    | cons t rest =>
      have hcomma : OneLine ", " := by decide
      rw [String.intercalate_cons_cons, oneLine_append, oneLine_append, ih, List.forall_mem_cons]
      simp [hcomma]

/-! ## Indentation -/

/-- The spaces before a line that is `depth` steps to the right. -/
def margin (depth : Nat) : String := String.ofList (List.replicate (2 * depth) ' ')

theorem toList_margin (depth : Nat) : (margin depth).toList = List.replicate (2 * depth) ' ' := String.toList_ofList

theorem margin_add (a b : Nat) : margin a ++ margin b = margin (a + b) := by
  unfold margin
  rw [← String.ofList_append, List.replicate_append_replicate, Nat.mul_add]

theorem newline_not_mem_margin (depth : Nat) : '\n' ∉ List.replicate (2 * depth) ' ' :=
  fun h => absurd (List.eq_of_mem_replicate h) (by decide)

/-- What stands before a text stands on its first line. -/
theorem splitOn_append_left {c : Char} {front : List Char} (h : c ∉ front) (l : List Char) :
    (front ++ l).splitOn c = (l.splitOn c).modifyHead (front ++ ·) := by
  induction front with
  | nil => rw [List.nil_append]; cases l.splitOn c <;> rfl
  | cons d front ih =>
    rw [List.mem_cons, not_or] at h
    rw [List.cons_append, List.splitOn_cons_eq_if_modifyHead, if_neg (by simpa using Ne.symm h.1), ih h.2,
      List.modifyHead_modifyHead]
    rfl

/-- Spaces put behind every newline of a text stand before every line of it but the first. -/
theorem splitOn_flatMap_indent {space : List Char} (h : '\n' ∉ space) {l first : List Char} {rest : List (List Char)}
    (hl : l.splitOn '\n' = first :: rest) :
    (l.flatMap fun c => if c = '\n' then '\n' :: space else [c]).splitOn '\n' = first :: rest.map (space ++ ·) := by
  induction l generalizing first rest with
  | nil => cases hl; rfl
  | cons c l ih =>
    obtain ⟨next, others, hnext⟩ := List.exists_cons_of_ne_nil (List.splitOn_ne_nil '\n' l)
    rw [List.splitOn_cons_eq_if_modifyHead, hnext] at hl
    rw [List.flatMap_cons]
    by_cases hc : c = '\n'
    · -- what was the first line of the rest is now a later one, with the spaces before it
      rw [if_pos (beq_iff_eq.mpr hc), List.cons.injEq] at hl
      rw [if_pos hc, List.cons_append, List.splitOn_cons_eq_if_modifyHead, if_pos (beq_self_eq_true _),
        splitOn_append_left h, ih hnext, ← hl.1, ← hl.2]
      rfl
    · rw [if_neg (by simpa using hc), List.modifyHead_cons, List.cons.injEq] at hl
      rw [if_neg hc, List.singleton_append, List.splitOn_cons_eq_if_modifyHead, if_neg (by simpa using hc), ih hnext,
        List.modifyHead_cons, hl.1, hl.2]

/-- A text that is moved to the right, its first line included, has all its lines moved. -/
theorem split_indent (s : String) (depth : Nat) :
    split '\n' (margin depth ++ indent s depth) = (split '\n' s).map (margin depth ++ ·) := by
  have htext : (margin depth ++ indent s depth).toList = List.replicate (2 * depth) ' ' ++
      s.toList.flatMap fun c => if c = '\n' then '\n' :: List.replicate (2 * depth) ' ' else [c] := by
    rw [String.toList_append, toList_margin, indent, String.toList_ofList]
  obtain ⟨first, rest, hs⟩ := List.exists_cons_of_ne_nil (List.splitOn_ne_nil '\n' s.toList)
  have hspace := newline_not_mem_margin depth
  rw [split_eq, split_eq, htext, splitOn_append_left hspace, splitOn_flatMap_indent hspace hs, hs, List.modifyHead_cons,
    ← List.map_cons, List.map_map, List.map_map]
  exact List.map_congr_left fun l _ => String.ofList_append

/-- The number of spaces that a text starts with. -/
def leadingSpaces (s : String) : Nat := (s.toList.takeWhile (· == ' ')).length

theorem leadingSpaces_append {s : String} (hs : s ≠ "") (h : leadingSpaces s = 0) (t : String) :
    leadingSpaces (s ++ t) = 0 := by
  unfold leadingSpaces at h ⊢
  rw [String.toList_append]
  cases hl : s.toList with
  | nil => exact absurd (String.toList_eq_nil_iff.mp hl) hs
  | cons c l =>
    rw [hl, List.takeWhile_cons] at h
    rw [List.cons_append, List.takeWhile_cons]
    split at h
    · cases h
    · rename_i hc
      rw [if_neg hc]
      rfl

theorem leadingSpaces_margin (depth : Nat) {s : String} (h : leadingSpaces s = 0) :
    leadingSpaces (margin depth ++ s) = 2 * depth := by
  unfold leadingSpaces at h ⊢
  rw [String.toList_append, toList_margin, List.takeWhile_append_of_pos fun c hc => by
    rw [List.eq_of_mem_replicate hc]; rfl, List.length_append, h, List.length_replicate, Nat.add_zero]

/-! ## Numbers -/

theorem oneLine_nat (n : Nat) : OneLine (toString n) := by
  intro h
  rw [Nat.toString_eq_repr, Nat.toList_repr] at h
  exact absurd (Nat.isDigit_of_mem_toDigits (by decide) (by decide) h) (by decide)

theorem oneLine_int (n : Int) : OneLine (toString n) := by
  cases n with
  | ofNat n => exact oneLine_nat n
  | negSucc n => exact (oneLine_append "-" _).mpr ⟨by decide, oneLine_nat (n + 1)⟩

theorem oneLine_zeros (count : Nat) : OneLine (zeros count) := by
  intro h
  rw [zeros, String.toList_ofList] at h
  exact absurd (List.eq_of_mem_replicate h) (by decide)

theorem OneLine.cut {s : String} (h : OneLine s) (n : Nat) : OneLine (s.take n).toString ∧ OneLine (s.drop n).toString := by
  have hcut := (s.toSlice.startPos.nextn n).splits.eq_append
  rw [String.copy_toSlice] at hcut
  rw [hcut] at h
  exact (oneLine_append _ _).mp h

theorem oneLine_layoutDigits (layout : Layout) (digits : Nat) (exponent : Int) :
    OneLine (layoutDigits layout digits exponent) := by
  have hdigits := oneLine_nat digits
  have hdot : OneLine "." := by decide
  have hzero : OneLine "0." := by decide
  have he : OneLine "e" := by decide
  unfold layoutDigits
  dsimp only
  split
  · split
    · simp only [oneLine_append, hdigits, oneLine_zeros, and_self]
    · split
      · simp only [oneLine_append, hdigits.cut, hdot, and_self]
      · simp only [oneLine_append, hzero, oneLine_zeros, hdigits, and_self]
  · have hsign : ∀ power : Int, OneLine (if power < 0 then "-" else "+") := fun power => by split <;> decide
    have hmantissa : ∀ single : Prop, [Decidable single] → OneLine
        (if single then toString digits
        else ((toString digits).take 1).toString ++ "." ++ ((toString digits).drop 1).toString) := fun single _ => by
      split
      · exact hdigits
      · simp only [oneLine_append, hdigits.cut, hdot, and_self]
    simp only [oneLine_append, hmantissa, he, hsign, oneLine_nat, and_self]

theorem oneLine_number (x : Binary) : OneLine x.text := by
  cases x with
  | nan | negativeZero => decide
  | infinite negative => cases negative <;> decide
  | finite x =>
    rw [Binary.text]
    split
    · decide
    · rw [oneLine_append]
      refine ⟨?_, oneLine_layoutDigits _ _ _⟩
      split <;> decide

end Spmd.Text
