import Mathlib.Order.Bounds.Basic
import Mathlib.Order.MinMax
import Spmd.Text.Distance

/-!
# Edit distance as the length of a shortest script

A script turns one sequence into another by insertions, deletions and substitutions of single elements. The row by row
computation of `distance` gives the length of a shortest script (`distance_isLeast`), and is therefore a metric on sequences,
and on strings by way of their units (`editDistance_metric`).

The recursion from the front (`leastEdits`) stands between the two: one edit changes it by at most one, so that no script is
shorter, and unfolding it gives a script of that length. The rows of `distance` hold its values at the initial parts, read
backwards.
-/

namespace Spmd.Text

/-! ## Scripts -/

/-- One insertion, deletion or substitution of an element. -/
inductive Edit {α : Type} : List α → List α → Prop
  | insert (front back : List α) (x : α) : Edit (front ++ back) (front ++ x :: back)
  | delete (front back : List α) (x : α) : Edit (front ++ x :: back) (front ++ back)
  | substitute (front back : List α) (x y : α) : Edit (front ++ x :: back) (front ++ y :: back)

/-- So many edits, one after the other, turn one sequence into another. -/
inductive Script {α : Type} : Nat → List α → List α → Prop
  | done (a : List α) : Script 0 a a
  | edit {n : Nat} {a b c : List α} (first : Edit a b) (rest : Script n b c) : Script (n + 1) a c

section
variable {α : Type} {a b c : List α} {n m : Nat}

theorem Edit.symm (h : Edit a b) : Edit b a := by
  cases h with
  | insert front back x => exact .delete front back x
  | delete front back x => exact .insert front back x
  | substitute front back x y => exact .substitute front back y x

theorem Edit.cons (w : α) (h : Edit a b) : Edit (w :: a) (w :: b) := by
  cases h with
  | insert front back x => exact .insert (w :: front) back x
  | delete front back x => exact .delete (w :: front) back x
  | substitute front back x y => exact .substitute (w :: front) back x y

theorem Edit.reverse (h : Edit a b) : Edit a.reverse b.reverse := by
  have hmiddle : ∀ (front back : List α) (x : α), (front ++ x :: back).reverse = back.reverse ++ x :: front.reverse := by
    simp
  cases h with
  | insert front back x =>
    rw [hmiddle, List.reverse_append]
    exact .insert back.reverse front.reverse x
  | delete front back x =>
    rw [hmiddle, List.reverse_append]
    exact .delete back.reverse front.reverse x
  | substitute front back x y =>
    rw [hmiddle, hmiddle]
    exact .substitute back.reverse front.reverse x y

namespace Script

theorem cons (w : α) (h : Script n a b) : Script n (w :: a) (w :: b) := by
  induction h with
  | done a => exact .done (w :: a)
  | edit first _ ih => exact .edit (first.cons w) ih

theorem reverse (h : Script n a b) : Script n a.reverse b.reverse := by
  induction h with
  | done a => exact .done a.reverse
  | edit first _ ih => exact .edit first.reverse ih

theorem trans (h : Script n a b) (h' : Script m b c) : Script (n + m) a c := by
  induction h with
  | done a =>
    rw [Nat.zero_add]
    exact h'
  | edit first _ ih =>
    rw [Nat.add_right_comm]
    exact .edit first (ih h')

theorem symm (h : Script n a b) : Script n b a := by
  induction h with
  | done a => exact .done a
  | edit first _ ih => exact ih.trans (.edit first.symm (.done _))

theorem eq_of_zero (h : Script 0 a b) : a = b := by
  cases h
  rfl

theorem min (h : Script n a b) (h' : Script m a b) : Script (min n m) a b := by
  obtain hmin | hmin := min_choice n m
  · rw [hmin]
    exact h
  · rw [hmin]
    exact h'

/-! ## Scripts that start at the front -/

theorem insert_front (y : α) (h : Script n a b) : Script (n + 1) a (y :: b) := .edit (.insert [] a y) (h.cons y)

theorem delete_front (x : α) (h : Script n a b) : Script (n + 1) (x :: a) b := .edit (.delete [] a x) h

theorem substitute_front (x y : α) (h : Script n a b) : Script (n + 1) (x :: a) (y :: b) :=
  .edit (.substitute [] a x y) (h.cons y)

end Script

end

/-! ## The recursion from the front -/

section
variable {α : Type} [DecidableEq α]

/-- The least number of edits, by what becomes of the two first elements. -/
def leastEdits : List α → List α → Nat
  | [], b => b.length
  | a, [] => a.length
  | x :: a, y :: b =>
    min (min (leastEdits a (y :: b) + 1) (leastEdits (x :: a) b + 1)) (leastEdits a b + if x = y then 0 else 1)
termination_by a b => a.length + b.length

variable {a b : List α}

theorem leastEdits_nil (b : List α) : leastEdits [] b = b.length := by
  rw [leastEdits]

theorem leastEdits_nil_right (a : List α) : leastEdits a [] = a.length := by
  cases a with
  | nil => rw [leastEdits]
  | cons x a => rw [leastEdits]; exact List.cons_ne_nil x a

theorem leastEdits_cons_cons (x y : α) (a b : List α) :
    leastEdits (x :: a) (y :: b) =
      min (min (leastEdits a (y :: b) + 1) (leastEdits (x :: a) b + 1)) (leastEdits a b + if x = y then 0 else 1) := by
  rw [leastEdits]

theorem leastEdits_self (a : List α) : leastEdits a a = 0 := by
  induction a with
  | nil => exact leastEdits_nil []
  | cons x a ih => rw [leastEdits_cons_cons, ih, if_pos rfl, Nat.add_zero, Nat.min_zero]

/-- The recursion counts the edits of a script. -/
theorem script_leastEdits (a b : List α) : Script (leastEdits a b) a b := by
  induction a generalizing b with
  | nil =>
    rw [leastEdits_nil]
    induction b with
    | nil => exact .done []
    | cons y b ih => exact ih.insert_front y
  | cons x a iha =>
    induction b with
    | nil =>
      have h := (iha []).delete_front x
      rw [leastEdits_nil_right] at h ⊢
      exact h
    | cons y b ihb =>
      have haligned : Script (leastEdits a b + if x = y then 0 else 1) (x :: a) (y :: b) := by
        split
        · subst_vars
          exact (iha b).cons y
        · exact (iha b).substitute_front x y
      rw [leastEdits_cons_cons]
      exact (((iha (y :: b)).delete_front x).min (ihb.insert_front y)).min haligned

/-! ## One edit more or less -/

theorem leastEdits_cons_le (x : α) (a c : List α) : leastEdits (x :: a) c ≤ leastEdits a c + 1 := by
  cases c with
  | nil => rw [leastEdits_nil_right, leastEdits_nil_right, List.length_cons]
  | cons z c =>
    rw [leastEdits_cons_cons]
    omega

theorem leastEdits_le_right (a : List α) (z : α) (c : List α) : leastEdits a (z :: c) ≤ leastEdits a c + 1 := by
  cases a with
  | nil => rw [leastEdits_nil, leastEdits_nil, List.length_cons]
  | cons x a =>
    rw [leastEdits_cons_cons]
    omega

theorem leastEdits_le_cons (x : α) (a c : List α) : leastEdits a c ≤ leastEdits (x :: a) c + 1 := by
  induction c with
  | nil =>
    rw [leastEdits_nil_right, leastEdits_nil_right, List.length_cons]
    omega
  | cons z c ih =>
    have hright := leastEdits_le_right a z c
    rw [leastEdits_cons_cons]
    omega

theorem leastEdits_cons_le_cons (x y : α) (a c : List α) : leastEdits (y :: a) c ≤ leastEdits (x :: a) c + 1 := by
  induction c with
  | nil =>
    rw [leastEdits_nil_right, leastEdits_nil_right, List.length_cons, List.length_cons]
    omega
  | cons z c ih =>
    have hdifferent : (if y = z then 0 else 1) ≤ 1 := by split <;> omega
    rw [leastEdits_cons_cons, leastEdits_cons_cons]
    omega

/-- What holds of the rest of two sequences holds behind an equal first element. -/
theorem leastEdits_cons_congr (h : ∀ c, leastEdits a c ≤ leastEdits b c + 1) (w : α) (c : List α) :
    leastEdits (w :: a) c ≤ leastEdits (w :: b) c + 1 := by
  induction c with
  | nil =>
    have hnil := h []
    simp only [leastEdits_nil_right, List.length_cons] at hnil ⊢
    omega
  | cons z c ih =>
    have hdelete := h (z :: c)
    have hkeep := h c
    rw [leastEdits_cons_cons, leastEdits_cons_cons]
    omega

theorem Edit.leastEdits_le (h : Edit a b) (c : List α) : leastEdits a c ≤ leastEdits b c + 1 := by
  -- induction on what stands before the edited place, for all targets at once
  have hfront : ∀ {a b : List α}, (∀ c, leastEdits a c ≤ leastEdits b c + 1) →
      ∀ (front c : List α), leastEdits (front ++ a) c ≤ leastEdits (front ++ b) c + 1 := by
    intro a b h front
    induction front with
    | nil => exact h
    | cons w front ih => exact leastEdits_cons_congr ih w
  cases h with
  | insert front back x => exact hfront (leastEdits_le_cons x back) front c
  | delete front back x => exact hfront (leastEdits_cons_le x back) front c
  | substitute front back x y => exact hfront (leastEdits_cons_le_cons y x back) front c

theorem Script.leastEdits_le {n : Nat} (h : Script n a b) : leastEdits a b ≤ n := by
  induction h with
  | done a => exact (leastEdits_self a).le
  | edit first _ ih => exact (first.leastEdits_le _).trans (Nat.add_le_add_right ih 1)

theorem leastEdits_isLeast (a b : List α) : IsLeast {n | Script n a b} (leastEdits a b) :=
  ⟨script_leastEdits a b, fun _ h => h.leastEdits_le⟩

/-! ## Rows -/

/-- The row of a sequence against the initial parts of another, given what is passed of this and what is ahead. The sequence
and the part that is passed are read backwards. -/
def prefixRow (a : List α) : List α → List α → List Nat
  | passed, [] => [leastEdits a passed]
  | passed, y :: ahead => leastEdits a passed :: prefixRow a (y :: passed) ahead

theorem prefixRow_eq_cons (a passed ahead : List α) :
    prefixRow a passed ahead = leastEdits a passed :: (prefixRow a passed ahead).tail := by
  cases ahead <;> rfl

theorem prefixRow_nil (passed ahead : List α) :
    prefixRow [] passed ahead = List.range' passed.length (ahead.length + 1) := by
  induction ahead generalizing passed with
  | nil => rw [prefixRow, leastEdits_nil]; rfl
  | cons y ahead ih => rw [prefixRow, leastEdits_nil, ih]; rfl

theorem prefixRow_getLastD (a passed ahead : List α) :
    (prefixRow a passed ahead).getLastD 0 = leastEdits a (ahead.reverse ++ passed) := by
  induction ahead generalizing passed with
  | nil => rfl
  | cons y ahead ih =>
    rw [prefixRow, prefixRow_eq_cons, List.getLastD_cons, List.getLastD_cons, List.reverse_cons, List.append_assoc,
      List.singleton_append, ← ih, prefixRow_eq_cons a (y :: passed) ahead, List.getLastD_cons]
    rfl

theorem distanceRow_prefixRow (x : α) (a passed ahead : List α) :
    distanceRow x ahead (prefixRow a passed ahead) (leastEdits (x :: a) passed) =
      (prefixRow (x :: a) passed ahead).tail := by
  induction ahead generalizing passed with
  | nil => rfl
  | cons y ahead ih =>
    -- the two entries of the row before and the one to the left are the three ways of the recursion
    rw [prefixRow, prefixRow, List.tail_cons, prefixRow_eq_cons a (y :: passed), distanceRow,
      ← leastEdits_cons_cons, ← prefixRow_eq_cons, ih, ← prefixRow_eq_cons]

theorem nextDistances_prefixRow (a b : List α) (x : α) :
    nextDistances b (prefixRow a [] b) x = prefixRow (x :: a) [] b := by
  have hfirst : (prefixRow a [] b).headD 0 + 1 = leastEdits (x :: a) [] := by
    rw [prefixRow_eq_cons, List.headD_cons, leastEdits_nil_right, leastEdits_nil_right, List.length_cons]
  rw [nextDistances, hfirst, distanceRow_prefixRow]
  exact (prefixRow_eq_cons _ _ _).symm

theorem foldl_nextDistances (a passed b : List α) :
    a.foldl (nextDistances b) (prefixRow passed [] b) = prefixRow (a.reverse ++ passed) [] b := by
  induction a generalizing passed with
  | nil => rfl
  | cons x a ih =>
    rw [List.foldl_cons, nextDistances_prefixRow, ih, List.reverse_cons, List.append_assoc, List.singleton_append]

theorem distance_eq_leastEdits (a b : List α) : distance a b = leastEdits a.reverse b.reverse := by
  have hstart : List.range (b.length + 1) = prefixRow [] [] b := by
    rw [prefixRow_nil, List.range_eq_range', List.length_nil]
  rw [distance, hstart, foldl_nextDistances, prefixRow_getLastD, List.append_nil, List.append_nil]

/-! ## The distance of sequences -/

/-- The distance is the length of a shortest script. -/
theorem distance_isLeast (a b : List α) : IsLeast {n | Script n a b} (distance a b) := by
  rw [distance_eq_leastEdits]
  obtain ⟨hscript, hleast⟩ := leastEdits_isLeast a.reverse b.reverse
  refine ⟨?_, fun n h => hleast h.reverse⟩
  have h := hscript.reverse
  rwa [List.reverse_reverse, List.reverse_reverse] at h

theorem distance_eq_zero : distance a b = 0 ↔ a = b := by
  constructor
  · intro h
    have hscript := (distance_isLeast a b).1
    rw [h] at hscript
    exact hscript.eq_of_zero
  · rintro rfl
    exact Nat.le_zero.mp ((distance_isLeast a a).2 (.done a))

theorem distance_comm (a b : List α) : distance a b = distance b a :=
  le_antisymm ((distance_isLeast a b).2 (distance_isLeast b a).1.symm) ((distance_isLeast b a).2 (distance_isLeast a b).1.symm)

theorem distance_triangle (a b c : List α) : distance a c ≤ distance a b + distance b c :=
  (distance_isLeast a c).2 ((distance_isLeast a b).1.trans (distance_isLeast b c).1)

end

/-! ## Units of strings -/

/-- The units of one character. -/
def charUnits (c : Char) : List Nat :=
  if c.toNat < 0x10000 then [c.toNat] else [0xD800 + (c.toNat - 0x10000) / 0x400, 0xDC00 + (c.toNat - 0x10000) % 0x400]

theorem units_eq (s : String) : units s = s.toList.flatMap charUnits := rfl

/-- No character stands for one half of a pair of units, so that the units say where a character ends. -/
theorem charUnits_append_inj {c d : Char} {r r' : List Nat} (h : charUnits c ++ r = charUnits d ++ r') : c = d ∧ r = r' := by
  have hc : c.toNat < 0xD800 ∨ 0xDFFF < c.toNat ∧ c.toNat < 0x110000 := c.valid
  have hd : d.toNat < 0xD800 ∨ 0xDFFF < d.toNat ∧ d.toNat < 0x110000 := d.valid
  have hchar : c.toNat = d.toNat → c = d := fun h => Char.toNat_inj.mp h
  unfold charUnits at h
  split at h <;> split at h <;> simp only [List.cons_append, List.nil_append, List.cons.injEq] at h
  · exact ⟨hchar h.1, h.2⟩
  · omega
  · omega
  · exact ⟨hchar (by omega), h.2.2⟩

theorem charUnits_ne_nil (c : Char) : charUnits c ≠ [] := by
  unfold charUnits
  split <;> exact List.cons_ne_nil _ _

theorem units_inj {s t : String} : units s = units t ↔ s = t := by
  refine ⟨fun h => ?_, congrArg units⟩
  have hlist : ∀ cs ds : List Char, cs.flatMap charUnits = ds.flatMap charUnits → cs = ds := by
    intro cs
    induction cs with
    | nil =>
      intro ds h
      cases ds with
      | nil => rfl
      | cons d ds => exact absurd (List.append_eq_nil_iff.mp h.symm).1 (charUnits_ne_nil d)
    | cons c cs ih =>
      intro ds h
      cases ds with
      | nil => exact absurd (List.append_eq_nil_iff.mp h).1 (charUnits_ne_nil c)
      | cons d ds =>
        obtain ⟨rfl, hrest⟩ := charUnits_append_inj h
        rw [ih ds hrest]
  rw [units_eq, units_eq] at h
  exact String.toList_inj.mp (hlist _ _ h)

/-! ## The distance of strings -/

/-- The edit distance is the least number of insertions, deletions and substitutions of single units that turn one string into
another. It is zero only for equal strings, the same in both directions, and no detour is shorter. -/
theorem editDistance_metric :
    (∀ (α : Type) [DecidableEq α] (a b c : List α),
      IsLeast {n | Script n a b} (distance a b) ∧ (distance a b = 0 ↔ a = b) ∧ distance a b = distance b a ∧
        distance a c ≤ distance a b + distance b c) ∧
    ∀ s t u : String,
      IsLeast {n | Script n (units s) (units t)} (editDistance s t) ∧ (editDistance s t = 0 ↔ s = t) ∧
        editDistance s t = editDistance t s ∧ editDistance s u ≤ editDistance s t + editDistance t u :=
  ⟨fun _ _ a b c => ⟨distance_isLeast a b, distance_eq_zero, distance_comm a b, distance_triangle a b c⟩,
    fun _ _ _ => ⟨distance_isLeast _ _, distance_eq_zero.trans units_inj, distance_comm _ _, distance_triangle _ _ _⟩⟩

end Spmd.Text
