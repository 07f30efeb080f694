import Spmd.Proofs.Constant.Folding

/-!
# Words

A machine keeps an integer of a kind as a word of the kind's bits, in two's complement, and its operators work on words.
Folding an operator on integers gives the integer of the word that the machine gives (`Kind.word_of_onInts`).
-/

namespace Spmd

namespace Kind

variable {k : Kind} {a b n : Int}

/-! ## Integers as words -/

def word (k : Kind) (n : Int) : BitVec k.bits := BitVec.ofInt k.bits n

def number (k : Kind) (w : BitVec k.bits) : Int := if k.isUnsigned then w.toNat else w.toInt

theorem number_word (k : Kind) (n : Int) : k.number (k.word n) = k.wrap n := by
  unfold number word wrap
  split
  · have hpos : (0 : Int) < (2 ^ k.bits : Nat) := by exact_mod_cast Nat.two_pow_pos k.bits
    have hmod := Int.emod_nonneg n (Int.ne_of_gt hpos)
    rw [BitVec.toNat_ofInt, Int.toNat_of_nonneg hmod]
    rfl
  · exact BitVec.toInt_ofInt n

theorem word_number (w : BitVec k.bits) : k.word (k.number w) = w := by
  unfold number word
  split
  · rw [BitVec.ofInt_natCast, BitVec.ofNat_toNat, BitVec.setWidth_eq]
  · exact BitVec.ofInt_toInt

theorem wrap_of_holds (h : k.holds n = true) : k.wrap n = n := by
  simp only [holds, Bool.and_eq_true, decide_eq_true_eq] at h
  cases k <;> simp [wrap, least, greatest, span, bits, isUnsigned, Int.bmod_def] at h ⊢ <;> omega

theorem wrap_wrap (k : Kind) (n : Int) : k.wrap (k.wrap n) = k.wrap n := wrap_of_holds (holds_wrap k n)

theorem holds_number (w : BitVec k.bits) : k.holds (k.number w) = true := by
  have h := holds_wrap k (k.number w)
  rw [← number_word, word_number] at h
  exact h

theorem word_toNat (hk : k.isUnsigned = true) (hn : k.holds n = true) : ((k.word n).toNat : Int) = n := by
  have h := number_word k n
  rw [wrap_of_holds hn, number, if_pos hk] at h
  exact h

theorem word_toInt (hk : k.isUnsigned = false) (hn : k.holds n = true) : (k.word n).toInt = n := by
  have h := number_word k n
  rw [wrap_of_holds hn, number, hk, if_neg Bool.false_ne_true] at h
  exact h

theorem word_eq_zero (hn : k.holds n = true) : k.word n = 0 ↔ n = 0 := by
  constructor
  · intro h
    have hz : k.number (k.word 0) = 0 := by
      rw [number_word, wrap]
      simp
    rw [← wrap_of_holds hn, ← number_word, h]
    exact hz
  · intro h
    rw [h]
    exact BitVec.ofInt_ofNat k.bits 0

/-! ## Operators on words -/

/-- How far to shift by a word: not beyond the bits of the kind. -/
def amount? (k : Kind) (w : BitVec k.bits) : Option Nat :=
  if 0 ≤ k.number w ∧ k.number w < k.bits then some (k.number w).toNat else none

/-- Arithmetic wraps, division truncates toward zero, and a right shift keeps the sign of a signed kind. There is no
quotient and no remainder by zero. -/
def onWords (k : Kind) (op : ArithOp) (a b : BitVec k.bits) : Option (BitVec k.bits) :=
  match op with
  | .add => some (a + b)
  | .sub => some (a - b)
  | .mul => some (a * b)
  | .div => if b = 0 then none else some (if k.isUnsigned then a / b else a.sdiv b)
  | .mod => if b = 0 then none else some (if k.isUnsigned then a % b else a.srem b)
  | .and => some (a &&& b)
  | .or => some (a ||| b)
  | .xor => some (a ^^^ b)
  | .shl => (k.amount? b).map fun n => a <<< n
  | .shr => (k.amount? b).map fun n => if k.isUnsigned then a >>> n else a.sshiftRight n

def compareWords (k : Kind) (op : CompareOp) (a b : BitVec k.bits) : Bool :=
  match op with
  | .lt => if k.isUnsigned then a.ult b else a.slt b
  | .gt => if k.isUnsigned then b.ult a else b.slt a
  | .le => if k.isUnsigned then a.ule b else a.sle b
  | .ge => if k.isUnsigned then b.ule a else b.sle a
  | .eq => a == b
  | .ne => a != b

/-! ## Folding is arithmetic on words -/

section
variable (ha : k.holds a = true) (hb : k.holds b = true)
include ha hb

theorem word_tdiv :
    k.word (a.tdiv b) = if k.isUnsigned then k.word a / k.word b else (k.word a).sdiv (k.word b) := by
  cases hk : k.isUnsigned with
  | true =>
    have h : a.tdiv b = ((k.word a / k.word b).toNat : Int) := by
      rw [BitVec.toNat_udiv, Int.ofNat_tdiv, word_toNat hk ha, word_toNat hk hb]
    rw [h, word, BitVec.ofInt_natCast, BitVec.ofNat_toNat, BitVec.setWidth_eq, if_pos rfl]
  | false =>
    rw [if_neg Bool.false_ne_true]
    apply BitVec.eq_of_toInt_eq
    rw [BitVec.toInt_sdiv, word_toInt hk ha, word_toInt hk hb]
    exact BitVec.toInt_ofInt _

theorem word_tmod :
    k.word (a.tmod b) = if k.isUnsigned then k.word a % k.word b else (k.word a).srem (k.word b) := by
  cases hk : k.isUnsigned with
  | true =>
    have h : a.tmod b = ((k.word a % k.word b).toNat : Int) := by
      rw [BitVec.toNat_umod, Int.ofNat_tmod, word_toNat hk ha, word_toNat hk hb]
    rw [h, word, BitVec.ofInt_natCast, BitVec.ofNat_toNat, BitVec.setWidth_eq, if_pos rfl]
  | false =>
    have h : a.tmod b = ((k.word a).srem (k.word b)).toInt := by
      rw [BitVec.toInt_srem, word_toInt hk ha, word_toInt hk hb]
    rw [h, word, BitVec.ofInt_toInt, if_neg Bool.false_ne_true]

omit hb in
theorem word_shiftRight (n : Nat) :
    k.word (a / (Nat.pow 2 n : Nat)) = if k.isUnsigned then k.word a >>> n else (k.word a).sshiftRight n := by
  cases hk : k.isUnsigned with
  | true =>
    have h : a / (Nat.pow 2 n : Nat) = ((k.word a >>> n).toNat : Int) := by
      rw [BitVec.toNat_ushiftRight, Nat.shiftRight_eq_div_pow, Int.natCast_ediv, word_toNat hk ha]
      rfl
    rw [h, word, BitVec.ofInt_natCast, BitVec.ofNat_toNat, BitVec.setWidth_eq, if_pos rfl]
  | false =>
    have h : a / (Nat.pow 2 n : Nat) = ((k.word a).sshiftRight n).toInt := by
      rw [BitVec.toInt_sshiftRight, Int.shiftRight_eq_div_pow, word_toInt hk ha]
      rfl
    rw [h, word, BitVec.ofInt_toInt, if_neg Bool.false_ne_true]

omit ha hb in
theorem word_shiftLeft (n : Nat) : k.word (a * (Nat.pow 2 n : Nat)) = k.word a <<< n := by
  have h : k.word (Nat.pow 2 n : Nat) = BitVec.twoPow k.bits n := by
    rw [word, BitVec.ofInt_natCast, ← BitVec.toNat_inj, BitVec.toNat_twoPow, BitVec.toNat_ofNat]
    rfl
  rw [BitVec.shiftLeft_eq_mul_twoPow, ← h]
  exact BitVec.ofInt_mul _ _

omit ha in
theorem amount_eq : k.amount? (k.word b) = if 0 ≤ b ∧ b < k.bits then some b.toNat else none := by
  unfold amount?
  rw [number_word, wrap_of_holds hb]

/-- What folding gives for two integers of a kind is, in the bits of the kind, what the machine gives for their words. -/
theorem word_of_onInts {op : ArithOp} {x : Int} (h : op.onInts k a b = .value x) :
    k.onWords op (k.word a) (k.word b) = some (k.word x) := by
  -- taking low bits commutes with the ring operations; the others need operands in the range of the kind
  cases op with
  | add => cases h; exact congrArg some (BitVec.ofInt_add a b).symm
  | sub =>
    cases h
    simp only [onWords, word, Int.sub_eq_add_neg, BitVec.ofInt_add, BitVec.ofInt_neg, BitVec.sub_eq_add_neg]
  | mul => cases h; exact congrArg some (BitVec.ofInt_mul a b).symm
  | div =>
    simp only [ArithOp.onInts] at h
    split at h
    · cases h
    · rename_i hz
      cases h
      rw [word_tdiv ha hb, onWords, if_neg (mt (word_eq_zero hb).mp hz)]
  | mod =>
    simp only [ArithOp.onInts] at h
    split at h
    · cases h
    · rename_i hz
      cases h
      rw [word_tmod ha hb, onWords, if_neg (mt (word_eq_zero hb).mp hz)]
  | and => cases h; exact congrArg some BitVec.ofInt_toInt.symm
  | or => cases h; exact congrArg some BitVec.ofInt_toInt.symm
  | xor => cases h; exact congrArg some BitVec.ofInt_toInt.symm
  | shl =>
    simp only [ArithOp.onInts, Bool.and_eq_true, decide_eq_true_eq] at h
    split at h
    · rename_i hfits
      cases h
      rw [onWords, amount_eq hb, if_pos hfits]
      exact congrArg some (word_shiftLeft _).symm
    · cases h
  | shr =>
    simp only [ArithOp.onInts, Bool.and_eq_true, decide_eq_true_eq] at h
    split at h
    · rename_i hfits
      cases h
      rw [onWords, amount_eq hb, if_pos hfits]
      exact congrArg some (word_shiftRight ha _).symm
    · cases h

theorem word_inj : k.word a = k.word b ↔ a = b := by
  constructor
  · intro h
    rw [← wrap_of_holds ha, ← wrap_of_holds hb, ← number_word, ← number_word, h]
  · intro h
    rw [h]

theorem compareWords_eq (op : CompareOp) : k.compareWords op (k.word a) (k.word b) = op.onInts a b := by
  have heq : (k.word a == k.word b) = decide (a = b) := by
    rw [Bool.eq_iff_iff, beq_iff_eq, decide_eq_true_iff]
    exact word_inj ha hb
  cases hk : k.isUnsigned with
  | true =>
    have hna := word_toNat hk ha
    have hnb := word_toNat hk hb
    cases op <;> simp only [compareWords, CompareOp.onInts, hk, if_true, BitVec.ult, BitVec.ule]
    · exact decide_eq_decide.mpr (by omega)
    · exact decide_eq_decide.mpr (by omega)
    · exact decide_eq_decide.mpr (by omega)
    · exact decide_eq_decide.mpr (by omega)
    · exact heq
    · rw [bne, heq, ← decide_not]
  | false =>
    have hna := word_toInt hk ha
    have hnb := word_toInt hk hb
    cases op <;> simp only [compareWords, CompareOp.onInts, hk, Bool.false_eq_true, if_false, BitVec.slt, BitVec.sle]
    · rw [hna, hnb]
    · rw [hna, hnb]
    · rw [hna, hnb]
    · rw [hna, hnb]
    · exact heq
    · rw [bne, heq, ← decide_not]

end

end Kind

end Spmd
