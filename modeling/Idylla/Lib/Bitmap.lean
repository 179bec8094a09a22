import Idylla.Lib.Counting
import Idylla.Lib.Memory

namespace Idylla.Lib

/-!
# Bitmaps in words

A memory of words of `w` bits read as a sequence of bits, the lowest bit of a
word first.  An update of one bit says what it makes of every bit, and how many
of the first ones are clear.
-/

/-- The words of a bitmap. -/
abbrev Bitmap (w : Nat) := Memory (BitVec w)

namespace Bitmap

variable {w : Nat}

/-- One bit. -/
def bit (words : Bitmap w) (index : Nat) : Bool :=
  (words (index / w)).getLsbD (index % w)

/-- One bit set. -/
def setBit (words : Bitmap w) (index : Nat) : Bitmap w :=
  Memory.set words (index / w)
    (words (index / w) ||| BitVec.twoPow w (index % w))

/-- One bit cleared. -/
def clearBit (words : Bitmap w) (index : Nat) : Bitmap w :=
  Memory.set words (index / w)
    (words (index / w) &&& ~~~ BitVec.twoPow w (index % w))

/-- How many of the first bits are clear. -/
def clearBits (words : Bitmap w) (bound : Nat) : Nat :=
  total (fun index => if words.bit index then 0 else 1) bound

variable {words : Bitmap w} {index other bound : Nat}

/-- The lowest zero of a word, if it has any. -/
def firstZero (word : BitVec w) : Nat :=
  ((List.range w).find? fun place => !word.getLsbD place).getD 0

theorem firstZero_spec {word : BitVec w} (hasZero : word ≠ BitVec.allOnes w) :
    firstZero word < w ∧ word.getLsbD (firstZero word) = false ∧
      ∀ place, place < firstZero word → word.getLsbD place = true := by
  unfold firstZero
  cases found : (List.range w).find? fun place => !word.getLsbD place with
  | none =>
    refine absurd (BitVec.eq_of_getLsbD_eq fun place below => ?_) hasZero
    have isSet := List.find?_eq_none.mp found place (List.mem_range.mpr below)
    rw [BitVec.getLsbD_allOnes, decide_eq_true below]
    simpa using isSet
  | some place =>
    obtain ⟨isZero, below, earlier⟩ := List.find?_range_eq_some.mp found
    refine ⟨List.mem_range.mp below, by simpa using isZero, ?_⟩
    intro other before
    simpa using earlier other before

theorem bit_of_allOnes (positive : 0 < w)
    (ones : words (index / w) = BitVec.allOnes w) : words.bit index = true := by
  unfold bit
  rw [ones, BitVec.getLsbD_allOnes]
  exact decide_eq_true (Nat.mod_lt _ positive)

theorem mod_ne_of_div_eq (different : other ≠ index)
    (sameWord : other / w = index / w) : other % w ≠ index % w := by
  intro samePlace
  apply different
  rw [← Nat.div_add_mod other w, ← Nat.div_add_mod index w, sameWord, samePlace]

theorem bit_setBit (positive : 0 < w) (words : Bitmap w) (index other : Nat) :
    (words.setBit index).bit other =
      if other = index then true else words.bit other := by
  unfold bit setBit
  by_cases sameWord : other / w = index / w
  · rw [sameWord, Memory.set_same, BitVec.getLsbD_or, BitVec.getLsbD_twoPow]
    split
    next same =>
      subst same
      simp [Nat.mod_lt other positive]
    next different => simp [(mod_ne_of_div_eq different sameWord).symm]
  · rw [Memory.set_of_ne sameWord, if_neg]
    rintro rfl
    exact sameWord rfl

theorem bit_clearBit (positive : 0 < w) (words : Bitmap w) (index other : Nat) :
    (words.clearBit index).bit other =
      if other = index then false else words.bit other := by
  unfold bit clearBit
  by_cases sameWord : other / w = index / w
  · rw [sameWord, Memory.set_same, BitVec.getLsbD_and, BitVec.getLsbD_not,
      BitVec.getLsbD_twoPow]
    split
    next same =>
      subst same
      simp [Nat.mod_lt other positive]
    next different =>
      simp [(mod_ne_of_div_eq different sameWord).symm,
        Nat.mod_lt other positive]
  · rw [Memory.set_of_ne sameWord, if_neg]
    rintro rfl
    exact sameWord rfl

theorem ext_bit (positive : 0 < w) {first second : Bitmap w}
    (same : ∀ index, first.bit index = second.bit index) : first = second := by
  funext word
  refine BitVec.eq_of_getLsbD_eq fun place below => ?_
  have sameBit := same (w * word + place)
  unfold bit at sameBit
  rwa [Nat.mul_add_div positive, Nat.div_eq_of_lt below, Nat.add_zero,
    Nat.mul_add_mod, Nat.mod_eq_of_lt below] at sameBit

theorem clearBit_setBit (positive : 0 < w) (isClear : words.bit index = false) :
    (words.setBit index).clearBit index = words := by
  refine ext_bit positive fun other => ?_
  rw [bit_clearBit positive, bit_setBit positive]
  split
  next same => rw [same, isClear]
  · rfl

theorem clearBits_congr {after : Bitmap w}
    (same : ∀ index, index < bound → after.bit index = words.bit index) :
    after.clearBits bound = words.clearBits bound := by
  refine total_congr fun index inside => ?_
  rw [same index inside]

theorem clearBits_setBit (positive : 0 < w) (inside : index < bound)
    (isClear : words.bit index = false) :
    (words.setBit index).clearBits bound + 1 = words.clearBits bound := by
  have change :=
    @total_change (fun index => if words.bit index then 0 else 1)
      (fun other => if (words.setBit index).bit other then 0 else 1) bound
      index inside fun other different => by
        simp only [bit_setBit positive, if_neg different]
  simp only [bit_setBit positive, isClear, ↓reduceIte, Bool.false_eq_true]
    at change
  unfold clearBits
  simp only [bit_setBit positive]
  omega

theorem clearBits_clearBit (positive : 0 < w) (inside : index < bound)
    (isSet : words.bit index = true) :
    (words.clearBit index).clearBits bound = words.clearBits bound + 1 := by
  have change :=
    @total_change (fun index => if words.bit index then 0 else 1)
      (fun other => if (words.clearBit index).bit other then 0 else 1) bound
      index inside fun other different => by
        simp only [bit_clearBit positive, if_neg different]
  simp only [bit_clearBit positive, isSet, ↓reduceIte, Bool.false_eq_true]
    at change
  unfold clearBits
  simp only [bit_clearBit positive]
  omega

theorem exists_clear (counted : 0 < words.clearBits bound) :
    ∃ index, index < bound ∧ words.bit index = false := by
  refine Classical.byContradiction fun allSet => ?_
  refine Nat.ne_of_gt counted (total_eq_zero fun index inside => ?_)
  have isSet : words.bit index = true := by
    rw [← Bool.not_eq_false]
    exact fun isClear => allSet ⟨index, inside, isClear⟩
  rw [if_pos isSet]

end Bitmap

end Idylla.Lib
