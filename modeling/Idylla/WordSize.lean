namespace Idylla

/-!
# The word of the machine

The kernel is built for machines with words of four or of eight bytes.  An
`int` has 32 bits on both.
-/

/-- `sizeof(unsigned long)`, as large as a `size_t` and an address. -/
inductive WordSize where
  | four
  | eight
  deriving Repr, DecidableEq

namespace WordSize

/-- `WORD_SIZE` -/
def bytes : WordSize → Nat
  | four => 4
  | eight => 8

/-- `sizeof(unsigned long) * 8` -/
def bits (size : WordSize) : Nat := size.bytes * 8

theorem bits_eq (size : WordSize) : size.bits = 32 ∨ size.bits = 64 := by
  cases size with
  | four => exact .inl rfl
  | eight => exact .inr rfl

theorem bits_pos (size : WordSize) : 0 < size.bits := by
  rcases size.bits_eq with same | same <;> omega

/-- A count goes down by one unless it is zero already. -/
theorem toNat_pred {size : WordSize} {count : BitVec size.bits}
    (notZero : count ≠ 0) : (count - 1).toNat + 1 = count.toNat := by
  have one : (1 : BitVec size.bits).toNat = 1 := by
    cases size <;> rfl
  have positive : 1 ≤ count.toNat :=
    Nat.one_le_iff_ne_zero.mpr fun isZero =>
      notZero (BitVec.eq_of_toNat_eq isZero)
  rw [BitVec.toNat_sub_of_le (BitVec.le_def.mpr (one ▸ positive)), one]
  omega

end WordSize

end Idylla
