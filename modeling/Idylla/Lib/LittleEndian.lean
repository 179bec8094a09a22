import Idylla.Lib.Memory
import Mathlib.Algebra.Group.Nat.Defs

namespace Idylla.Lib

/-!
# Numbers in memory

A number of some width lies in memory with its lowest byte first.
-/

namespace Memory

/-- The number in so many bytes from an address on. -/
def number (bytes : Memory UInt8) (first : Nat) : Nat → Nat
  | 0 => 0
  | width + 1 =>
    (bytes first).toNat + 256 * number bytes (first + 1) width

/-- The bytes of a number, as many of them as are wanted. -/
def digits (value : Nat) : Memory UInt8 :=
  fun index => UInt8.ofNat (value / 256 ^ index)

theorem number_congr {bytes other : Memory UInt8} {first second width : Nat}
    (same : ∀ index < width, bytes (first + index) = other (second + index)) :
    number bytes first width = number other second width := by
  induction width generalizing first second with
  | zero =>
    rfl
  | succ width ih =>
    have sameFirst := same 0 (Nat.succ_pos _)
    have sameRest :
        number bytes (first + 1) width = number other (second + 1) width := by
      refine ih fun index below => ?_
      have sameNext := same (index + 1) (by omega)
      rwa [show first + (index + 1) = first + 1 + index by omega,
        show second + (index + 1) = second + 1 + index by omega]
        at sameNext
    simp only [number, sameRest]
    rw [Nat.add_zero, Nat.add_zero] at sameFirst
    rw [sameFirst]

theorem number_lt (bytes : Memory UInt8) (first width : Nat) :
    number bytes first width < 256 ^ width := by
  induction width generalizing first with
  | zero =>
    exact Nat.one_pos
  | succ width ih =>
    have rest := ih (first + 1)
    have isByte := (bytes first).toNat_lt
    simp only [number]
    omega

/-- The number that has been stored, as far as it fits. -/
theorem number_copy_digits (bytes : Memory UInt8) (first width value : Nat) :
    number (bytes.copy first (digits value) 0 width) first width =
      value % 256 ^ width := by
  have isStored : ∀ width offset,
        number (fun index => digits value (offset + index)) 0 width =
          value / 256 ^ offset % 256 ^ width := by
    intro width
    induction width with
    | zero =>
      intro offset
      exact (Nat.mod_one _).symm
    | succ width ih =>
      intro offset
      have rest :
          number (fun index => digits value (offset + index)) (0 + 1) width =
            value / 256 ^ (offset + 1) % 256 ^ width := by
        rw [← ih (offset + 1)]
        refine number_congr fun index _ => ?_
        rw [show offset + (0 + 1 + index) = offset + 1 + (0 + index) by omega]
      have isFirst :
          (digits value (offset + 0)).toNat = value / 256 ^ offset % 256 :=
        UInt8.toNat_ofNat'
      simp only [number, rest, isFirst]
      rw [Nat.pow_succ 256 offset, ← Nat.div_div_eq_div_mul,
        Nat.pow_succ, Nat.mul_comm (256 ^ width) 256, Nat.mod_mul]
  have isAll := isStored width 0
  rw [Nat.pow_zero, Nat.div_one] at isAll
  rw [← isAll]
  refine number_congr fun index below => ?_
  rw [copy_inside (Nat.le_add_right _ _) (by omega),
    Nat.add_sub_cancel_left, Nat.zero_add, Nat.zero_add]

theorem number_copy_outside (bytes source : Memory UInt8)
    {first width stored count : Nat}
    (outside : first + width ≤ stored ∨ stored + count ≤ first) :
    number (bytes.copy stored source 0 count) first width =
      number bytes first width :=
  number_congr fun index below => copy_outside (by omega)

end Memory

end Idylla.Lib
