import Idylla.Lib.AddressSpace
import Idylla.WordSize

namespace Idylla.Klib

open Idylla.Lib

/-!
# Copying and filling memory

`memcpy` and `memset` of the kernel, which move whole words where they can.
Both return `dst`.
-/

variable {size : WordSize}

/-- `WORD_SIZE`, as a `size_t`. -/
def wordSize (size : WordSize) : BitVec size.bits :=
  BitVec.ofNat size.bits size.bytes

/-- `UNALIGNED` -/
def unaligned (address : BitVec size.bits) : Bool :=
  address &&& (wordSize size - 1) ≠ 0

/-- The variables of `memcpy`, with the memory. -/
structure CopyVars (size : WordSize) where
  memory : AddressSpace size.bits
  dbuf : BitVec size.bits
  sbuf : BitVec size.bits
  len : BitVec size.bits

namespace CopyVars

/-- `*dbuf++ = *sbuf++`, with one byte less to go. -/
def moveByte (vars : CopyVars size) : CopyVars size where
  memory := vars.memory.setByte vars.dbuf (vars.memory vars.sbuf)
  dbuf := vars.dbuf + 1
  sbuf := vars.sbuf + 1
  len := vars.len - 1

/-- `*aligned_dbuf++ = *aligned_sbuf++` -/
def moveWord (vars : CopyVars size) : CopyVars size where
  memory := vars.memory.store vars.dbuf (vars.memory.load vars.sbuf size.bytes)
  dbuf := vars.dbuf + wordSize size
  sbuf := vars.sbuf + wordSize size
  len := vars.len - wordSize size

end CopyVars

theorem toNat_sub_wordSize {len : BitVec size.bits}
    (isWord : wordSize size ≤ len) :
    (len - wordSize size).toNat + size.bytes = len.toNat := by
  have isSize : (wordSize size).toNat = size.bytes := by
    cases size <;> rfl
  have isLess := BitVec.le_def.mp isWord
  rw [BitVec.toNat_sub_of_le isWord, isSize]
  omega

/-- The last loop of `memcpy`, whose count wraps around behind its end. -/
def memcpyBytes (vars : CopyVars size) : AddressSpace size.bits :=
  if vars.len ≠ 0 then memcpyBytes vars.moveByte else vars.memory
termination_by vars.len.toNat
decreasing_by
  have next := WordSize.toNat_pred ‹vars.len ≠ 0›
  simp only [CopyVars.moveByte]
  omega

/-- The loop over whole words, with the last loop behind it. -/
def memcpyWords (vars : CopyVars size) : AddressSpace size.bits :=
  if wordSize size ≤ vars.len then memcpyWords vars.moveWord
  else memcpyBytes vars
termination_by vars.len.toNat
decreasing_by
  have next := toNat_sub_wordSize ‹wordSize size ≤ vars.len›
  have positive : 0 < size.bytes := by cases size <;> decide
  simp only [CopyVars.moveWord]
  omega

/-- `memcpy` from its first loop on, which returns when nothing is left. -/
def memcpyFrom (vars : CopyVars size) : AddressSpace size.bits :=
  if unaligned vars.sbuf then
    if vars.len ≠ 0 then memcpyFrom vars.moveByte else vars.memory
  else if wordSize size ≤ vars.len ∧ !unaligned vars.dbuf then
    memcpyWords vars
  else
    memcpyBytes vars
termination_by vars.len.toNat
decreasing_by
  have next := WordSize.toNat_pred ‹vars.len ≠ 0›
  simp only [CopyVars.moveByte]
  omega

/-- `memcpy` -/
def memcpy (memory : AddressSpace size.bits)
    (dst src len : BitVec size.bits) : AddressSpace size.bits :=
  memcpyFrom ⟨memory, dst, src, len⟩

/-- The variables of `memset`, with the memory. -/
structure FillVars (size : WordSize) where
  memory : AddressSpace size.bits
  buf : BitVec size.bits
  len : BitVec size.bits

namespace FillVars

/-- `*buf++ = (uint8_t)c`, with one byte less to go. -/
def putByte (vars : FillVars size) (c : BitVec 32) : FillVars size where
  memory := vars.memory.setByte vars.buf (c.setWidth 8)
  buf := vars.buf + 1
  len := vars.len - 1

/-- `*aligned_buf++ = tmp` -/
def putWord (vars : FillVars size) (tmp : BitVec size.bits) :
    FillVars size where
  memory := vars.memory.store vars.buf tmp
  buf := vars.buf + wordSize size
  len := vars.len - wordSize size

end FillVars

/-- `tmp` after so many turns of the loop that makes the pattern. -/
def pattern (size : WordSize) (c : BitVec 32) : Nat → BitVec size.bits
  | 0 => (c.setWidth 8).setWidth size.bits
  | i + 1 => pattern size c i <<< 8 ||| (c.setWidth 8).setWidth size.bits

/-- The last loop of `memset`. -/
def memsetBytes (c : BitVec 32) (vars : FillVars size) :
    AddressSpace size.bits :=
  if vars.len ≠ 0 then memsetBytes c (vars.putByte c) else vars.memory
termination_by vars.len.toNat
decreasing_by
  have next := WordSize.toNat_pred ‹vars.len ≠ 0›
  simp only [FillVars.putByte]
  omega

/-- The loop over whole words, with the last loop behind it. -/
def memsetWords (c : BitVec 32) (tmp : BitVec size.bits)
    (vars : FillVars size) : AddressSpace size.bits :=
  if wordSize size ≤ vars.len then memsetWords c tmp (vars.putWord tmp)
  else memsetBytes c vars
termination_by vars.len.toNat
decreasing_by
  have next := toNat_sub_wordSize ‹wordSize size ≤ vars.len›
  have positive : 0 < size.bytes := by cases size <;> decide
  simp only [FillVars.putWord]
  omega

/-- `memset` from its first loop on, which returns when nothing is left. -/
def memsetFrom (c : BitVec 32) (vars : FillVars size) :
    AddressSpace size.bits :=
  if unaligned vars.buf then
    if vars.len ≠ 0 then memsetFrom c (vars.putByte c) else vars.memory
  else if wordSize size * 4 ≤ vars.len then
    memsetWords c (pattern size c (size.bytes - 1)) vars
  else
    memsetBytes c vars
termination_by vars.len.toNat
decreasing_by
  have next := WordSize.toNat_pred ‹vars.len ≠ 0›
  simp only [FillVars.putByte]
  omega

/-- `memset` -/
def memset (memory : AddressSpace size.bits) (dst : BitVec size.bits)
    (c : BitVec 32) (len : BitVec size.bits) : AddressSpace size.bits :=
  memsetFrom c ⟨memory, dst, len⟩

theorem toNat_wordSize (size : WordSize) :
    (wordSize size).toNat = size.bytes := by
  cases size <;> rfl

theorem aligned_iff {address : BitVec size.bits} :
    unaligned address = false ↔ address.toNat % size.bytes = 0 := by
  have isMask :
      (address &&& (wordSize size - 1)).toNat = address.toNat % size.bytes := by
    cases size with
    | four =>
      exact Nat.and_two_pow_sub_one_eq_mod address.toNat 2
    | eight =>
      exact Nat.and_two_pow_sub_one_eq_mod address.toNat 3
  unfold unaligned
  rw [← isMask, decide_eq_false_iff_not, ne_eq, Decidable.not_not]
  constructor
  · intro isZero
    rw [isZero]
    exact BitVec.toNat_zero
  · exact fun isZero => BitVec.eq_of_toNat_eq isZero

theorem aligned_apart {dst src : BitVec size.bits} {written read : Nat}
    (alignedDst : unaligned dst = false) (alignedSrc : unaligned src = false)
    (before : written < read) (inside : read < size.bytes) :
    dst + BitVec.ofNat size.bits written ≠
      src + BitVec.ofNat size.bits read := by
  intro same
  have places := congrArg BitVec.toNat same
  rw [BitVec.toNat_add, BitVec.toNat_add, BitVec.toNat_ofNat,
    BitVec.toNat_ofNat] at places
  have modDst := aligned_iff.mp alignedDst
  have modSrc := aligned_iff.mp alignedSrc
  cases size with
  | four =>
    simp only [WordSize.bytes, WordSize.bits] at places modDst modSrc inside
    omega
  | eight =>
    simp only [WordSize.bytes, WordSize.bits] at places modDst modSrc inside
    omega

theorem aligned_add_wordSize {address : BitVec size.bits}
    (aligned : unaligned address = false) :
    unaligned (address + wordSize size) = false := by
  rw [aligned_iff] at aligned ⊢
  rw [BitVec.toNat_add, toNat_wordSize]
  cases size with
  | four =>
    simp only [WordSize.bytes, WordSize.bits] at aligned ⊢
    omega
  | eight =>
    simp only [WordSize.bytes, WordSize.bits] at aligned ⊢
    omega

theorem toNat_of_not_ne {len : BitVec size.bits} (isZero : ¬ len ≠ 0) :
    len.toNat = 0 := by
  rw [Decidable.not_not.mp isZero]
  exact BitVec.toNat_zero

theorem bytes_lt (size : WordSize) : size.bytes < 2 ^ size.bits := by
  cases size <;> decide

section Copies

variable {vars : CopyVars size}

theorem moveWord_memory (alignedDst : unaligned vars.dbuf = false)
    (alignedSrc : unaligned vars.sbuf = false) :
    vars.moveWord.memory =
      AddressSpace.forwardCopy size.bytes vars.dbuf vars.sbuf vars.memory := by
  refine AddressSpace.store_load.trans (Eq.symm ?_)
  exact AddressSpace.forwardCopy_eq_moved size.bits_pos
    (Nat.le_of_lt (bytes_lt size))
    fun _ _ => aligned_apart alignedDst alignedSrc

theorem memcpyBytes_eq :
    memcpyBytes vars =
      AddressSpace.forwardCopy vars.len.toNat vars.dbuf vars.sbuf
        vars.memory := by
  fun_induction memcpyBytes vars with
  | case1 vars notZero ih =>
    rw [ih, ← WordSize.toNat_pred notZero]
    rfl
  | case2 vars isZero =>
    rw [toNat_of_not_ne isZero]
    rfl

theorem memcpyWords_eq (alignedDst : unaligned vars.dbuf = false)
    (alignedSrc : unaligned vars.sbuf = false) :
    memcpyWords vars =
      AddressSpace.forwardCopy vars.len.toNat vars.dbuf vars.sbuf
        vars.memory := by
  fun_induction memcpyWords vars with
  | case1 vars isWord ih =>
    rw [ih (aligned_add_wordSize alignedDst) (aligned_add_wordSize alignedSrc),
      moveWord_memory alignedDst alignedSrc, ← toNat_sub_wordSize isWord,
      Nat.add_comm, AddressSpace.forwardCopy_add]
    rfl
  | case2 vars noWord =>
    exact memcpyBytes_eq

theorem memcpyFrom_eq :
    memcpyFrom vars =
      AddressSpace.forwardCopy vars.len.toNat vars.dbuf vars.sbuf
        vars.memory := by
  fun_induction memcpyFrom vars with
  | case1 vars isUnaligned notZero ih =>
    rw [ih, ← WordSize.toNat_pred notZero]
    rfl
  | case2 vars isUnaligned isZero =>
    rw [toNat_of_not_ne isZero]
    rfl
  | case3 vars aligned both =>
    exact memcpyWords_eq (by simpa using both.2) (by simpa using aligned)
  | case4 vars aligned noWords =>
    exact memcpyBytes_eq

end Copies

theorem getLsbD_pattern {c : BitVec 32} {turns bit : Nat}
    (below : bit < 8 * (turns + 1)) (inWord : bit < size.bits) :
    (pattern size c turns).getLsbD bit = c.getLsbD (bit % 8) := by
  induction turns generalizing bit with
  | zero =>
    rw [pattern, BitVec.getLsbD_setWidth, BitVec.getLsbD_setWidth,
      Nat.mod_eq_of_lt (by omega)]
    simp [inWord]
    omega
  | succ turns ih =>
    rw [pattern, BitVec.getLsbD_or, BitVec.getLsbD_shiftLeft,
      BitVec.getLsbD_setWidth, BitVec.getLsbD_setWidth]
    by_cases isLow : bit < 8
    · simp [isLow, inWord, Nat.mod_eq_of_lt isLow]
    · rw [ih (by omega) (by omega), show (bit - 8) % 8 = bit % 8 by omega]
      simp [isLow, inWord]

section Fills

variable {c : BitVec 32} {vars : FillVars size}

theorem putWord_memory :
    (vars.putWord (pattern size c (size.bytes - 1))).memory =
      vars.memory.fill vars.buf (c.setWidth 8) size.bytes := by
  funext other
  simp only [FillVars.putWord, AddressSpace.store, AddressSpace.fill]
  split
  next inside =>
    have isWord : size.bits = 8 * (size.bytes - 1 + 1) := by
      cases size <;> rfl
    refine BitVec.eq_of_getLsbD_eq fun bit below => ?_
    have byte : (pattern size c (size.bytes - 1)).getLsbD
            (8 * AddressSpace.offset vars.buf other + bit) =
          (c.setWidth 8).getLsbD bit := by
      rw [getLsbD_pattern (by omega) (by omega), BitVec.getLsbD_setWidth,
        decide_eq_true below, Bool.true_and]
      congr 1
      omega
    refine (BitVec.getLsbD_extractLsb' _ _ _ _).trans ?_
    rw [decide_eq_true below, Bool.true_and]
    exact byte
  · rfl

theorem memsetBytes_eq :
    memsetBytes c vars =
      vars.memory.fill vars.buf (c.setWidth 8) vars.len.toNat := by
  fun_induction memsetBytes c vars with
  | case1 vars notZero ih =>
    rw [ih, ← WordSize.toNat_pred notZero,
      ← AddressSpace.fill_setByte size.bits_pos]
    rfl
  | case2 vars isZero =>
    rw [toNat_of_not_ne isZero]
    rfl

theorem memsetWords_eq :
    memsetWords c (pattern size c (size.bytes - 1)) vars =
      vars.memory.fill vars.buf (c.setWidth 8) vars.len.toNat := by
  generalize isPattern : pattern size c (size.bytes - 1) = tmp
  fun_induction memsetWords c tmp vars with
  | case1 vars isWord ih =>
    have left := toNat_sub_wordSize isWord
    rw [ih, ← isPattern, putWord_memory, ← left, Nat.add_comm,
      ← AddressSpace.fill_fill (by omega) (bytes_lt size)]
    rfl
  | case2 vars noWord =>
    exact memsetBytes_eq

theorem memsetFrom_eq :
    memsetFrom c vars =
      vars.memory.fill vars.buf (c.setWidth 8) vars.len.toNat := by
  fun_induction memsetFrom c vars with
  | case1 vars isUnaligned notZero ih =>
    rw [ih, ← WordSize.toNat_pred notZero,
      ← AddressSpace.fill_setByte size.bits_pos]
    rfl
  | case2 vars isUnaligned isZero =>
    rw [toNat_of_not_ne isZero]
    rfl
  | case3 vars aligned isLong =>
    exact memsetWords_eq
  | case4 vars aligned isShort =>
    exact memsetBytes_eq

end Fills

/--
With words of either size `memcpy` copies byte by byte, from the lower
addresses to the higher ones, and `memset` writes the low byte of `c` to the
bytes of its range and to no other; wherever the ranges lie.
-/
theorem memcpy_memset_bytewise (size : WordSize) :
    (∀ (memory : AddressSpace size.bits) (dst src len : BitVec size.bits),
      memcpy memory dst src len =
        AddressSpace.forwardCopy len.toNat dst src memory) ∧
      ∀ (memory : AddressSpace size.bits) (dst : BitVec size.bits)
        (c : BitVec 32) (len : BitVec size.bits),
        memset memory dst c len = memory.fill dst (c.setWidth 8) len.toNat :=
  ⟨fun _ _ _ _ => memcpyFrom_eq, fun _ _ _ _ => memsetFrom_eq⟩

end Idylla.Klib
