import Mathlib.Algebra.Group.Nat.Defs

namespace Idylla.Lib

/-!
# Address spaces

A byte for every address of so many bits.  Addresses wrap around, so a range
is a first address and a count, and an address is in it by its offset.
-/

/-- A byte for every address. -/
abbrev AddressSpace (w : Nat) := BitVec w → BitVec 8

namespace AddressSpace

variable {w : Nat}

/-- One byte written. -/
def setByte (memory : AddressSpace w) (address : BitVec w)
    (value : BitVec 8) : AddressSpace w :=
  fun other => if other = address then value else memory other

/-- Bytes copied one after another, those with lower addresses first. -/
def forwardCopy :
    Nat → BitVec w → BitVec w → AddressSpace w → AddressSpace w
  | 0, _, _, memory => memory
  | count + 1, dst, src, memory =>
    forwardCopy count (dst + 1) (src + 1) (memory.setByte dst (memory src))

/-- How far an address is behind another one. -/
def offset (first address : BitVec w) : Nat := (address - first).toNat

/-- A range with the bytes of another one, all read before any is written. -/
def moved (memory : AddressSpace w) (dst src : BitVec w)
    (count : Nat) : AddressSpace w :=
  fun address =>
    if offset dst address < count then
      memory (src + BitVec.ofNat w (offset dst address))
    else
      memory address

/-- A range with one value in all of its bytes. -/
def fill (memory : AddressSpace w) (first : BitVec w)
    (value : BitVec 8) (count : Nat) : AddressSpace w :=
  fun address => if offset first address < count then value else memory address

/-- The bytes from an address on as a number, the lowest one first. -/
def load (memory : AddressSpace w) (address : BitVec w) :
    (count : Nat) → BitVec (count * 8)
  | 0 => 0#0
  | count + 1 =>
    (memory (address + BitVec.ofNat w count) ++ load memory address count).cast
      (by omega)

/-- A number stored, its lowest byte first. -/
def store (memory : AddressSpace w) (address : BitVec w) {count : Nat}
    (value : BitVec (count * 8)) : AddressSpace w :=
  fun other =>
    if offset address other < count then
      value.extractLsb' (8 * offset address other) 8
    else
      memory other

variable {memory : AddressSpace w} {dst src first address : BitVec w}
  {count more : Nat} {value : BitVec 8}

@[simp] theorem offset_self : offset first first = 0 := by
  rw [offset, BitVec.sub_self, BitVec.toNat_zero]

theorem offset_eq_zero_iff : offset first address = 0 ↔ address = first := by
  constructor
  · intro isZero
    have noOffset : address - first = 0 := BitVec.eq_of_toNat_eq isZero
    exact BitVec.sub_eq_iff_eq_add.mp noOffset |>.trans (BitVec.zero_add first)
  · rintro rfl
    exact offset_self

theorem offset_add_eq (inside : count < 2 ^ w) :
    offset (first + BitVec.ofNat w count) address =
      if count ≤ offset first address then offset first address - count
      else 2 ^ w - (count - offset first address) := by
  have isCount : (BitVec.ofNat w count).toNat = count := Nat.mod_eq_of_lt inside
  unfold offset
  rw [← BitVec.sub_sub]
  by_cases reaches : count ≤ (address - first).toNat
  · have isLess : BitVec.ofNat w count ≤ address - first := by
      rwa [BitVec.le_def, isCount]
    rw [BitVec.toNat_sub_of_le isLess, isCount, if_pos reaches]
  · have isLess : address - first < BitVec.ofNat w count := by
      rw [BitVec.lt_def, isCount]
      exact Nat.lt_of_not_le reaches
    rw [BitVec.toNat_sub_of_lt isLess, isCount, if_neg reaches]

theorem offset_succ (wide : 0 < w) (differs : address ≠ first) :
    offset (first + 1) address + 1 = offset first address := by
  have isLess : 1 < 2 ^ w := Nat.one_lt_two_pow (Nat.ne_of_gt wide)
  have behind := @offset_add_eq w first address 1 isLess
  have positive : offset first address ≠ 0 :=
    fun isZero => differs (offset_eq_zero_iff.mp isZero)
  rw [if_pos (Nat.one_le_iff_ne_zero.mpr positive)] at behind
  rw [show first + 1 = first + BitVec.ofNat w 1 from rfl, behind]
  omega

theorem offset_succ_self (wide : 0 < w) :
    offset (first + 1) first = 2 ^ w - 1 := by
  have isLess : 1 < 2 ^ w := Nat.one_lt_two_pow (Nat.ne_of_gt wide)
  have behind := @offset_add_eq w first first 1 isLess
  rw [offset_self, if_neg (by omega)] at behind
  exact behind

theorem add_one_add (place : Nat) :
    first + 1 + BitVec.ofNat w place = first + BitVec.ofNat w (place + 1) := by
  rw [BitVec.add_assoc, BitVec.ofNat_add, BitVec.add_comm 1]
  rfl

theorem forwardCopy_add (count more : Nat) :
    forwardCopy (count + more) dst src memory =
      forwardCopy more (dst + BitVec.ofNat w count)
        (src + BitVec.ofNat w count) (forwardCopy count dst src memory) := by
  induction count generalizing dst src memory with
  | zero =>
    simp [forwardCopy]
  | succ count ih =>
    rw [Nat.add_right_comm, forwardCopy, ih, add_one_add, add_one_add]
    rfl

/-- A copy that reads no byte after it has been written is a move. -/
theorem forwardCopy_eq_moved (wide : 0 < w) (fits : count ≤ 2 ^ w)
    (apart :
      ∀ written read, written < read → read < count →
        dst + BitVec.ofNat w written ≠ src + BitVec.ofNat w read) :
    forwardCopy count dst src memory = memory.moved dst src count := by
  induction count generalizing dst src memory with
  | zero =>
    rfl
  | succ count ih =>
    have apartRest : ∀ written read, written < read → read < count →
          dst + 1 + BitVec.ofNat w written ≠ src + 1 + BitVec.ofNat w read := by
      intro written read before inside
      rw [add_one_add, add_one_add]
      exact apart _ _ (Nat.succ_lt_succ before) (Nat.succ_lt_succ inside)
    rw [forwardCopy, ih (Nat.le_of_succ_le fits) apartRest]
    funext address
    unfold moved
    by_cases isFirst : address = dst
    · subst isFirst
      rw [offset_succ_self wide, offset_self,
        if_neg (Nat.not_lt.mpr (Nat.le_sub_one_of_lt fits)),
        if_pos (Nat.succ_pos _), setByte, if_pos rfl, BitVec.add_zero]
    · have next := offset_succ wide isFirst
      by_cases inside : offset dst address < count + 1
      · rw [if_pos (by omega), if_pos inside, add_one_add, next, setByte,
          if_neg]
        intro isRead
        have notFirst := apart 0 (offset dst address) (by omega) inside
        rw [BitVec.add_zero] at notFirst
        exact notFirst isRead.symm
      · rw [if_neg (by omega), if_neg inside, setByte, if_neg isFirst]

theorem fill_setByte (wide : 0 < w) :
    (memory.setByte first value).fill (first + 1) value count =
      memory.fill first value (count + 1) := by
  funext address
  unfold fill
  by_cases isFirst : address = first
  · subst isFirst
    rw [offset_self, if_pos (Nat.succ_pos _), setByte, if_pos rfl, ite_self]
  · have next := offset_succ wide isFirst
    by_cases inside : offset first address < count + 1
    · rw [if_pos (by omega), if_pos inside]
    · rw [if_neg (by omega), if_neg inside, setByte, if_neg isFirst]

theorem fill_fill (fits : count + more ≤ 2 ^ w) (inside : count < 2 ^ w) :
    (memory.fill first value count).fill (first + BitVec.ofNat w count) value
        more =
      memory.fill first value (count + more) := by
  funext address
  have behind := @offset_add_eq w first address count inside
  unfold fill
  rw [behind]
  by_cases inFirst : count ≤ offset first address
  · rw [if_pos inFirst, if_neg (Nat.not_lt.mpr inFirst)]
    by_cases inSecond : offset first address < count + more
    · rw [if_pos (by omega), if_pos inSecond]
    · rw [if_neg (by omega), if_neg inSecond]
  · rw [if_neg inFirst, if_neg (by omega), if_pos (by omega), if_pos (by omega)]

/-- A byte of a number that is read. -/
theorem extractLsb'_load {place : Nat} (inside : place < count) :
    (memory.load address count).extractLsb' (8 * place) 8 =
      memory (address + BitVec.ofNat w place) := by
  induction count with
  | zero =>
    omega
  | succ count ih =>
    refine BitVec.eq_of_getLsbD_eq fun bit below => ?_
    rw [BitVec.getLsbD_extractLsb', decide_eq_true below, Bool.true_and, load,
      BitVec.getLsbD_cast, BitVec.getLsbD_append]
    by_cases isHigh : place = count
    · rw [isHigh, if_neg (by omega)]
      congr 1
      omega
    · have byte := ih (by omega)
      rw [if_pos (by omega), ← byte, BitVec.getLsbD_extractLsb',
        decide_eq_true below, Bool.true_and]

theorem store_load :
    memory.store dst (memory.load src count) = memory.moved dst src count := by
  funext other
  unfold store moved
  split
  next inside => rw [extractLsb'_load inside]
  · rfl

end AddressSpace

end Idylla.Lib
