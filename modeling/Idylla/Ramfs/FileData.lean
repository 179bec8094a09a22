import Mathlib.Algebra.Group.Int.Defs
import Mathlib.Algebra.Group.Nat.Defs
import Idylla.Errno
import Idylla.Lib.Memory
import Idylla.Lib.Run

namespace Idylla.Ramfs

open Idylla.Lib

/-!
# The data of ramfs files

`ramfs_write` and `ramfs_read` on the inode of one regular file.  `krealloc`
keeps the old bytes and leaves the new ones as it has found them; a copy that
leaves the block of the data is undefined, which is `none`.
-/

/-- The value of a number in an `off_t`. -/
def toOff (number : Int) : Int :=
  number.bmod (2 ^ 32)

/-- The value of a number in a `loff_t`. -/
def toLoff (number : Int) : Int :=
  number.bmod (2 ^ 64)

/-- The value of a number in a `size_t` or a `uint32_t`. -/
def toSize (number : Int) : Nat :=
  (number % 2 ^ 32).toNat

theorem toOff_of_lt {number : Nat} (fits : number < 2 ^ 31) :
    toOff number = number := by
  unfold toOff
  rw [Int.bmod_eq_of_le] <;> omega

theorem toOff_lt (number : Int) : toOff number < 2 ^ 31 := by
  exact Int.bmod_lt (by decide)

theorem le_toOff (number : Int) : -2 ^ 31 ≤ toOff number := by
  exact Int.le_bmod (by decide)

theorem toLoff_of_le {number : Int} (lower : -2 ^ 63 ≤ number)
    (upper : number < 2 ^ 63) : toLoff number = number := by
  unfold toLoff
  rw [Int.bmod_eq_of_le] <;> omega

theorem toSize_of_lt {number : Nat} (fits : number < 2 ^ 32) :
    toSize number = number := by
  unfold toSize
  omega

/-- A block of the kernel's heap. -/
structure FileBlock where
  length : Nat
  bytes : Memory (BitVec 8)

/-- `krealloc`, where the memory behind the old bytes holds `fresh`. -/
def FileBlock.krealloc (block : FileBlock) (length : Nat)
    (fresh : Memory (BitVec 8)) : FileBlock where
  length := length
  bytes := fresh.copy 0 block.bytes 0 (min block.length length)

/-- The space of `struct ramfs_superblock`. -/
structure RamfsSpace where
  size : Nat
  used : Nat

/-- `struct ramfs_inode` of a regular file. -/
structure FileInode where
  mode : Nat
  uid : Nat
  gid : Nat
  nlink : Nat
  size : Int
  rdev : Nat
  data : FileBlock

namespace FileInode

/-- An inode as `kalloc` and the assignments behind it leave it. -/
def new (mode rdev : Nat) : FileInode where
  mode := mode
  uid := 0
  gid := 0
  nlink := 0
  size := 0
  rdev := rdev
  data := { length := 0, bytes := fun _ => 0 }

/-- `memcpy(inode->data + offset, buf, len)` -/
def store (inode : FileInode) (buf : List (BitVec 8))
    (offset : Nat) : Option FileInode :=
  if buf = [] ∨ offset + buf.length ≤ inode.data.length then
    some
      { inode with
        data :=
          { inode.data with
            bytes :=
              inode.data.bytes.copy offset (fun i => buf.getD i 0) 0
                buf.length } }
  else
    none

/-- `memcpy(buf, inode->data + offset, len)` -/
def load (inode : FileInode) (len offset : Nat) : Option (List (BitVec 8)) :=
  if len = 0 ∨ offset + len ≤ inode.data.length then
    some ((List.range len).map fun i => inode.data.bytes (offset + i))
  else
    none

end FileInode

/--
What `ramfs_write` leaves and returns, with the size that it gives to the vnode.
-/
structure RamfsWritten where
  space : RamfsSpace
  inode : FileInode
  vnodeSize : Option Int
  result : Except Errno Nat

/-- `ramfs_write` -/
def ramfsWrite (space : RamfsSpace) (inode : FileInode) (buf : List (BitVec 8))
    (offset : Nat) (fresh : Memory (BitVec 8)) : Option RamfsWritten :=
  let fileEnd := toLoff (offset + buf.length : Nat)
  if inode.size < fileEnd then
    if space.size ≤ toLoff (toSize (space.used + inode.size) - fileEnd) then
      some
        { space := space
          inode := inode
          vnodeSize := none
          result := .error .ENOSPC }
    else
      -- the size is compared once more, which has not changed
      let grown :=
        { inode with
          size := toOff fileEnd
          data := inode.data.krealloc (toSize fileEnd) fresh }
      (grown.store buf offset).map fun stored =>
        { space :=
            { space with
              used := toSize (space.used + (fileEnd - inode.size)) }
          inode := stored
          vnodeSize := some stored.size
          result := .ok buf.length }
  else
    (inode.store buf offset).map fun stored =>
      { space := space
        inode := stored
        vnodeSize := none
        result := .ok buf.length }

/-- `ramfs_read` -/
def ramfsRead (inode : FileInode)
    (len offset : Nat) : Option (List (BitVec 8)) :=
  if inode.size < toLoff (offset + len : Nat) then
    inode.load
      (if 0 < toLoff (inode.size - offset) then
        toSize (inode.size - offset)
      else
        0)
      offset
  else
    inode.load len offset

/-- A call to `ramfs_write`, with the space before it and the heap's bytes. -/
structure FileWrite where
  space : RamfsSpace
  buf : List (BitVec 8)
  offset : Nat
  fresh : Memory (BitVec 8)

/-- The arguments are those of a `loff_t` and a `size_t`. -/
def FileWrite.Typed (write : FileWrite) : Prop :=
  write.offset < 2 ^ 63 ∧ write.buf.length < 2 ^ 32

/-- One successful write as a transition. -/
def WriteStep (inode : FileInode) (write : FileWrite)
    (after : FileInode) : Prop :=
  write.Typed ∧
    ∃ written,
      ramfsWrite write.space inode write.buf write.offset write.fresh =
          some written ∧
        written.result = .ok write.buf.length ∧ written.inode = after

/-- The bytes of a file after writes: the last ones written, and else zero. -/
def fileBytes (writes : List FileWrite) : Memory (BitVec 8) :=
  writes.foldl
    (fun bytes write =>
      bytes.copy write.offset (fun i => write.buf.getD i 0) 0 write.buf.length)
    fun _ => 0

/-- The size of a file after writes: the largest end of one. -/
def fileSize (writes : List FileWrite) : Nat :=
  writes.foldl (fun size write => max size (write.offset + write.buf.length)) 0

/-- A read returns the bytes in range below the size. -/
def ReadsBytes (writes : List FileWrite) (inode : FileInode)
    (len offset : Nat) : Prop :=
  ramfsRead inode len offset =
    some
      ((List.range (min len (fileSize writes - offset))).map fun i =>
        fileBytes writes (offset + i))

/--
A write ends where an `off_t` reaches, and where it starts behind the end of the
file the heap's bytes between them are zero.
-/
def FillsHoles (inode : FileInode) (write : FileWrite) : Prop :=
  write.offset + write.buf.length < 2 ^ 31 ∧
    ∀ index : Nat, inode.size ≤ index → index < write.offset →
      write.fresh index = 0

theorem fileBytes_append (writes : List FileWrite) (write : FileWrite)
    (index : Nat) :
    fileBytes (writes ++ [write]) index =
      if write.offset ≤ index ∧
          index < write.offset + write.buf.length then
        write.buf.getD (index - write.offset) 0
      else
        fileBytes writes index := by
  unfold fileBytes
  rw [List.foldl_append, List.foldl_cons, List.foldl_nil]
  unfold Memory.copy
  rw [Nat.zero_add]

theorem fileSize_append (writes : List FileWrite) (write : FileWrite) :
    fileSize (writes ++ [write]) =
      max (fileSize writes) (write.offset + write.buf.length) := by
  unfold fileSize
  rw [List.foldl_append, List.foldl_cons, List.foldl_nil]

/-- What writes that fill their holes keep. -/
structure HoldsWrites (writes : List FileWrite) (inode : FileInode) : Prop where
  size : inode.size = fileSize writes
  small : fileSize writes < 2 ^ 31
  length : inode.data.length = fileSize writes
  bytes : ∀ index, index < fileSize writes →
      inode.data.bytes index = fileBytes writes index
  behind : ∀ index, fileSize writes ≤ index → fileBytes writes index = 0

theorem FileInode.store_some
    {inode after : FileInode} {buf : List (BitVec 8)} {offset : Nat}
    (stored : inode.store buf offset = some after) :
    (buf = [] ∨ offset + buf.length ≤ inode.data.length) ∧
      after.size = inode.size ∧ after.data.length = inode.data.length ∧
      ∀ index,
        after.data.bytes index =
          if offset ≤ index ∧ index < offset + buf.length then
            buf.getD (index - offset) 0
          else
            inode.data.bytes index := by
  unfold FileInode.store at stored
  split at stored
  next inside =>
    obtain rfl := Option.some.inj stored
    refine ⟨inside, rfl, rfl, fun index => ?_⟩
    dsimp only
    unfold Memory.copy
    rw [Nat.zero_add]
  next outside => cases stored

theorem writeStep_cases {inode after : FileInode} {write : FileWrite}
    (stepped : WriteStep inode write after) :
    (inode.size < toLoff (write.offset + write.buf.length : Nat) ∧
      FileInode.store
        { inode with
          size := toOff (toLoff (write.offset + write.buf.length : Nat))
          data :=
            inode.data.krealloc
              (toSize (toLoff (write.offset + write.buf.length : Nat)))
              write.fresh }
        write.buf write.offset = some after) ∨
    (toLoff (write.offset + write.buf.length : Nat) ≤ inode.size ∧
      inode.store write.buf write.offset = some after) := by
  obtain ⟨-, written, wrote, succeeded, rfl⟩ := stepped
  unfold ramfsWrite at wrote
  dsimp only at wrote
  split at wrote
  next longer =>
    split at wrote
    · obtain rfl := Option.some.inj wrote
      cases succeeded
    · obtain ⟨stored, isStored, rfl⟩ := Option.map_eq_some_iff.mp wrote
      exact .inl ⟨longer, isStored⟩
  next notLonger =>
    obtain ⟨stored, isStored, rfl⟩ := Option.map_eq_some_iff.mp wrote
    exact .inr ⟨Int.not_lt.mp notLonger, isStored⟩

namespace HoldsWrites

variable {writes : List FileWrite} {inode after : FileInode} {write : FileWrite}

theorem new (mode rdev : Nat) : HoldsWrites [] (.new mode rdev) :=
  ⟨rfl, by decide, rfl, fun index inside => absurd inside (by simp [fileSize]),
    fun _ _ => rfl⟩

variable (holds : HoldsWrites writes inode)

include holds

theorem grow (fills : FillsHoles inode write)
    (longer : fileSize writes < write.offset + write.buf.length)
    (stored :
      FileInode.store
        { inode with
          size := (write.offset + write.buf.length : Nat)
          data :=
            inode.data.krealloc (write.offset + write.buf.length) write.fresh }
        write.buf write.offset = some after) :
    HoldsWrites (writes ++ [write]) after := by
  obtain ⟨-, size, length, bytes⟩ := FileInode.store_some stored
  have newSize :
      fileSize (writes ++ [write]) = write.offset + write.buf.length := by
    rw [fileSize_append]
    omega
  refine ⟨?_, ?_, ?_, fun index inside => ?_, fun index behind => ?_⟩
  · rw [size, newSize]
  · rw [newSize]
    exact fills.1
  · rw [length, newSize]
    rfl
  · rw [bytes, fileBytes_append]
    split
    · rfl
    next before =>
      unfold FileBlock.krealloc
      dsimp only
      by_cases old : index < fileSize writes
      · have inOld : index <
              0 + min inode.data.length (write.offset + write.buf.length) := by
          rw [holds.length]
          omega
        rw [Memory.copy_inside (Nat.zero_le index) inOld, Nat.zero_add,
          Nat.sub_zero]
        exact holds.bytes index old
      · rw [Memory.copy_outside (.inr (by rw [holds.length]; omega)),
          holds.behind index (by omega)]
        refine fills.2 index ?_ (by omega)
        rw [holds.size]
        omega
  · rw [fileBytes_append, if_neg (by omega)]
    exact holds.behind index (by omega)

theorem overwrite (inside : write.offset + write.buf.length ≤ fileSize writes)
    (stored : inode.store write.buf write.offset = some after) :
    HoldsWrites (writes ++ [write]) after := by
  obtain ⟨-, size, length, bytes⟩ := FileInode.store_some stored
  have newSize : fileSize (writes ++ [write]) = fileSize writes := by
    rw [fileSize_append]
    omega
  refine ⟨?_, ?_, ?_, fun index below => ?_, fun index behind => ?_⟩
  · rw [size, newSize]
    exact holds.size
  · rw [newSize]
    exact holds.small
  · rw [length, newSize]
    exact holds.length
  · rw [newSize] at below
    rw [bytes, fileBytes_append]
    split
    · rfl
    · exact holds.bytes index below
  · rw [newSize] at behind
    rw [fileBytes_append, if_neg (by omega)]
    exact holds.behind index behind

theorem step (fills : FillsHoles inode write)
    (stepped : WriteStep inode write after) :
    HoldsWrites (writes ++ [write]) after := by
  have small := fills.1
  have isEnd : toLoff (write.offset + write.buf.length : Nat) =
        (write.offset + write.buf.length : Nat) :=
    toLoff_of_le (by omega) (by omega)
  have cases := writeStep_cases stepped
  rw [isEnd, toOff_of_lt small, toSize_of_lt (by omega), holds.size] at cases
  rcases cases with ⟨longer, stored⟩ | ⟨notLonger, stored⟩
  · exact holds.grow fills (by omega) stored
  · exact holds.overwrite (by omega) stored

theorem load {len offset : Nat}
    (inside : len = 0 ∨ offset + len ≤ fileSize writes) :
    inode.load len offset =
      some ((List.range len).map fun i => fileBytes writes (offset + i)) := by
  unfold FileInode.load
  rw [holds.length, if_pos inside]
  refine congrArg some (List.map_congr_left fun i member => ?_)
  rw [List.mem_range] at member
  exact holds.bytes (offset + i) (by omega)

/-- A read returns the bytes in range, unless its end leaves a `loff_t`. -/
theorem readsBytes_iff {len offset : Nat} (isLoff : offset < 2 ^ 63)
    (isSize : len < 2 ^ 32) :
    ReadsBytes writes inode len offset ↔ offset + len < 2 ^ 63 := by
  have small := holds.small
  unfold ReadsBytes ramfsRead
  rw [holds.size]
  constructor
  · intro reads
    refine Nat.lt_of_not_le fun wraps => ?_
    have isNegative : toLoff (offset + len : Nat) < 0 := by
      unfold toLoff
      rw [Int.bmod_def]
      omega
    rw [if_neg (by omega)] at reads
    unfold FileInode.load at reads
    rw [holds.length, if_neg (by omega)] at reads
    cases reads
  · intro inLoff
    have isEnd : toLoff (offset + len : Nat) = (offset + len : Nat) :=
      toLoff_of_le (by omega) (by omega)
    have isRest : toLoff ((fileSize writes : Int) - offset) =
          (fileSize writes : Int) - offset :=
      toLoff_of_le (by omega) (by omega)
    split
    next beyond =>
      split
      next before =>
        have rest : toSize ((fileSize writes : Int) - offset) =
              fileSize writes - offset := by
          unfold toSize
          omega
        rw [rest, holds.load (.inr (by omega))]
        rw [Nat.min_eq_right (by omega)]
      next behind =>
        rw [holds.load (.inl rfl)]
        rw [Nat.sub_eq_zero_of_le (by omega), Nat.min_zero]
    next inside => rw [holds.load (.inr (by omega)), Nat.min_eq_left (by omega)]

theorem fits_of_reads (stepped : WriteStep inode write after)
    (reads :
      ∀ len offset, offset + len < 2 ^ 63 → len < 2 ^ 32 →
        ReadsBytes (writes ++ [write]) after len offset) :
    write.offset + write.buf.length < 2 ^ 31 := by
  refine Nat.lt_of_not_le fun large => ?_
  have small := holds.small
  have isLoff := stepped.1.1
  rcases writeStep_cases stepped with ⟨-, stored⟩ | ⟨notLonger, stored⟩
  · -- the last byte that an `off_t` reaches is behind the size
    have size := (FileInode.store_some stored).2.1
    have last := reads 1 (2 ^ 31 - 1) (by decide) (by decide)
    have upper := toOff_lt (toLoff (write.offset + write.buf.length : Nat))
    have lower := le_toOff (toLoff (write.offset + write.buf.length : Nat))
    dsimp only at size
    rw [← size] at upper lower
    have isEnd : toLoff ((2 ^ 31 - 1 + 1 : Nat) : Int) = 2 ^ 31 := by
      decide
    have isRest : toLoff (after.size - (2 ^ 31 - 1 : Nat)) =
          after.size - (2 ^ 31 - 1 : Nat) :=
      toLoff_of_le (by omega) (by omega)
    unfold ReadsBytes ramfsRead at last
    rw [isEnd, if_pos upper, isRest, if_neg (by omega), fileSize_append,
      Nat.min_eq_left (by omega)] at last
    unfold FileInode.load at last
    simp at last
  · rcases (FileInode.store_some stored).1 with isEmpty | inside
    · rw [isEmpty, List.length_nil, Nat.add_zero] at notLonger large
      rw [toLoff_of_le (by omega) (by omega), holds.size] at notLonger
      omega
    · rw [holds.length] at inside
      omega

theorem fills_of_reads (stepped : WriteStep inode write after)
    (reads :
      ∀ len offset, offset + len < 2 ^ 63 → len < 2 ^ 32 →
        ReadsBytes (writes ++ [write]) after len offset) :
    FillsHoles inode write := by
  have fits := holds.fits_of_reads stepped reads
  refine ⟨fits, fun index behind before => ?_⟩
  rw [holds.size] at behind
  have isEnd : toLoff (write.offset + write.buf.length : Nat) =
        (write.offset + write.buf.length : Nat) :=
    toLoff_of_le (by omega) (by omega)
  have cases := writeStep_cases stepped
  rw [isEnd, toOff_of_lt fits, toSize_of_lt (by omega), holds.size] at cases
  rcases cases with ⟨longer, stored⟩ | ⟨notLonger, -⟩
  · obtain ⟨-, size, length, bytes⟩ := FileInode.store_some stored
    have inHole := reads 1 index (by omega) (by decide)
    have isNext : toLoff (index + 1 : Nat) = (index + 1 : Nat) :=
      toLoff_of_le (by omega) (by omega)
    have isFresh : after.data.bytes index = write.fresh index := by
      rw [bytes, if_neg (by omega)]
      refine Memory.copy_outside (.inr ?_)
      rw [holds.length]
      omega
    have isLength : after.data.length = write.offset + write.buf.length :=
      length
    unfold ReadsBytes ramfsRead at inHole
    rw [size, isNext, if_neg (by dsimp only; omega), fileSize_append,
      Nat.min_eq_left (by omega)] at inHole
    unfold FileInode.load at inHole
    rw [if_pos (.inr (by omega)), Option.some.injEq] at inHole
    have sameByte := List.map_inj_left.mp inHole 0 (by simp)
    rw [Nat.add_zero, isFresh, fileBytes_append, if_neg (by omega),
      holds.behind index (by omega)] at sameByte
    exact sameByte
  · omega

end HoldsWrites

/--
After successful writes that fill their holes a read returns the bytes in range
that have been written last, and zero elsewhere, exactly where its end is that
of a `loff_t`; and a further write keeps that exactly where it fills its hole.
-/
theorem ramfsRead_returns_written
    {mode rdev : Nat} {writes : List FileWrite} {inode : FileInode}
    (ran : Run (Guarded FillsHoles WriteStep) (.new mode rdev) writes inode) :
    (∀ len offset, offset < 2 ^ 63 → len < 2 ^ 32 →
      (ReadsBytes writes inode len offset ↔ offset + len < 2 ^ 63)) ∧
    ∀ write after, WriteStep inode write after →
      ((∀ len offset, offset + len < 2 ^ 63 → len < 2 ^ 32 →
        ReadsBytes (writes ++ [write]) after len offset) ↔
        FillsHoles inode write) := by
  have holds :=
    ran.invariant HoldsWrites (.new mode rdev)
      fun holds stepped => holds.step stepped.1 stepped.2
  refine ⟨fun len offset isLoff isSize => holds.readsBytes_iff isLoff isSize,
    fun write after stepped => ⟨holds.fills_of_reads stepped, ?_⟩⟩
  intro fills len offset inLoff isSize
  exact ((holds.step fills stepped).readsBytes_iff (by omega) isSize).mpr inLoff

/-- A byte is written behind a hole of one byte. -/
def behindHole (fresh : BitVec 8) : FileWrite where
  space := { size := 0x400000, used := 0 }
  buf := [1]
  offset := 1
  fresh := fun _ => fresh

/-- The file that it leaves. -/
def withHole (fresh : BitVec 8) : FileInode where
  mode := 0o100644
  uid := 0
  gid := 0
  nlink := 0
  size := 2
  rdev := 0
  data :=
    { length := 2
      bytes :=
        (Memory.copy (fun _ => fresh) 0 (fun _ => 0) 0 0).copy 1
          (fun i => [1].getD i 0) 0 1 }

theorem behindHole_written (fresh : BitVec 8) :
    WriteStep (.new 0o100644 0) (behindHole fresh) (withHole fresh) := by
  have isTyped : 1 < 2 ^ 63 ∧ 1 < 2 ^ 32 := by
    decide
  refine ⟨isTyped,
    { space := { size := 0x400000, used := 2 }
      inode := withHole fresh
      vnodeSize := some 2
      result := .ok 1 }, ?_, rfl, rfl⟩
  unfold ramfsWrite behindHole
  dsimp only [List.length_cons, List.length_nil, Nat.zero_add]
  rfl

/-- Where the heap holds a zero the hole is read as zero. -/
theorem zeroHole_read :
    ramfsRead (withHole 0) 4 0 = some [0, 1] ∧
      ReadsBytes [behindHole 0] (withHole 0) 4 0 := by
  have fills : FillsHoles (.new 0o100644 0) (behindHole 0) :=
    ⟨by decide, fun _ _ _ => rfl⟩
  have ran : Run (Guarded FillsHoles WriteStep) (.new 0o100644 0) [behindHole 0]
        (withHole 0) :=
    .single ⟨fills, behindHole_written 0⟩
  exact ⟨rfl,
    ((ramfsRead_returns_written ran).1 4 0 (by decide) (by decide)).mpr
      (by decide)⟩

/-- Where the heap holds something else, that is read. -/
theorem staleHole_read :
    ¬ ∀ (mode rdev : Nat) (writes : List FileWrite) (inode : FileInode),
        Run WriteStep (.new mode rdev) writes inode →
          ∀ len offset, offset + len < 2 ^ 63 → len < 2 ^ 32 →
            ReadsBytes writes inode len offset := by
  intro reads
  have hole :=
    reads 0o100644 0 [behindHole 7] (withHole 7)
      (.single (behindHole_written 7)) 2 0 (by decide) (by decide)
  cases hole

end Idylla.Ramfs
