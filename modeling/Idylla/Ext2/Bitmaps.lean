import Idylla.Errno
import Idylla.Ext2.File
import Idylla.Lib.Bitmap

namespace Idylla.Ext2

open Idylla.Lib

/-!
# Allocating and freeing in the bitmaps of ext2

`balloc.c` and `ialloc.c`, whose functions differ in the fields that they use.
The device is made of blocks of words, and a transfer that fails leaves the
device as it was.  `none` stands for what C leaves undefined, an index outside
of `data->groups` and `data->groups_mutex`.
-/

/-- The two bitmaps of a group. -/
inductive BitmapKind where
  | block
  | inode
  deriving DecidableEq

/-- `unsigned long` -/
abbrev Word := BitVec 32

/-- `struct ext2_superblock`, the fields behind the numbers and counters. -/
structure Ext2Superblock where
  sFirstDataBlock : Nat
  sBlocksPerGroup : Nat
  sInodesPerGroup : Nat
  sFreeBlocksCount : BitVec 32
  sFreeInodesCount : BitVec 32

/-- `struct ext2_group_desc`, the fields about its bitmaps. -/
structure Ext2GroupDesc where
  bgBlockBitmap : Nat
  bgInodeBitmap : Nat
  bgFreeBlocksCount : BitVec 16
  bgFreeInodesCount : BitVec 16

/-- `struct ext2_data` with the device below it. -/
structure Ext2Data where
  sb : Ext2Superblock
  groupsCount : Nat
  blkSize : Nat
  groups : Nat → Ext2GroupDesc
  disk : Nat → Bitmap 32

/-- Whether `bdev_read` and `bdev_write` of a bitmap succeed. -/
structure BitmapIo where
  readOk : Bool
  writeOk : Bool

/-- `*block`, where it has been stored, and the error that is returned. -/
structure BitmapCall where
  data : Ext2Data
  number : Option (BitVec 32)
  err : Option Errno

/-- The block of a group's bitmap. -/
def Ext2GroupDesc.bitmap (desc : Ext2GroupDesc) : BitmapKind → Nat
  | .block => desc.bgBlockBitmap
  | .inode => desc.bgInodeBitmap

/-- The free counter of a group. -/
def Ext2GroupDesc.free (desc : Ext2GroupDesc) : BitmapKind → BitVec 16
  | .block => desc.bgFreeBlocksCount
  | .inode => desc.bgFreeInodesCount

/-- The free counter of a group replaced. -/
def Ext2GroupDesc.setFree (desc : Ext2GroupDesc)
    (free : BitVec 16) : BitmapKind → Ext2GroupDesc
  | .block => { desc with bgFreeBlocksCount := free }
  | .inode => { desc with bgFreeInodesCount := free }

/-- How many numbers belong to a group. -/
def Ext2Superblock.perGroup (sb : Ext2Superblock) : BitmapKind → Nat
  | .block => sb.sBlocksPerGroup
  | .inode => sb.sInodesPerGroup

/-- The free counter of the superblock. -/
def Ext2Superblock.free (sb : Ext2Superblock) : BitmapKind → BitVec 32
  | .block => sb.sFreeBlocksCount
  | .inode => sb.sFreeInodesCount

/-- The free counter of the superblock replaced. -/
def Ext2Superblock.setFree (sb : Ext2Superblock)
    (free : BitVec 32) : BitmapKind → Ext2Superblock
  | .block => { sb with sFreeBlocksCount := free }
  | .inode => { sb with sFreeInodesCount := free }

namespace Ext2Data

variable (data : Ext2Data) (kind : BitmapKind)

/-- The words of a group's bitmap on the device. -/
def words (group : Nat) : Bitmap 32 :=
  data.disk ((data.groups group).bitmap kind)

/-- One bit of a group's bitmap on the device. -/
def bit (group index : Nat) : Bool :=
  (data.words kind group).bit index

/-- The bits of a block. -/
def bitsPerBlock : Nat :=
  32 * (data.blkSize / 4)

/-- Both counters of a group's free numbers are changed. -/
def count (group : Nat) (groupChange : BitVec 16)
    (change : BitVec 32) : Ext2Data :=
  { data with
    sb := data.sb.setFree (data.sb.free kind + change) kind
    groups := fun other =>
      if other = group then
        (data.groups group).setFree
          ((data.groups group).free kind + groupChange) kind
      else
        data.groups other }

/-- The bitmap of a group replaced on the device. -/
def store (group : Nat) (words : Bitmap 32) : Ext2Data :=
  { data with
    disk := fun block =>
      if block = (data.groups group).bitmap kind then words
      else data.disk block }

/-- `data->groups[group]` is an element of the array. -/
def groupIndex (group : Int) : Option Nat :=
  if 0 ≤ group ∧ group < data.groupsCount then some group.toNat else none

end Ext2Data

/-- `ffz_bit`, of a word that has a zero bit. -/
def ffzBit (base : Word) : Nat :=
  ((List.range 32).find? fun idx => !base.getLsbD idx).getD 0

/-- `set_bit(&buf[i], idx)` -/
def setBit (buf : Bitmap 32) (i idx : Nat) : Bitmap 32 :=
  buf.setBit (32 * i + idx)

/--
`clear_bit(&buf[i], idx)`.  `btr` on memory takes the index as that of a bit
string, so that a negative one lies in an earlier word, and in front of `buf`
in no bit of it.
-/
def clearBit (buf : Bitmap 32) (i : Nat) (idx : Int) : Bitmap 32 :=
  if 0 ≤ 32 * (i : Int) + idx then buf.clearBit (32 * (i : Int) + idx).toNat
  else buf

/--
`test_bit(base, idx)`.  `bt` works on a copy of `base` on the stack; a negative
index lies in the word `below` it.
-/
def testBit (below base : Word) (idx : Int) : Bool :=
  if 0 ≤ idx then base.getLsbD idx.toNat else below.getLsbD (32 + idx).toNat

/-- `block_bitmap_read` and `inode_bitmap_read` -/
def bitmapRead (kind : BitmapKind) (data : Ext2Data) (group : Nat)
    (io : BitmapIo) : Except Errno (Bitmap 32) :=
  if data.groupsCount ≤ group then .error .EINVAL
  else if io.readOk then .ok (data.words kind group)
  else .error Errno.EIO

/-- `block_bitmap_write` and `inode_bitmap_write` -/
def bitmapWrite
    (kind : BitmapKind) (data : Ext2Data) (buf : Bitmap 32) (group : Nat)
    (io : BitmapIo) : Ext2Data × Option Errno :=
  if data.groupsCount ≤ group then (data, some .EINVAL)
  else if io.writeOk then (data.store kind group buf, none)
  else (data, some Errno.EIO)

/-- The loop of both functions that looks for the group with most free. -/
def mostFree (kind : BitmapKind) (data : Ext2Data) (group : Int) : Int :=
  ((List.range data.groupsCount).foldl
    (fun (best : BitVec 16 × Int) (i : Nat) =>
      if best.1 < (data.groups i).free kind then
        ((data.groups i).free kind, (i : Int))
      else
        best)
    (0, group)).2

/-- The loop that looks for a word with a zero bit. -/
def findZero (blkSize : Nat) (buf : Bitmap 32) : Option (Nat × Nat) :=
  ((List.range (blkSize / 4)).find? fun i => buf i != BitVec.allOnes 32).map
    fun i => (i, ffzBit (buf i))

/-- What both functions do under the lock of a group. -/
def allocIn (kind : BitmapKind) (data : Ext2Data) (group : Nat)
    (io : BitmapIo) : BitmapCall :=
  match bitmapRead kind data group io with
  | .error err =>
    { data := data, number := none, err := some err }
  | .ok buf =>
    match findZero data.blkSize buf with
    | none =>
      { data := data, number := none, err := some .ENOSPC }
    | some (i, j) =>
      let written :=
        bitmapWrite kind (data.count kind group (-1) (-1))
          (setBit buf i j) group io
      { data := written.1
        number :=
          some
            (BitVec.ofNat 32 (group * data.sb.perGroup kind + i * 32 + j + 1))
        err := written.2 }

/-- The group that `block_alloc` takes. -/
def blockGroup (data : Ext2Data) (group : Nat) : Int :=
  if (data.groups group).free .block = 0 then mostFree .block data group
  else group

/-- `block_alloc` -/
def blockAlloc (data : Ext2Data) (group : Int)
    (io : BitmapIo) : Option BitmapCall :=
  (data.groupIndex group).bind fun group =>
    (data.groupIndex (blockGroup data group)).map fun group =>
      if (data.groups group).free .block = 0 then
        { data := data, number := none, err := some .ENOSPC }
      else
        allocIn .block data group io

/-- The group that `inode_alloc` takes. -/
def inodeGroup (data : Ext2Data) (group : Int) : Int :=
  if group < 0 then mostFree .inode data group else group

/-- `inode_alloc` -/
def inodeAlloc (data : Ext2Data) (group : Int)
    (io : BitmapIo) : Option BitmapCall :=
  (data.groupIndex (inodeGroup data group)).map fun group =>
    if (data.groups group).free .inode = 0 then
      { data := data, number := none, err := some .ENOSPC }
    else
      allocIn .inode data group io

/-- `EXT2_GET_BLOCK_GROUP` and `EXT2_GET_INODE_GROUP` -/
def groupOf (kind : BitmapKind) (data : Ext2Data) (number : BitVec 32) : Nat :=
  (number - 1).toNat / data.sb.perGroup kind

/-- The word of a group's bitmap that a free works on. -/
def freeWord (kind : BitmapKind) (data : Ext2Data) (number : BitVec 32) : Nat :=
  (number - BitVec.ofNat 32 (groupOf kind data number * data.sb.perGroup kind) -
      1).toNat / 32

/-- The index of the bit in that word. -/
def freeIndex (number : BitVec 32) : Int :=
  (number.toNat % 32 : Nat) - 1

/-- `block_free` and `inode_free`; `below` is the word that `bt` may reach. -/
def bitmapFree
    (kind : BitmapKind) (data : Ext2Data) (number : BitVec 32) (io : BitmapIo)
    (below : Word) : Option BitmapCall :=
  (data.groupIndex (groupOf kind data number)).map fun group =>
    match bitmapRead kind data group io with
    | .error err =>
      { data := data, number := none, err := some err }
    | .ok buf =>
      let i := freeWord kind data number
      let j := freeIndex number
      if testBit below (buf i) j then
        let written :=
          bitmapWrite kind (data.count kind group 1 1) (clearBit buf i j)
            group io
        { data := written.1, number := none, err := written.2 }
      else
        { data := data, number := none, err := none }

/-- `block_free` -/
def blockFree (data : Ext2Data) (block : BitVec 32) (io : BitmapIo)
    (below : Word) : Option BitmapCall :=
  bitmapFree .block data block io below

/-- `inode_free` -/
def inodeFree (data : Ext2Data) (ino : BitVec 32) (io : BitmapIo)
    (below : Word) : Option BitmapCall :=
  bitmapFree .inode data ino io below

/-- The group that is taken for a requested one. -/
def BitmapKind.group (kind : BitmapKind) (data : Ext2Data)
    (group : Int) : Int :=
  match kind with
  | .block => blockGroup data group.toNat
  | .inode => inodeGroup data group

/-- `block_alloc` or `inode_alloc` -/
def BitmapKind.alloc (kind : BitmapKind) (data : Ext2Data) (group : Int)
    (io : BitmapIo) : Option BitmapCall :=
  match kind with
  | .block => blockAlloc data group io
  | .inode => inodeAlloc data group io

/-- `block_free` or `inode_free` -/
def BitmapKind.release
    (kind : BitmapKind) (data : Ext2Data) (number : BitVec 32) (io : BitmapIo)
    (below : Word) : Option BitmapCall :=
  match kind with
  | .block => blockFree data number io below
  | .inode => inodeFree data number io below

end Idylla.Ext2
