import Idylla.Errno
import Mathlib.Algebra.Group.Nat.Defs

namespace Idylla.Ext2

/-!
# Mounting a volume

`ext2_mount` takes the sizes of the volume from the superblock as it is on the
device.  `kalloc` does not fail: it panics.
-/

/-- `struct ext2_superblock`, the fields that the driver uses. -/
structure DiskSuperblock where
  sInodesCount : BitVec 32
  sBlocksCount : BitVec 32
  sFreeBlocksCount : BitVec 32
  sFreeInodesCount : BitVec 32
  sFirstDataBlock : BitVec 32
  sLogBlockSize : BitVec 32
  sBlocksPerGroup : BitVec 32
  sInodesPerGroup : BitVec 32
  sMntCount : BitVec 16
  sMagic : BitVec 16
  sState : BitVec 16
  sErrors : BitVec 16
  sInodeSize : BitVec 16

/-- `struct ext2_group_desc`, the fields that the driver uses. -/
structure DiskGroupDesc where
  bgBlockBitmap : BitVec 32
  bgInodeBitmap : BitVec 32
  bgInodeTable : BitVec 32
  bgFreeBlocksCount : BitVec 16
  bgFreeInodesCount : BitVec 16

/-- `struct ext2_data`; `groups_count` and `groups_blocks` are of type `int`. -/
structure MountedData where
  sb : DiskSuperblock
  spb : BitVec 16
  blkSize : BitVec 16
  groupsCount : BitVec 32
  groupsBlocks : BitVec 32
  groups : Nat → DiskGroupDesc

/-- The quotient; nothing where the processor traps. -/
def divide (number divisor : BitVec 32) : Option (BitVec 32) :=
  if divisor = 0 then none else some (number / divisor)

/-- The remainder; nothing where the processor traps. -/
def remainder (number divisor : BitVec 32) : Option (BitVec 32) :=
  if divisor = 0 then none else some (number % divisor)

/-- `ROUND_UP` of `uint32_t` numbers. -/
def roundUp32 (number unit : BitVec 32) : Option (BitVec 32) :=
  (remainder number unit).map fun rest =>
    if rest ≠ 0 then number + (unit - rest) else number

/--
`EXT2_BLOCK_SIZE`, as it is stored in the `uint16_t` field; the shift takes its
count modulo 32.
-/
def DiskSuperblock.blockSize (sb : DiskSuperblock) : BitVec 16 :=
  ((1024 : BitVec 32) <<< (sb.sLogBlockSize.toNat % 32)).setWidth 16

/-- The number of groups, before it becomes an `int`. -/
def DiskSuperblock.groupsCount (sb : DiskSuperblock) : Option (BitVec 32) :=
  (roundUp32 sb.sBlocksCount sb.sBlocksPerGroup).bind fun rounded =>
    divide rounded sb.sBlocksPerGroup

/-- The number of blocks for the descriptors of so many groups. -/
def DiskSuperblock.groupsBlocks (sb : DiskSuperblock)
    (groupsCount : BitVec 32) : Option (BitVec 32) :=
  let blkSize := sb.blockSize.setWidth 32
  (roundUp32 (groupsCount * 32) blkSize).bind fun rounded =>
    divide rounded blkSize

/-- What the device answers during a mount. -/
structure MountIo where
  openErr : Option Errno
  superRead : Bool
  groupsRead : Bool
  superWritten : Bool

/-- How a call of `ext2_mount` ends. -/
inductive MountResult where
  | mounted (data : MountedData)
  | failed (err : Errno)
  | panicked
  | divideError

/-- Whether a mount is read-only, by its flags or by the superblock. -/
def DiskSuperblock.mountsReadOnly (sb : DiskSuperblock)
    (flagged : Bool) : Bool :=
  flagged || (sb.sState ≠ 1 && sb.sErrors == 2)

/-- The end of `ext2_mount`, once the groups have been read. -/
def finishMount (io : MountIo) (flagged : Bool)
    (data : MountedData) : MountResult :=
  if data.sb.mountsReadOnly flagged then
    .mounted data
  else if io.superWritten then
    .mounted
      { data with
        sb :=
          { data.sb with
            sState := 2
            sMntCount := data.sb.sMntCount + 1 } }
  else
    .failed Errno.EIO

/-- `ext2_mount` of a volume with this superblock and these descriptors. -/
def ext2Mount (io : MountIo) (flagged : Bool) (sb : DiskSuperblock)
    (groups : Nat → DiskGroupDesc) : MountResult :=
  match io.openErr with
  | some err => .failed err
  | none =>
    if !io.superRead then
      .failed Errno.EIO
    else if sb.sMagic ≠ 0xEF53 then
      .failed .EINVAL
    else if sb.sInodeSize ≠ 128 then
      .failed .EINVAL
    else if sb.sState ≠ 1 ∧ sb.sErrors = 3 then
      .panicked
    else
      match sb.groupsCount with
      | none => .divideError
      | some groupsCount =>
        match sb.groupsBlocks groupsCount with
        | none => .divideError
        | some groupsBlocks =>
          if !io.groupsRead then
            .failed Errno.EIO
          else
            finishMount io flagged
              { sb := sb
                spb := sb.blockSize / 512
                blkSize := sb.blockSize
                groupsCount := groupsCount
                groupsBlocks := groupsBlocks
                groups := groups }

/-- `EXT2_GET_INODE_GROUP` -/
def MountedData.inodeGroup (data : MountedData)
    (num : BitVec 32) : Option (BitVec 32) :=
  divide (num - 1) data.sb.sInodesPerGroup

/-- `EXT2_GET_BLOCK_GROUP` -/
def MountedData.blockGroup (data : MountedData)
    (block : BitVec 32) : Option (BitVec 32) :=
  divide (block - 1) data.sb.sBlocksPerGroup

/-- `EXT2_GET_SECTOR_NUM` -/
def MountedData.sectorNum (data : MountedData)
    (block : BitVec 32) : BitVec 32 :=
  block * data.spb.setWidth 32

/-- `data->groups[group]`; nothing outside the array. -/
def MountedData.group? (data : MountedData)
    (group : Int) : Option DiskGroupDesc :=
  if 0 ≤ group ∧ group < data.groupsCount.toInt then
    some (data.groups group.toNat)
  else
    none

section Mount

variable {io : MountIo} {flagged : Bool} {sb : DiskSuperblock}
  {groups : Nat → DiskGroupDesc} {data : MountedData}

/-- What `ext2_mount` leaves of the superblock, but for its state. -/
structure DiskSuperblock.SameSizes (sb mounted : DiskSuperblock) : Prop where
  inodesCount : mounted.sInodesCount = sb.sInodesCount
  blocksCount : mounted.sBlocksCount = sb.sBlocksCount
  blocksPerGroup : mounted.sBlocksPerGroup = sb.sBlocksPerGroup
  inodesPerGroup : mounted.sInodesPerGroup = sb.sInodesPerGroup

/-- What a mount that returns 0 has worked out, without a division by zero. -/
structure MountedSizes
    (sb : DiskSuperblock)
    (data : MountedData) : Prop where
  sizes : sb.SameSizes data.sb
  inodeSize : sb.sInodeSize = 128
  blkSize : data.blkSize = sb.blockSize
  spb : data.spb = sb.blockSize / 512
  perGroup : sb.sBlocksPerGroup ≠ 0
  someBytes : sb.blockSize ≠ 0
  groupsCount : sb.groupsCount = some data.groupsCount

theorem roundUp32_some {number unit rounded : BitVec 32}
    (isRounded : roundUp32 number unit = some rounded) :
    unit ≠ 0 ∧
      rounded = if number % unit ≠ 0 then number + (unit - number % unit)
        else number := by
  unfold roundUp32 remainder at isRounded
  split at isRounded
  next isZero => cases isRounded
  next notZero =>
    cases isRounded
    exact ⟨notZero, rfl⟩

theorem finishMount_mounted {before : MountedData}
    (mounted : finishMount io flagged before = .mounted data) :
    before.sb.SameSizes data.sb ∧ data.spb = before.spb ∧
      data.blkSize = before.blkSize ∧
      data.groupsCount = before.groupsCount := by
  unfold finishMount at mounted
  split at mounted
  · cases mounted
    exact ⟨⟨rfl, rfl, rfl, rfl⟩, rfl, rfl, rfl⟩
  · split at mounted
    · cases mounted
      exact ⟨⟨rfl, rfl, rfl, rfl⟩, rfl, rfl, rfl⟩
    · cases mounted

/-- A mount that returns 0 has divided by nonzero numbers only. -/
theorem ext2Mount_mounted
    (mounted : ext2Mount io flagged sb groups = .mounted data) :
    MountedSizes sb data := by
  unfold ext2Mount at mounted
  cases opened : io.openErr with
  | some err =>
    rw [opened] at mounted
    cases mounted
  | none =>
    rw [opened] at mounted
    dsimp only at mounted
    split at mounted
    · cases mounted
    split at mounted
    · cases mounted
    split at mounted
    · cases mounted
    next isInodeSize =>
      split at mounted
      · cases mounted
      cases isCount : sb.groupsCount with
      | none =>
        rw [isCount] at mounted
        cases mounted
      | some count =>
        rw [isCount] at mounted
        dsimp only at mounted
        cases isBlocks : sb.groupsBlocks count with
        | none =>
          rw [isBlocks] at mounted
          cases mounted
        | some blocks =>
          rw [isBlocks] at mounted
          dsimp only at mounted
          split at mounted
          · cases mounted
          obtain ⟨sizes, spb, blkSize, groupsCount⟩ :=
            finishMount_mounted mounted
          obtain ⟨rounded, isRounded, -⟩ := Option.bind_eq_some_iff.mp isCount
          obtain ⟨bytes, isBytes, -⟩ := Option.bind_eq_some_iff.mp isBlocks
          refine
            { sizes := sizes
              inodeSize := Classical.not_not.mp isInodeSize
              blkSize := blkSize
              spb := spb
              perGroup := (roundUp32_some isRounded).1
              someBytes := fun isZero => (roundUp32_some isBytes).1 ?_
              groupsCount := groupsCount ▸ isCount }
          rw [isZero]
          rfl

end Mount

end Idylla.Ext2
