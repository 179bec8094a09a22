import Idylla.Ext2.InodeTable
import Idylla.Ext2.BitmapCalls

namespace Idylla.Ext2

open Idylla.Lib

/-!
# Calls on a mounted volume

A mount checks none of the counts of the superblock.  Whether a call divides by
zero or leaves the array of groups is a matter of these counts and its number.
-/

/-- The descriptor of a group, as the functions on bitmaps take it. -/
def DiskGroupDesc.bitmaps (desc : DiskGroupDesc) : Ext2GroupDesc where
  bgBlockBitmap := desc.bgBlockBitmap.toNat
  bgInodeBitmap := desc.bgInodeBitmap.toNat
  bgFreeBlocksCount := desc.bgFreeBlocksCount
  bgFreeInodesCount := desc.bgFreeInodesCount

/-- A mounted volume, as the functions on bitmaps take it. -/
def MountedData.bitmaps (data : MountedData)
    (disk : Nat → Bitmap 32) : Ext2Data where
  sb :=
    { sFirstDataBlock := data.sb.sFirstDataBlock.toNat
      sBlocksPerGroup := data.sb.sBlocksPerGroup.toNat
      sInodesPerGroup := data.sb.sInodesPerGroup.toNat
      sFreeBlocksCount := data.sb.sFreeBlocksCount
      sFreeInodesCount := data.sb.sFreeInodesCount }
  groupsCount := data.groupsCount.toInt.toNat
  blkSize := data.blkSize.toNat
  groups := fun group => (data.groups group).bitmaps
  disk := disk

/-- The calls that take a number of an inode or of a block. -/
inductive MountedCall where
  | inodeRead (num : BitVec 32)
  | inodeWrite (num : BitVec 32) (inode : InodeBytes)
  /-- `block_alloc` in the group of an inode, as the driver calls it. -/
  | blockAllocFor (num : BitVec 32)
  /-- `block_alloc` in the group of a block. -/
  | blockAlloc (block : BitVec 32)
  | blockFree (block : BitVec 32)

/-- The inode number is accepted, or the block number is below the count. -/
def MountedCall.Covered (call : MountedCall) (data : MountedData) : Prop :=
  match call with
  | .inodeRead num | .inodeWrite num _ | .blockAllocFor num =>
    ¬ data.refuses num
  | .blockAlloc block | .blockFree block => block < data.sb.sBlocksCount

/-- Whatever the device does, the call neither traps nor leaves the array. -/
def MountedCall.Safe (call : MountedCall) (data : MountedData) : Prop :=
  match call with
  | .inodeRead num =>
    ∀ device readOk buf, (inodeDoRead data device readOk buf num).isSome
  | .inodeWrite num inode =>
    ∀ sent device readOk buf,
      (inodeDoWrite data sent device readOk buf inode num).isSome
  | .blockAllocFor num =>
    ∀ disk io,
      ((data.inodeGroup num).bind fun group =>
        Idylla.Ext2.blockAlloc (data.bitmaps disk) group.toInt io).isSome
  | .blockAlloc block =>
    ∀ disk io,
      ((data.blockGroup block).bind fun group =>
        Idylla.Ext2.blockAlloc (data.bitmaps disk) group.toInt io).isSome
  | .blockFree block =>
    ∀ disk io below,
      ((data.blockGroup block).bind fun _ =>
        Idylla.Ext2.blockFree (data.bitmaps disk) block io below).isSome

/-- The number of groups that the blocks of a volume make. -/
def DiskSuperblock.groupTotal (sb : DiskSuperblock) : Nat :=
  (sb.sBlocksCount.toNat + sb.sBlocksPerGroup.toNat - 1) /
    sb.sBlocksPerGroup.toNat

/-- The blocks of all groups and the groups can be counted. -/
structure DiskSuperblock.Countable (sb : DiskSuperblock) : Prop where
  blocks : sb.groupTotal * sb.sBlocksPerGroup.toNat < 2 ^ 32
  groups : sb.groupTotal < 2 ^ 31

/-- The number of a call belongs to a group of the volume. -/
def MountedCall.SuitsSuperblock (call : MountedCall)
    (sb : DiskSuperblock) : Prop :=
  sb.Countable ∧ match call with
    | .inodeRead num | .inodeWrite num _ | .blockAllocFor num =>
      0 < sb.sInodesPerGroup.toNat ∧
        (num.toNat - 1) / sb.sInodesPerGroup.toNat < sb.groupTotal
    | .blockAlloc block | .blockFree block => block ≠ 0

section Calls

variable {sb : DiskSuperblock} {data : MountedData} {num block : BitVec 32}

/-- How many groups `ext2_mount` counts. -/
theorem groupsCount_toNat {count : BitVec 32}
    (isCount : sb.groupsCount = some count) :
    count.toNat =
      if sb.groupTotal * sb.sBlocksPerGroup.toNat < 2 ^ 32 then sb.groupTotal
      else 0 := by
  obtain ⟨rounded, isRounded, isQuotient⟩ := Option.bind_eq_some_iff.mp isCount
  obtain ⟨notZero, isSum⟩ := roundUp32_some isRounded
  have positive : 0 < sb.sBlocksPerGroup.toNat :=
    Nat.pos_of_ne_zero fun isZero => notZero (BitVec.eq_of_toNat_eq isZero)
  unfold divide at isQuotient
  rw [if_neg notZero] at isQuotient
  cases isQuotient
  rw [BitVec.toNat_udiv]
  have below := Nat.mod_lt sb.sBlocksCount.toNat positive
  have parts := Nat.div_add_mod' sb.sBlocksCount.toNat sb.sBlocksPerGroup.toNat
  have isRest : (sb.sBlocksCount % sb.sBlocksPerGroup).toNat =
        sb.sBlocksCount.toNat % sb.sBlocksPerGroup.toNat :=
    BitVec.toNat_umod
  by_cases whole : sb.sBlocksCount % sb.sBlocksPerGroup = 0
  · rw [whole] at isRest
    have noRest : sb.sBlocksCount.toNat % sb.sBlocksPerGroup.toNat = 0 :=
      isRest.symm
    have isTotal :
        sb.groupTotal = sb.sBlocksCount.toNat / sb.sBlocksPerGroup.toNat :=
      ((Nat.div_mod_unique positive).mpr
        ⟨show sb.sBlocksPerGroup.toNat - 1 + _ = _ by
          rw [Nat.mul_comm]
          omega,
        by omega⟩).1
    rw [isSum, if_neg fun differs => differs whole, isTotal, if_pos (by omega)]
  · have someRest : sb.sBlocksCount.toNat % sb.sBlocksPerGroup.toNat ≠ 0 :=
      fun isZero => whole (BitVec.eq_of_toNat_eq (isRest.trans isZero))
    have isTotal :
        sb.groupTotal = sb.sBlocksCount.toNat / sb.sBlocksPerGroup.toNat + 1 :=
      ((Nat.div_mod_unique positive).mpr
        ⟨show sb.sBlocksCount.toNat % sb.sBlocksPerGroup.toNat - 1 + _ = _ by
          rw [Nat.mul_comm, Nat.succ_mul]
          omega,
        by omega⟩).1
    have isNext : sb.groupTotal * sb.sBlocksPerGroup.toNat =
          sb.sBlocksCount.toNat +
            (sb.sBlocksPerGroup.toNat -
              sb.sBlocksCount.toNat % sb.sBlocksPerGroup.toNat) := by
      rw [isTotal, Nat.succ_mul]
      omega
    have isPadding :
        (sb.sBlocksPerGroup - sb.sBlocksCount % sb.sBlocksPerGroup).toNat =
          sb.sBlocksPerGroup.toNat -
            sb.sBlocksCount.toNat % sb.sBlocksPerGroup.toNat := by
      rw [BitVec.toNat_sub_of_le (BitVec.le_def.mpr (by omega)), isRest]
    rw [isSum, if_pos whole, BitVec.toNat_add, isPadding, ← isNext]
    by_cases fits : sb.groupTotal * sb.sBlocksPerGroup.toNat < 2 ^ 32
    · rw [if_pos fits, Nat.mod_eq_of_lt fits, Nat.mul_div_cancel _ positive]
    · rw [if_neg fits]
      exact Nat.div_eq_of_lt (by omega)

theorem hasGroup_iff (sizes : MountedSizes sb data) (group : Nat) :
    data.HasGroup group ↔ sb.Countable ∧ group < sb.groupTotal := by
  have isCount := groupsCount_toNat sizes.groupsCount
  unfold MountedData.HasGroup
  rw [BitVec.toInt_eq_toNat_cond]
  constructor
  · intro inArray
    split at inArray <;> split at isCount
    · exact ⟨⟨‹_›, by omega⟩, by omega⟩
    · omega
    · omega
    · omega
  · rintro ⟨⟨blocks, groups⟩, below⟩
    rw [if_pos blocks] at isCount
    omega

theorem inodeGroup_toNat (accepted : ¬ data.refuses num)
    (someInodes : 0 < data.sb.sInodesPerGroup.toNat) :
    ∃ group,
      data.inodeGroup num = some group ∧
        group.toNat = data.groupNumber num := by
  have notZero : data.sb.sInodesPerGroup ≠ 0 := by
    intro isZero
    rw [isZero] at someInodes
    exact Nat.lt_irrefl 0 someInodes
  have positive : 1 ≤ num.toNat :=
    Nat.not_lt.mp fun tooSmall => accepted (.inl (BitVec.lt_def.mpr tooSmall))
  have isBefore : (num - 1).toNat = num.toNat - 1 :=
    BitVec.toNat_sub_of_le (BitVec.le_def.mpr positive)
  unfold MountedData.inodeGroup divide
  rw [if_neg notZero]
  refine ⟨_, rfl, ?_⟩
  rw [BitVec.toNat_udiv, isBefore]
  rfl

theorem validInode_iff (accepted : ¬ data.refuses num) :
    ValidInode data num ↔
      0 < data.sb.sInodesPerGroup.toNat ∧
        data.HasGroup (data.groupNumber num) := by
  have positive : 1 ≤ num.toNat :=
    Nat.not_lt.mp fun tooSmall => accepted (.inl (BitVec.lt_def.mpr tooSmall))
  have inCount : num.toNat ≤ data.sb.sInodesCount.toNat :=
    Nat.not_lt.mp fun tooLarge => accepted (.inr (BitVec.lt_def.mpr tooLarge))
  exact ⟨fun valid => ⟨valid.someInodes, valid.hasGroup⟩,
    fun both => ⟨positive, inCount, both.1, both.2⟩⟩

theorem hasGroup_of_group? {group : BitVec 32}
    (isFound : (data.group? group.toInt).isSome) :
    data.HasGroup group.toNat := by
  unfold MountedData.group? at isFound
  split at isFound
  next inArray =>
    unfold MountedData.HasGroup
    have isNat : group.toInt = group.toNat := by
      have lower := inArray.1
      rw [BitVec.toInt_eq_toNat_cond] at lower ⊢
      split at lower
      · rw [if_pos ‹_›]
      · omega
    omega
  next outside => cases isFound

theorem someInodes_of_group {group : BitVec 32}
    (isGroup : data.inodeGroup num = some group) :
    0 < data.sb.sInodesPerGroup.toNat := by
  refine Nat.pos_of_ne_zero fun isZero => ?_
  unfold MountedData.inodeGroup divide at isGroup
  rw [if_pos (BitVec.eq_of_toNat_eq isZero)] at isGroup
  cases isGroup

theorem inodePlace_isSome_iff (someBytes : 0 < data.blkSize.toNat)
    (accepted : ¬ data.refuses num) :
    (inodePlace data num).isSome ↔ ValidInode data num := by
  constructor
  · intro isSome
    obtain ⟨place, isPlace⟩ := Option.isSome_iff_exists.mp isSome
    obtain ⟨group, isGroup, inside⟩ := Option.bind_eq_some_iff.mp isPlace
    obtain ⟨index, isIndex, inside⟩ := Option.bind_eq_some_iff.mp inside
    obtain ⟨offset, isOffset, inside⟩ := Option.bind_eq_some_iff.mp inside
    obtain ⟨byte, isByte, inside⟩ := Option.bind_eq_some_iff.mp inside
    obtain ⟨desc, isFound, -⟩ := Option.map_eq_some_iff.mp inside
    have someInodes := someInodes_of_group isGroup
    obtain ⟨other, isOther, isNumber⟩ := inodeGroup_toNat accepted someInodes
    cases isGroup.symm.trans isOther
    have hasGroup := hasGroup_of_group? (Option.isSome_of_eq_some isFound)
    rw [isNumber] at hasGroup
    exact (validInode_iff accepted).mpr ⟨someInodes, hasGroup⟩
  · intro valid
    obtain ⟨place, isPlace, -⟩ := inodePlace_eq someBytes valid
    exact Option.isSome_of_eq_some isPlace

theorem hasGroup_iff_lt (disk : Nat → Bitmap 32) (group : Nat) :
    data.HasGroup group ↔ group < (data.bitmaps disk).groupsCount := by
  unfold MountedData.HasGroup MountedData.bitmaps
  dsimp only
  omega

theorem blockAlloc_isSome_iff (disk : Nat → Bitmap 32) (io : BitmapIo)
    (group : BitVec 32) :
    (blockAlloc (data.bitmaps disk) group.toInt io).isSome ↔
      data.HasGroup group.toNat := by
  unfold blockAlloc
  constructor
  · intro isSome
    obtain ⟨call, isCall⟩ := Option.isSome_iff_exists.mp isSome
    obtain ⟨index, isIndex, -⟩ := Option.bind_eq_some_iff.mp isCall
    obtain ⟨isGroup, below⟩ := groupIndex_some.mp isIndex
    have isNat : group.toNat = index := by
      rw [BitVec.toInt_eq_toNat_cond] at isGroup
      split at isGroup <;> omega
    rw [isNat]
    exact (hasGroup_iff_lt disk index).mpr below
  · intro hasGroup
    have isFound := data.group?_eq hasGroup
    have below := (hasGroup_iff_lt disk _).mp hasGroup
    have inArray : 0 ≤ group.toInt := by
      unfold MountedData.group? at isFound
      split at isFound
      next inside => exact inside.1
      next outside => cases isFound
    have isNat : group.toInt = group.toNat := by
      rw [BitVec.toInt_eq_toNat_cond] at inArray ⊢
      split at inArray
      · rw [if_pos ‹_›]
      · omega
    have chosen : ∃ index : Nat,
          blockGroup (data.bitmaps disk) group.toNat = index ∧
            index < (data.bitmaps disk).groupsCount := by
      unfold blockGroup
      split
      · rcases mostFree_cases .block (data.bitmaps disk) group.toNat with
          ⟨same, -⟩ | ⟨index, inside, same, -⟩
        · exact ⟨group.toNat, same, below⟩
        · exact ⟨index, same, inside⟩
      · exact ⟨group.toNat, rfl, below⟩
    obtain ⟨index, isIndex, inside⟩ := chosen
    rw [isNat, groupIndex_of_lt below, Option.bind_some, isIndex,
      groupIndex_of_lt inside]
    rfl

theorem blockFree_isSome_iff (disk : Nat → Bitmap 32)
    (io : BitmapIo) (below : Word) (block : BitVec 32) :
    (blockFree (data.bitmaps disk) block io below).isSome ↔
      data.HasGroup ((block - 1).toNat / data.sb.sBlocksPerGroup.toNat) := by
  have isCall : blockFree (data.bitmaps disk) block io below =
        BitmapKind.block.release (data.bitmaps disk) block io below :=
    rfl
  rw [isCall, release_eq, hasGroup_iff_lt disk]
  split
  next inside => exact ⟨fun _ => inside, fun _ => rfl⟩
  next outside =>
    exact ⟨fun isSome => (by cases isSome), fun inside => absurd inside outside⟩

theorem blockGroup_lt_iff (sizes : MountedSizes sb data)
    (below : block < sb.sBlocksCount) (countable : sb.Countable) :
    (block - 1).toNat / sb.sBlocksPerGroup.toNat < sb.groupTotal ↔
      block ≠ 0 := by
  have positive : 0 < sb.sBlocksPerGroup.toNat :=
    Nat.pos_of_ne_zero fun isZero =>
      sizes.perGroup (BitVec.eq_of_toNat_eq isZero)
  have inCount := BitVec.lt_def.mp below
  constructor
  · rintro inTotal rfl
    have isLast : (0 - 1 : BitVec 32).toNat = 2 ^ 32 - 1 := by decide
    rw [isLast, Nat.div_lt_iff_lt_mul positive] at inTotal
    have blocks := countable.blocks
    omega
  · intro notFirst
    have isPositive : 1 ≤ block.toNat :=
      Nat.pos_of_ne_zero fun isZero => notFirst (BitVec.eq_of_toNat_eq isZero)
    have isBefore : (block - 1).toNat = block.toNat - 1 :=
      BitVec.toNat_sub_of_le (BitVec.le_def.mpr isPositive)
    rw [isBefore, Nat.div_lt_iff_lt_mul positive]
    have parts :=
      Nat.div_add_mod' (sb.sBlocksCount.toNat + sb.sBlocksPerGroup.toNat - 1)
        sb.sBlocksPerGroup.toNat
    have rest :=
      Nat.mod_lt (sb.sBlocksCount.toNat + sb.sBlocksPerGroup.toNat - 1) positive
    unfold DiskSuperblock.groupTotal
    omega

theorem blockHasGroup_iff (sizes : MountedSizes sb data)
    (below : block < data.sb.sBlocksCount) :
    data.HasGroup ((block - 1).toNat / data.sb.sBlocksPerGroup.toNat) ↔
      sb.Countable ∧ block ≠ 0 := by
  rw [sizes.sizes.blocksCount] at below
  rw [sizes.sizes.blocksPerGroup, hasGroup_iff sizes]
  exact and_congr_right fun countable => blockGroup_lt_iff sizes below countable

theorem blockGroup_eq (sizes : MountedSizes sb data) (block : BitVec 32) :
    ∃ group,
      data.blockGroup block = some group ∧
        group.toNat = (block - 1).toNat / data.sb.sBlocksPerGroup.toNat := by
  have notZero : data.sb.sBlocksPerGroup ≠ 0 := by
    rw [sizes.sizes.blocksPerGroup]
    exact sizes.perGroup
  unfold MountedData.blockGroup divide
  rw [if_neg notZero]
  exact ⟨_, rfl, BitVec.toNat_udiv⟩

theorem validInode_iff_superblock (sizes : MountedSizes sb data)
    (accepted : ¬ data.refuses num) :
    ValidInode data num ↔
      sb.Countable ∧ 0 < sb.sInodesPerGroup.toNat ∧
        (num.toNat - 1) / sb.sInodesPerGroup.toNat < sb.groupTotal := by
  rw [validInode_iff accepted, hasGroup_iff sizes]
  unfold MountedData.groupNumber
  rw [sizes.sizes.inodesPerGroup]
  exact and_left_comm

theorem inodeAccess_safe_iff (someBytes : 0 < data.blkSize.toNat)
    (accepted : ¬ data.refuses num) (inode : InodeBytes) :
    ((MountedCall.inodeRead num).Safe data ↔ ValidInode data num) ∧
      ((MountedCall.inodeWrite num inode).Safe data ↔ ValidInode data num) := by
  rw [← inodePlace_isSome_iff someBytes accepted]
  let device : ByteDevice := ⟨fun _ => 0, 0⟩
  refine ⟨⟨fun safe => ?_, fun isPlace device readOk buf => ?_⟩,
    ⟨fun safe => ?_, fun isPlace sent device readOk buf => ?_⟩⟩
  · have isSome := safe device true fun _ => 0
    unfold inodeDoRead at isSome
    rwa [if_neg accepted, Option.isSome_map] at isSome
  · unfold inodeDoRead
    rwa [if_neg accepted, Option.isSome_map]
  · have isSome := safe (fun _ => 0) device true fun _ => 0
    unfold inodeDoWrite at isSome
    rwa [if_neg accepted, Option.isSome_map] at isSome
  · unfold inodeDoWrite
    rwa [if_neg accepted, Option.isSome_map]

theorem blockAllocFor_safe_iff (accepted : ¬ data.refuses num) :
    (MountedCall.blockAllocFor num).Safe data ↔ ValidInode data num := by
  rw [validInode_iff accepted]
  constructor
  · intro safe
    have isSome := safe (fun _ _ => 0) ⟨true, true⟩
    obtain ⟨call, isCall⟩ := Option.isSome_iff_exists.mp isSome
    obtain ⟨group, isGroup, isAlloc⟩ := Option.bind_eq_some_iff.mp isCall
    have someInodes := someInodes_of_group isGroup
    obtain ⟨other, isOther, isNumber⟩ := inodeGroup_toNat accepted someInodes
    cases isGroup.symm.trans isOther
    rw [← isNumber]
    exact ⟨someInodes,
      (blockAlloc_isSome_iff _ _ _).mp (Option.isSome_of_eq_some isAlloc)⟩
  · rintro ⟨someInodes, hasGroup⟩ disk io
    obtain ⟨group, isGroup, isNumber⟩ := inodeGroup_toNat accepted someInodes
    rw [← isNumber] at hasGroup
    rw [isGroup]
    exact (blockAlloc_isSome_iff disk io group).mpr hasGroup

theorem blockCalls_safe_iff (sizes : MountedSizes sb data) (block : BitVec 32) :
    ((MountedCall.blockAlloc block).Safe data ↔
        data.HasGroup ((block - 1).toNat / data.sb.sBlocksPerGroup.toNat)) ∧
      ((MountedCall.blockFree block).Safe data ↔
        data.HasGroup ((block - 1).toNat / data.sb.sBlocksPerGroup.toNat)) := by
  obtain ⟨group, isGroup, isNumber⟩ := blockGroup_eq sizes block
  refine ⟨⟨fun safe => ?_, fun hasGroup disk io => ?_⟩,
    ⟨fun safe => ?_, fun hasGroup disk io below => ?_⟩⟩
  · have isSome := safe (fun _ _ => 0) ⟨true, true⟩
    rw [isGroup] at isSome
    rw [← isNumber]
    exact (blockAlloc_isSome_iff _ _ _).mp isSome
  · rw [isGroup]
    rw [← isNumber] at hasGroup
    exact (blockAlloc_isSome_iff disk io group).mpr hasGroup
  · have isSome := safe (fun _ _ => 0) ⟨true, true⟩ 0
    rw [isGroup] at isSome
    exact (blockFree_isSome_iff _ _ _ block).mp isSome
  · rw [isGroup]
    exact (blockFree_isSome_iff disk io below block).mpr hasGroup

end Calls

/--
A mount that returns 0 has divided by nonzero numbers only.  Of the calls after
it exactly those are safe whose number belongs to a group of the volume, where
the groups can be counted.
-/
theorem ext2Mount_safe_iff {io : MountIo} {flagged : Bool} {sb : DiskSuperblock}
    {groups : Nat → DiskGroupDesc} {data : MountedData}
    (mounted : ext2Mount io flagged sb groups = .mounted data) :
    sb.sBlocksPerGroup ≠ 0 ∧ sb.blockSize ≠ 0 ∧
      ∀ call : MountedCall, call.Covered data →
        (call.Safe data ↔ call.SuitsSuperblock sb) := by
  have sizes := ext2Mount_mounted mounted
  have someBytes : 0 < data.blkSize.toNat := by
    rw [sizes.blkSize]
    exact Nat.pos_of_ne_zero fun isZero =>
      sizes.someBytes (BitVec.eq_of_toNat_eq isZero)
  refine ⟨sizes.perGroup, sizes.someBytes, fun call covered => ?_⟩
  cases call with
  | inodeRead num =>
    exact (inodeAccess_safe_iff someBytes covered fun _ => 0).1.trans
      (validInode_iff_superblock sizes covered)
  | inodeWrite num inode =>
    exact (inodeAccess_safe_iff someBytes covered inode).2.trans
      (validInode_iff_superblock sizes covered)
  | blockAllocFor num =>
    exact (blockAllocFor_safe_iff covered).trans
      (validInode_iff_superblock sizes covered)
  | blockAlloc block =>
    exact (blockCalls_safe_iff sizes block).1.trans
      (blockHasGroup_iff sizes covered)
  | blockFree block =>
    exact (blockCalls_safe_iff sizes block).2.trans
      (blockHasGroup_iff sizes covered)

/-- The second inode of a small volume can be read once it is mounted. -/
theorem rootInode_safe :
    (MountedCall.inodeRead 2).Safe (smallVolume 5) := by
  have mounted : ext2Mount ⟨none, true, true, true⟩ true (smallVolume 5).sb
          (smallVolume 5).groups =
        .mounted (smallVolume 5) := by
    rfl
  refine ((ext2Mount_safe_iff mounted).2.2 (.inodeRead 2) ?_).mpr ⟨⟨?_, ?_⟩, ?_⟩
  · show ¬ (smallVolume 5).refuses 2
    decide
  · decide
  · decide
  · decide

/-- A small volume whose superblock has no inodes in a group. -/
def noInodesPerGroup : DiskSuperblock :=
  { (smallVolume 5).sb with sInodesPerGroup := 0 }

/-- It is mounted all the same, and the root inode divides by zero. -/
theorem noInodesPerGroup_not_safe :
    ∃ data,
      ext2Mount ⟨none, true, true, true⟩ true noInodesPerGroup
          (smallVolume 5).groups =
        .mounted data ∧
      (MountedCall.inodeRead 2).Covered data ∧
      ¬ (MountedCall.inodeRead 2).Safe data := by
  refine ⟨{ smallVolume 5 with sb := noInodesPerGroup }, rfl, ?_, ?_⟩
  · show ¬ ({ smallVolume 5 with sb := noInodesPerGroup } : MountedData).refuses
      2
    decide
  · intro safe
    have isSome := safe ⟨fun _ => 0, 0⟩ true fun _ => 0
    revert isSome
    decide

end Idylla.Ext2
