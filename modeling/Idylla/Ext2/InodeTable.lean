import Idylla.Ext2.Superblock
import Idylla.Lib.Memory

namespace Idylla.Ext2

open Idylla.Lib

/-!
# Inodes on the device

`inode_do_read` and `inode_do_write` copy the 128 bytes of an inode from and to
the block of its group's inode table.  The device is a string of bytes in
sectors of 512.
-/

/-- The bytes of a block device and how often it has been written. -/
structure ByteDevice where
  bytes : Memory UInt8
  writes : Nat

/-- `bdev_read` of so many sectors into a buffer. -/
def ByteDevice.bdevRead (device : ByteDevice) (buf : Memory UInt8)
    (len sector : Nat) : Memory UInt8 :=
  buf.copy 0 device.bytes (sector * 512) (len * 512)

/--
`bdev_write` of so many sectors, of which the call numbered `call` transfers
at most `sent call`, and its return value.
-/
def ByteDevice.bdevWrite (sent : Nat → Nat)
    (device : ByteDevice) (buf : Memory UInt8)
    (len sector : Nat) : ByteDevice × Nat :=
  let done := min len (sent device.writes)
  ({ bytes := device.bytes.copy (sector * 512) buf 0 (done * 512)
     writes := device.writes + 1 },
    done)

/-- `struct ext2_inode`, as `memcpy` sees it. -/
abbrev InodeBytes :=
  Fin 128 → UInt8

/-- The bytes of an inode in memory. -/
def InodeBytes.memory (inode : InodeBytes) : Memory UInt8 :=
  fun index => if inside : index < 128 then inode ⟨index, inside⟩ else 0

/-- The first sector of the block that has an inode and its first byte. -/
structure InodePlace where
  sector : BitVec 32
  byte : BitVec 32
  deriving DecidableEq

/-- The place of an inode; nothing for a trap or an index outside `groups`. -/
def inodePlace (data : MountedData) (num : BitVec 32) : Option InodePlace :=
  let blkSize := data.blkSize.setWidth 32
  (data.inodeGroup num).bind fun groupIdx =>
    (remainder (num - 1) data.sb.sInodesPerGroup).bind fun index =>
      (divide (index * 128) blkSize).bind fun inodeOffset =>
        (remainder (index * 128) blkSize).bind fun byte =>
          (data.group? groupIdx.toInt).map fun desc =>
            { sector := data.sectorNum (desc.bgInodeTable + inodeOffset)
              byte := byte }

/-- The number of an inode is refused. -/
def MountedData.refuses (data : MountedData) (num : BitVec 32) : Prop :=
  num < 1 ∨ data.sb.sInodesCount < num

instance (data : MountedData) (num : BitVec 32) :
    Decidable (data.refuses num) :=
  inferInstanceAs (Decidable (_ ∨ _))

/-- `inode_do_read`; `buf` is what `kalloc` returns. -/
def inodeDoRead (data : MountedData) (device : ByteDevice) (readOk : Bool)
    (buf : Memory UInt8) (num : BitVec 32) : Option (Except Errno InodeBytes) :=
  if data.refuses num then
    some (.error .EINVAL)
  else
    (inodePlace data num).map fun place =>
      let buf := device.bdevRead buf data.spb.toNat place.sector.toNat
      if readOk then
        .ok fun index => buf (place.byte.toNat + index)
      else
        .error Errno.EIO

/--
`inode_do_write`; a `bdev_write` that transfers too few sectors is returned as
their number.
-/
def inodeDoWrite (data : MountedData) (sent : Nat → Nat)
    (device : ByteDevice) (readOk : Bool) (buf : Memory UInt8)
    (inode : InodeBytes)
    (num : BitVec 32) : Option (ByteDevice × Except Errno Nat) :=
  if data.refuses num then
    some (device, .error .EINVAL)
  else
    (inodePlace data num).map fun place =>
      let buf := device.bdevRead buf data.spb.toNat place.sector.toNat
      if readOk then
        let changed := buf.copy place.byte.toNat inode.memory 0 128
        let (device, err) :=
          device.bdevWrite sent changed data.spb.toNat place.sector.toNat
        (device, .ok (if err = data.spb.toNat then 0 else err))
      else
        (device, .error Errno.EIO)

/-- The index of an inode in the table of its group. -/
def MountedData.inodeIndex (data : MountedData) (num : BitVec 32) : Nat :=
  (num.toNat - 1) % data.sb.sInodesPerGroup.toNat

/-- The number of the group of an inode. -/
def MountedData.groupNumber (data : MountedData) (num : BitVec 32) : Nat :=
  (num.toNat - 1) / data.sb.sInodesPerGroup.toNat

/-- The first block of the inode table of a group. -/
def MountedData.tableStart (data : MountedData) (group : Nat) : Nat :=
  (data.groups group).bgInodeTable.toNat

/-- The blocks of an inode table. -/
def MountedData.tableLength (data : MountedData) : Nat :=
  (data.sb.sInodesPerGroup.toNat * 128 + data.blkSize.toNat - 1) /
    data.blkSize.toNat

/-- A group is an element of the array. -/
def MountedData.HasGroup (data : MountedData) (group : Nat) : Prop :=
  (group : Int) < data.groupsCount.toInt

/-- A number from 1 to `s_inodes_count` whose group exists. -/
structure ValidInode (data : MountedData) (num : BitVec 32) : Prop where
  positive : 1 ≤ num.toNat
  inCount : num.toNat ≤ data.sb.sInodesCount.toNat
  someInodes : 0 < data.sb.sInodesPerGroup.toNat
  hasGroup : data.HasGroup (data.groupNumber num)

/-- The sizes are those of the superblock and the tables do not overlap. -/
structure Geometry (data : MountedData) : Prop where
  inodeSize : data.sb.sInodeSize = 128
  blkSize : data.blkSize = data.sb.blockSize
  someBytes : data.blkSize ≠ 0
  spb : data.spb = data.blkSize / 512
  disjoint : ∀ group other, data.HasGroup group → data.HasGroup other →
      group ≠ other →
        data.tableStart group + data.tableLength ≤ data.tableStart other ∨
          data.tableStart other + data.tableLength ≤ data.tableStart group

/-- The sectors of the block of an inode are those of its group's table. -/
def InTable (data : MountedData) (num : BitVec 32) (sector : Nat) : Prop :=
  let start := data.tableStart (data.groupNumber num)
  start * data.spb.toNat ≤ sector ∧
    sector + data.spb.toNat ≤ (start + data.tableLength) * data.spb.toNat

/-- Every write of a block is complete. -/
def CompleteWrites (data : MountedData) (sent : Nat → Nat) : Prop :=
  ∀ call, data.spb.toNat ≤ sent call

/--
An inode is read as it has been written, a write does not change another inode,
and the block that is accessed belongs to the table of the group.
-/
structure InodeCells (data : MountedData) : Prop where
  readsBack : ∀ sent device buf inode num, CompleteWrites data sent →
      ValidInode data num →
        ∃ after,
          inodeDoWrite data sent device true buf inode num =
              some (after, .ok 0) ∧
            ∀ other, inodeDoRead data after true other num = some (.ok inode)
  others : ∀ sent device buf inode num other after returned,
      CompleteWrites data sent → ValidInode data num →
        ValidInode data other → num ≠ other →
          inodeDoWrite data sent device true buf inode num =
            some (after, returned) →
            ∀ fresh,
              inodeDoRead data after true fresh other =
                inodeDoRead data device true fresh other
  inTable : ∀ num, ValidInode data num →
      ∃ place,
        inodePlace data num = some place ∧ InTable data num place.sector.toNat

/-- The byte and the sectors of an inode are numbers of 32 bits. -/
structure Addressed (data : MountedData) (num : BitVec 32) : Prop where
  byte : data.inodeIndex num * 128 < 2 ^ 32
  sector :
    (data.tableStart (data.groupNumber num) +
        data.inodeIndex num * 128 / data.blkSize.toNat) *
      data.spb.toNat < 2 ^ 32

section Places

variable {data : MountedData} {num : BitVec 32} {place : InodePlace}

theorem blockSize_dvd (sb : DiskSuperblock) : 1024 ∣ sb.blockSize.toNat := by
  have isShift : sb.blockSize.toNat =
        1024 * 2 ^ (sb.sLogBlockSize.toNat % 32) % 2 ^ 32 % 2 ^ 16 := by
    unfold DiskSuperblock.blockSize
    rw [BitVec.toNat_setWidth, BitVec.toNat_shiftLeft, Nat.shiftLeft_eq]
    rfl
  omega

theorem Geometry.sizes (geometry : Geometry data) :
    0 < data.blkSize.toNat ∧ data.blkSize.toNat = data.spb.toNat * 512 ∧
      128 ∣ data.blkSize.toNat := by
  have isMultiple := blockSize_dvd data.sb
  rw [← geometry.blkSize] at isMultiple
  have isSpb : data.spb.toNat = data.blkSize.toNat / 512 := by
    rw [geometry.spb, BitVec.toNat_udiv]
    rfl
  have notZero : data.blkSize.toNat ≠ 0 := fun isZero =>
    geometry.someBytes (BitVec.eq_of_toNat_eq isZero)
  refine ⟨Nat.pos_of_ne_zero notZero, by omega, by omega⟩

theorem ValidInode.accepted (valid : ValidInode data num) :
    ¬ data.refuses num := by
  have positive := valid.positive
  have inCount := valid.inCount
  rintro (tooSmall | tooLarge)
  · have isLt : num.toNat < 1 := BitVec.lt_def.mp tooSmall
    omega
  · have isLt := BitVec.lt_def.mp tooLarge
    omega

theorem MountedData.group?_eq {group : BitVec 32}
    (hasGroup : data.HasGroup group.toNat) :
    data.group? group.toInt = some (data.groups group.toNat) := by
  have limit : data.groupsCount.toInt < 2 ^ 31 := by
    rw [BitVec.toInt_eq_toNat_cond]
    split <;> omega
  have inArray : (group.toNat : Int) < data.groupsCount.toInt := hasGroup
  have isNat : group.toInt = group.toNat :=
    BitVec.toInt_eq_toNat_of_lt (by omega)
  unfold MountedData.group?
  rw [isNat, if_pos ⟨Int.natCast_nonneg _, inArray⟩]
  rfl

theorem inodePlace_eq (someBytes : 0 < data.blkSize.toNat)
    (valid : ValidInode data num) :
    ∃ place,
      inodePlace data num = some place ∧
        place.sector.toNat =
          (data.tableStart (data.groupNumber num) +
              data.inodeIndex num * 128 % 2 ^ 32 / data.blkSize.toNat) *
            data.spb.toNat % 2 ^ 32 ∧
        place.byte.toNat =
          data.inodeIndex num * 128 % 2 ^ 32 % data.blkSize.toNat := by
  have isBefore : (num - 1).toNat = num.toNat - 1 :=
    BitVec.toNat_sub_of_le (BitVec.le_def.mpr valid.positive)
  have someInodes : data.sb.sInodesPerGroup ≠ 0 := by
    intro isZero
    have positive := valid.someInodes
    rw [isZero] at positive
    exact Nat.lt_irrefl 0 positive
  have isSize : (data.blkSize.setWidth 32).toNat = data.blkSize.toNat := by
    rw [BitVec.toNat_setWidth]
    exact Nat.mod_eq_of_lt (by omega)
  have isSpb : (data.spb.setWidth 32).toNat = data.spb.toNat := by
    rw [BitVec.toNat_setWidth]
    exact Nat.mod_eq_of_lt (by omega)
  have notZero : data.blkSize.setWidth 32 ≠ 0 := by
    intro isZero
    rw [isZero] at isSize
    exact Nat.ne_of_lt someBytes isSize
  have isGroup :
      ((num - 1) / data.sb.sInodesPerGroup).toNat = data.groupNumber num := by
    rw [BitVec.toNat_udiv, isBefore]
    rfl
  have isFound := data.group?_eq
    (show data.HasGroup ((num - 1) / data.sb.sInodesPerGroup).toNat from
      isGroup ▸ valid.hasGroup)
  have isIndex : ((num - 1) % data.sb.sInodesPerGroup * 128).toNat =
        data.inodeIndex num * 128 % 2 ^ 32 := by
    rw [BitVec.toNat_mul, BitVec.toNat_umod, isBefore]
    rfl
  unfold inodePlace MountedData.inodeGroup divide remainder
  rw [if_neg someInodes, if_neg someInodes]
  dsimp only [Option.bind_some]
  rw [if_neg notZero, if_neg notZero]
  rw [isFound, isGroup]
  refine ⟨_, rfl, ?_, ?_⟩
  · unfold MountedData.sectorNum
    rw [BitVec.toNat_mul, BitVec.toNat_add, BitVec.toNat_udiv, isSpb, isSize,
      isIndex, Nat.mod_mul_mod]
    rfl
  · rw [BitVec.toNat_umod, isSize, isIndex]

theorem copy_patch {Cell : Type} {target buf source : Memory Cell}
    {start count first length : Nat} (inside : first + length ≤ count) :
    target.copy start ((buf.copy 0 target start count).copy first source 0
        length) 0 count =
      target.copy (start + first) source 0 length := by
  funext address
  by_cases inRange : start ≤ address ∧ address < start + count
  · rw [Memory.copy_inside inRange.1 inRange.2, Nat.zero_add]
    by_cases changed :
        start + first ≤ address ∧ address < start + first + length
    · rw [Memory.copy_inside changed.1 changed.2,
        Memory.copy_inside (by omega) (by omega)]
      congr 1
      omega
    · have isRead :
          buf.copy 0 target start count (address - start) = target address := by
        rw [Memory.copy_inside (Nat.zero_le _) (by omega)]
        congr 1
        omega
      exact (Memory.copy_outside (by omega)).trans
        (isRead.trans (Memory.copy_outside (by omega)).symm)
  · rw [Memory.copy_outside (by omega), Memory.copy_outside (by omega)]

theorem ByteDevice.bdevRead_eq (device : ByteDevice) (buf : Memory UInt8)
    {len index : Nat} (sector : Nat) (inside : index < len * 512) :
    device.bdevRead buf len sector index =
      device.bytes (sector * 512 + index) := by
  unfold ByteDevice.bdevRead
  rw [Memory.copy_inside (Nat.zero_le _) (by omega), Nat.sub_zero]

/-- The first byte of an inode on the device. -/
def InodePlace.address (place : InodePlace) : Nat :=
  place.sector.toNat * 512 + place.byte.toNat

section

variable (geometry : Geometry data) (valid : ValidInode data num)
  (isPlace : inodePlace data num = some place)

include geometry valid isPlace

theorem inodePlace_inside :
    place.byte.toNat + 128 ≤ data.spb.toNat * 512 := by
  obtain ⟨someBytes, isSectors, perBlock⟩ := geometry.sizes
  obtain ⟨other, isOther, -, isByte⟩ := inodePlace_eq someBytes valid
  cases isPlace.symm.trans isOther
  have below := Nat.mod_lt (data.inodeIndex num * 128 % 2 ^ 32) someBytes
  have inCells :
      data.inodeIndex num * 128 % 2 ^ 32 % data.blkSize.toNat % 128 = 0 := by
    rw [Nat.mod_mod_of_dvd _ perBlock,
      Nat.mod_mod_of_dvd _ (by decide : 128 ∣ 2 ^ 32), Nat.mul_mod_left]
  omega

theorem inodeDoRead_eq (device : ByteDevice) (buf : Memory UInt8) :
    inodeDoRead data device true buf num =
      some (.ok fun index => device.bytes (place.address + index)) := by
  have inside := inodePlace_inside geometry valid isPlace
  unfold inodeDoRead
  rw [if_neg valid.accepted, isPlace]
  refine congrArg (some ∘ Except.ok) (funext fun index => ?_)
  exact (device.bdevRead_eq buf _ (by omega)).trans
    (congrArg device.bytes (Nat.add_assoc _ _ _).symm)

theorem inodeDoWrite_eq {sent : Nat → Nat}
    (complete : CompleteWrites data sent) (device : ByteDevice)
    (buf : Memory UInt8) (inode : InodeBytes) :
    inodeDoWrite data sent device true buf inode num =
      some
        ({ bytes := device.bytes.copy place.address inode.memory 0 128
           writes := device.writes + 1 },
          .ok 0) := by
  have inside := inodePlace_inside geometry valid isPlace
  have isAll : min data.spb.toNat (sent device.writes) = data.spb.toNat :=
    Nat.min_eq_left (complete device.writes)
  unfold inodeDoWrite ByteDevice.bdevWrite
  rw [if_neg valid.accepted, isPlace]
  dsimp only [Option.map_some]
  rw [isAll, if_pos rfl, if_pos rfl]
  unfold ByteDevice.bdevRead InodePlace.address
  rw [copy_patch inside]

end

theorem stored_same (device : Memory UInt8) (start : Nat) (inode : InodeBytes) :
    (fun index : Fin 128 =>
      device.copy start inode.memory 0 128 (start + index)) = inode := by
  funext index
  have inInode := index.isLt
  rw [Memory.copy_inside (Nat.le_add_right _ _) (by omega), Nat.zero_add,
    Nat.add_sub_cancel_left]
  exact dif_pos inInode

theorem stored_other {device : Memory UInt8} {start other : Nat}
    (apart : start + 128 ≤ other ∨ other + 128 ≤ start) (inode : InodeBytes) :
    (fun index : Fin 128 =>
      device.copy start inode.memory 0 128 (other + index)) =
      fun index : Fin 128 => device (other + index) := by
  funext index
  exact Memory.copy_outside (by omega)

theorem inodePlace_address
    (geometry : Geometry data) (valid : ValidInode data num)
    (addressed : Addressed data num)
    (isPlace : inodePlace data num = some place) :
    place.address =
        data.tableStart (data.groupNumber num) * data.blkSize.toNat +
          data.inodeIndex num * 128 ∧
      InTable data num place.sector.toNat := by
  obtain ⟨someBytes, isSectors, perBlock⟩ := geometry.sizes
  obtain ⟨other, isOther, isSector, isByte⟩ := inodePlace_eq someBytes valid
  cases isPlace.symm.trans isOther
  rw [Nat.mod_eq_of_lt addressed.byte] at isSector isByte
  rw [Nat.mod_eq_of_lt addressed.sector] at isSector
  have parts := Nat.div_add_mod' (data.inodeIndex num * 128) data.blkSize.toNat
  constructor
  · unfold InodePlace.address
    rw [isSector, isByte, Nat.mul_assoc, ← isSectors, Nat.add_mul,
      Nat.add_assoc, parts]
  · have inGroup : data.inodeIndex num < data.sb.sInodesPerGroup.toNat :=
      Nat.mod_lt _ valid.someInodes
    have inLength : data.inodeIndex num * 128 / data.blkSize.toNat + 1 ≤
          data.tableLength := by
      unfold MountedData.tableLength
      rw [Nat.le_div_iff_mul_le someBytes, Nat.succ_mul]
      omega
    rw [isSector]
    refine ⟨Nat.mul_le_mul_right _ (Nat.le_add_right _ _), ?_⟩
    rw [← Nat.succ_mul]
    exact Nat.mul_le_mul_right _ (by omega)

/-- Two inodes with numbers of 32 bits lie apart. -/
theorem inodePlace_apart (geometry : Geometry data)
    {other : BitVec 32} {otherPlace : InodePlace}
    (valid : ValidInode data num) (otherValid : ValidInode data other)
    (addressed : Addressed data num) (otherAddressed : Addressed data other)
    (isPlace : inodePlace data num = some place)
    (isOther : inodePlace data other = some otherPlace) (differ : num ≠ other) :
    place.address + 128 ≤ otherPlace.address ∨
      otherPlace.address + 128 ≤ place.address := by
  obtain ⟨someBytes, -, -⟩ := geometry.sizes
  obtain ⟨isAddress, -⟩ := inodePlace_address geometry valid addressed isPlace
  obtain ⟨isOtherAddress, -⟩ :=
    inodePlace_address geometry otherValid otherAddressed isOther
  rw [isAddress, isOtherAddress]
  have inGroup : data.inodeIndex num < data.sb.sInodesPerGroup.toNat :=
    Nat.mod_lt _ valid.someInodes
  have otherInGroup : data.inodeIndex other < data.sb.sInodesPerGroup.toNat :=
    Nat.mod_lt _ valid.someInodes
  by_cases sameGroup : data.groupNumber num = data.groupNumber other
  · have indexDiffers : data.inodeIndex num ≠ data.inodeIndex other := by
      intro sameIndex
      refine differ (BitVec.eq_of_toNat_eq ?_)
      have parts :=
        Nat.div_add_mod (num.toNat - 1) data.sb.sInodesPerGroup.toNat
      have otherParts :=
        Nat.div_add_mod (other.toNat - 1) data.sb.sInodesPerGroup.toNat
      unfold MountedData.groupNumber at sameGroup
      unfold MountedData.inodeIndex at sameIndex
      rw [sameGroup, sameIndex] at parts
      have positive := valid.positive
      have otherPositive := otherValid.positive
      omega
    rw [sameGroup]
    omega
  · have fits : data.sb.sInodesPerGroup.toNat * 128 ≤
          data.tableLength * data.blkSize.toNat := by
      have parts :=
        Nat.div_add_mod'
          (data.sb.sInodesPerGroup.toNat * 128 + data.blkSize.toNat - 1)
          data.blkSize.toNat
      have below :=
        Nat.mod_lt
          (data.sb.sInodesPerGroup.toNat * 128 + data.blkSize.toNat - 1)
          someBytes
      unfold MountedData.tableLength
      omega
    have apart :=
      geometry.disjoint _ _ valid.hasGroup otherValid.hasGroup sameGroup
    cases apart with
    | inl before =>
      have scaled := Nat.mul_le_mul_right data.blkSize.toNat before
      rw [Nat.add_mul] at scaled
      omega
    | inr behind =>
      have scaled := Nat.mul_le_mul_right data.blkSize.toNat behind
      rw [Nat.add_mul] at scaled
      omega

theorem inodePlace_double (someBytes : 0 < data.blkSize.toNat)
    (valid : ValidInode data num) (beyond : 2 ^ 32 ≤ data.inodeIndex num * 128)
    (isPlace : inodePlace data num = some place) :
    ∃ other,
      ValidInode data other ∧ num ≠ other ∧
        inodePlace data other = some place := by
  let other : BitVec 32 := BitVec.ofNat 32 (num.toNat - 2 ^ 25)
  have inCount := valid.inCount
  have inGroup : data.inodeIndex num < data.sb.sInodesPerGroup.toNat :=
    Nat.mod_lt _ valid.someInodes
  have parts : data.sb.sInodesPerGroup.toNat * data.groupNumber num +
          data.inodeIndex num =
        num.toNat - 1 :=
    Nat.div_add_mod _ _
  have isOther : other.toNat = num.toNat - 2 ^ 25 := by
    rw [BitVec.toNat_ofNat]
    exact Nat.mod_eq_of_lt (by omega)
  obtain ⟨sameGroup, isIndex⟩ : data.groupNumber other = data.groupNumber num ∧
        data.inodeIndex other = data.inodeIndex num - 2 ^ 25 :=
    (Nat.div_mod_unique valid.someInodes).mpr ⟨by omega, by omega⟩
  have otherGroup : data.HasGroup (data.groupNumber other) := by
    rw [sameGroup]
    exact valid.hasGroup
  have otherValid : ValidInode data other :=
    ⟨by omega, by omega, valid.someInodes, otherGroup⟩
  obtain ⟨found, isFound, isSector, isByte⟩ := inodePlace_eq someBytes valid
  cases isPlace.symm.trans isFound
  obtain ⟨otherPlace, isOtherPlace, isOtherSector, isOtherByte⟩ :=
    inodePlace_eq someBytes otherValid
  have sameByte : data.inodeIndex other * 128 % 2 ^ 32 =
        data.inodeIndex num * 128 % 2 ^ 32 := by
    omega
  have samePlace : otherPlace = place := by
    cases otherPlace with
    | mk otherSector otherByte =>
      cases place with
      | mk sector byte =>
        rw [sameGroup, sameByte] at isOtherSector
        rw [sameByte] at isOtherByte
        exact congr
          (congrArg InodePlace.mk
            (BitVec.eq_of_toNat_eq (isOtherSector.trans isSector.symm)))
          (BitVec.eq_of_toNat_eq (isOtherByte.trans isByte.symm))
  refine ⟨other, otherValid, fun same => ?_, samePlace ▸ isOtherPlace⟩
  have sameNumber := congrArg BitVec.toNat same
  omega

end Places

/--
The inodes of a volume are independent cells exactly if the byte of every one
in its table and the first sector of its block are numbers of 32 bits.
-/
theorem inodeCells_iff {data : MountedData} (geometry : Geometry data) :
    InodeCells data ↔ ∀ num, ValidInode data num → Addressed data num := by
  obtain ⟨someBytes, isSectors, -⟩ := geometry.sizes
  constructor
  · intro cells num valid
    obtain ⟨place, isPlace, isSector, isByte⟩ := inodePlace_eq someBytes valid
    have inByte : data.inodeIndex num * 128 < 2 ^ 32 := by
      refine Nat.not_le.mp fun beyond => ?_
      obtain ⟨other, otherValid, differ, isDouble⟩ :=
        inodePlace_double someBytes valid beyond isPlace
      let sent : Nat → Nat := fun _ => data.spb.toNat
      let device : ByteDevice := ⟨fun _ => 0, 0⟩
      let inode : InodeBytes := fun _ => 1
      obtain ⟨after, isWritten, isRead⟩ :=
        cells.readsBack sent device (fun _ => 0) inode num
          (fun _ => Nat.le_refl _) valid
      have isKept :=
        cells.others sent device (fun _ => 0) inode num other after (.ok 0)
          (fun _ => Nat.le_refl _) valid otherValid differ isWritten
          (fun _ => 0)
      have isReadBack := isRead fun _ => 0
      rw [inodeDoRead_eq geometry valid isPlace] at isReadBack
      rw [inodeDoRead_eq geometry otherValid isDouble, isReadBack,
        inodeDoRead_eq geometry otherValid isDouble] at isKept
      have isByteKept := congrFun (Except.ok.inj (Option.some.inj isKept)) 0
      revert isByteKept
      show (1 : UInt8) = 0 → False
      decide
    refine ⟨inByte, Nat.not_le.mp fun beyond => ?_⟩
    obtain ⟨found, isFound, lower, -⟩ := cells.inTable num valid
    cases isPlace.symm.trans isFound
    rw [isSector, Nat.mod_eq_of_lt inByte] at lower
    have inBlock :
        data.inodeIndex num * 128 / data.blkSize.toNat * data.spb.toNat ≤
          data.inodeIndex num * 128 := by
      refine Nat.le_trans (Nat.mul_le_mul_left _ ?_)
        (Nat.div_mul_le_self _ data.blkSize.toNat)
      omega
    rw [Nat.add_mul] at beyond lower
    omega
  · intro addressed
    refine
      { readsBack := fun sent device buf inode num complete valid => ?_
        others := fun sent device buf inode num other after returned complete
          valid otherValid differ isWritten fresh => ?_
        inTable := fun num valid => ?_ }
    · obtain ⟨place, isPlace, -⟩ := inodePlace_eq someBytes valid
      refine ⟨_, inodeDoWrite_eq geometry valid isPlace complete device buf
        inode, fun fresh => ?_⟩
      rw [inodeDoRead_eq geometry valid isPlace]
      exact congrArg (some ∘ Except.ok)
        (stored_same device.bytes place.address inode)
    · obtain ⟨place, isPlace, -⟩ := inodePlace_eq someBytes valid
      obtain ⟨otherPlace, isOther, -⟩ := inodePlace_eq someBytes otherValid
      rw [inodeDoWrite_eq geometry valid isPlace complete] at isWritten
      cases isWritten
      rw [inodeDoRead_eq geometry otherValid isOther,
        inodeDoRead_eq geometry otherValid isOther]
      exact congrArg (some ∘ Except.ok)
        (stored_other
          (inodePlace_apart geometry valid otherValid (addressed num valid)
            (addressed other otherValid) isPlace isOther differ) inode)
    · obtain ⟨place, isPlace, -⟩ := inodePlace_eq someBytes valid
      exact ⟨place, isPlace,
        (inodePlace_address geometry valid (addressed num valid) isPlace).2⟩

/-- A volume with blocks of 1024 bytes and eight inodes in one group. -/
def smallVolume (inodeTable : BitVec 32) : MountedData where
  sb :=
    { sInodesCount := 8
      sBlocksCount := 64
      sFreeBlocksCount := 0
      sFreeInodesCount := 0
      sFirstDataBlock := 1
      sLogBlockSize := 0
      sBlocksPerGroup := 8192
      sInodesPerGroup := 8
      sMntCount := 0
      sMagic := 0xEF53
      sState := 1
      sErrors := 1
      sInodeSize := 128 }
  spb := 2
  blkSize := 1024
  groupsCount := 1
  groupsBlocks := 1
  groups := fun _ => ⟨3, 4, inodeTable, 0, 0⟩

theorem smallVolume_geometry (inodeTable : BitVec 32) :
    Geometry (smallVolume inodeTable) where
  inodeSize := rfl
  blkSize := by
    show (1024 : BitVec 16) = (smallVolume 0).sb.blockSize
    decide
  someBytes := by
    show (1024 : BitVec 16) ≠ 0
    decide
  spb := by
    show (2 : BitVec 16) = 1024 / 512
    decide
  disjoint := by
    intro group other hasGroup hasOther differ
    have isFirst : (group : Int) < 1 := hasGroup
    have otherIsFirst : (other : Int) < 1 := hasOther
    omega

/-- The inodes of a small volume with its inode table at block 5. -/
theorem smallVolume_inodeCells : InodeCells (smallVolume 5) := by
  refine (inodeCells_iff (smallVolume_geometry 5)).mpr fun num valid => ?_
  have inTable : (smallVolume 5).inodeIndex num < 8 := Nat.mod_lt _ (by decide)
  constructor
  · omega
  · show (5 + (smallVolume 5).inodeIndex num * 128 / 1024) * 2 < 2 ^ 32
    omega

/-- With the inode table at block 2 ^ 31 the first sector is taken for 0. -/
theorem farTable_not_inodeCells :
    Geometry (smallVolume 0x80000000) ∧
      ¬ InodeCells (smallVolume 0x80000000) := by
  refine ⟨smallVolume_geometry _, fun cells => ?_⟩
  have valid : ValidInode (smallVolume 0x80000000) 1 :=
    ⟨by decide, by decide, by decide, Int.zero_lt_one⟩
  obtain ⟨place, isPlace, lower, -⟩ := cells.inTable 1 valid
  have isSector : inodePlace (smallVolume 0x80000000) 1 = some ⟨0, 0⟩ := by
    decide
  cases isPlace.symm.trans isSector
  revert lower
  decide

end Idylla.Ext2
