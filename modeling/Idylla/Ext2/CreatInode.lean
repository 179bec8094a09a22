import Idylla.Ext2.AllocFree
import Idylla.Ext2.Creat

namespace Idylla.Ext2

open Idylla.Lib

/-!
# The inode bitmap and short writes

`inode_alloc` and `inode_free` change one bit of a bitmap and write the whole
block.  The bit is on the device if its sector has been sent.
-/

/-- `inode_alloc` finds a bit in a group. -/
def FindsInode (data : Ext2Data) (group bit : Nat) : Prop :=
  (data.groups group).bgFreeInodesCount ≠ 0 ∧ data.FirstFree .inode group bit

/--
The bit that `ext2_creat` takes: in the group of the directory, else in one with
most free inodes.
-/
def TakesInode (data : Ext2Data) (parent group bit : Nat) : Prop :=
  group = parent ∧ FindsInode data group bit ∨
    (∀ other, ¬ FindsInode data parent other) ∧
      mostFree .inode data (-1) = group ∧ FindsInode data group bit

/-- The number of an inode. -/
def inodeNumber (data : Ext2Data) (group bit : Nat) : BitVec 32 :=
  BitVec.ofNat 32 (group * data.sb.sInodesPerGroup + bit + 1)

/-- The sector with a bit of a bitmap is sent. -/
def Surroundings.SendsBit (world : Surroundings) (call bit : Nat) : Prop :=
  bit / 4096 < world.transfers call

instance (world : Surroundings) (call bit : Nat) :
    Decidable (world.SendsBit call bit) :=
  inferInstanceAs (Decidable (_ < _))

/--
`inode_free` gives a bit back: it finds the bit of the number, and its sector
is sent.
-/
structure GivenBack
    (world : Surroundings) (data : Ext2Data)
    (group bit call : Nat) : Prop where
  aligned : 32 ∣ group * data.sb.perGroup .inode
  notLast : bit % 32 ≠ 31
  sends : world.SendsBit call bit

/-- Every free bit of the inode bitmaps stands for an inode. -/
def ValidBits (world : Surroundings) (data : Ext2Data) : Prop :=
  ∀ group bit, group < data.groupsCount → bit < data.bitsPerBlock →
    data.bit .inode group bit = false →
      bit < data.sb.perGroup .inode ∧
        group * data.sb.perGroup .inode + bit + 1 ≤ world.tables.sInodesCount ∧
        world.tables.sInodesCount < 2 ^ 32

/-- A device has no bit of a bitmap that another one has not. -/
def NoNewBit (before after : Ext2Data) : Prop :=
  ∀ block index, (after.disk block).bit index = true →
    (before.disk block).bit index = true

section Bits

variable {world : Surroundings} {data : Ext2Data} {parent group bit : Nat}

theorem TakesInode.unique {other otherBit : Nat}
    (takes : TakesInode data parent group bit)
    (takesOther : TakesInode data parent other otherBit) :
    group = other ∧ bit = otherBit := by
  have sameGroup : group = other := by
    rcases takes with ⟨rfl, finds⟩ | ⟨none, isMost, finds⟩
    · rcases takesOther with ⟨rfl, -⟩ | ⟨none, -, -⟩
      · rfl
      · exact absurd finds (none bit)
    · rcases takesOther with ⟨rfl, findsOther⟩ | ⟨-, isOther, -⟩
      · exact absurd findsOther (none otherBit)
      · rw [isMost] at isOther
        exact Int.ofNat.inj isOther
  subst sameGroup
  have finds : FindsInode data group bit := by
    rcases takes with ⟨-, finds⟩ | ⟨-, -, finds⟩ <;> exact finds
  have findsOther : FindsInode data group otherBit := by
    rcases takesOther with ⟨-, finds⟩ | ⟨-, -, finds⟩ <;> exact finds
  exact ⟨rfl, finds.2.unique findsOther.2⟩

theorem copy_changed (words : Bitmap 32) (cell count : Nat) (word : BitVec 32) :
    words.copy 0 (Memory.set words cell word) 0 count =
      if cell < count then Memory.set words cell word else words := by
  funext place
  by_cases sent : cell < count
  · rw [if_pos sent]
    by_cases inside : place < count
    · rw [Memory.copy_inside (Nat.zero_le _) (by omega), Nat.sub_zero,
        Nat.zero_add]
    · rw [Memory.copy_outside (by omega), Memory.set_of_ne (by omega)]
  · rw [if_neg sent]
    by_cases inside : place < count
    · rw [Memory.copy_inside (Nat.zero_le _) (by omega), Nat.sub_zero,
        Nat.zero_add, Memory.set_of_ne (by omega)]
    · exact Memory.copy_outside (by omega)

theorem bit_copy (words other : Bitmap 32) (count index : Nat) :
    Bitmap.bit (words.copy 0 other 0 count) index =
      if index / 32 < count then other.bit index else words.bit index := by
  unfold Bitmap.bit
  split
  next inside =>
    rw [Memory.copy_inside (Nat.zero_le _) (by omega), Nat.sub_zero,
      Nat.zero_add]
  next outside => rw [Memory.copy_outside (by omega)]

theorem word_sent_iff {call : Nat} :
    bit / 32 < 128 * world.transfers call ↔ world.SendsBit call bit := by
  unfold Surroundings.SendsBit
  omega

end Bits

namespace Short

section Alloc

variable {world : Surroundings} {device after : Ext2Device}
  {parent group bit : Nat}

/-- The device after the write of a bitmap with one bit taken. -/
def takenDevice (world : Surroundings) (device : Ext2Device)
    (group bit : Nat) : Ext2Device :=
  { device with
    data :=
      if world.SendsBit device.calls bit then
        device.data.taken .inode group bit
      else
        device.data.count .inode group (-1) (-1)
    calls := device.calls + 1 }

/-- What `inode_bitmap_write` returns. -/
def bitmapResult {Value : Type} (world : Surroundings) (call : Nat)
    (value : Value) : Except Errno Value :=
  if world.transfers call = world.spb then .ok value else .error Errno.EIO

theorem store_words (data : Ext2Data) :
    data.store .inode group (data.words .inode group) = data := by
  unfold Ext2Data.store Ext2Data.words
  congr 1
  funext block
  split
  next same => rw [same]
  · rfl

theorem inodeBitmapWrite_ends (buf : Bitmap 32) (device : Ext2Device) :
    Ends (inodeBitmapWrite world buf group) device
      (bitmapResult world device.calls ())
      { device with
        data :=
          device.data.store .inode group
            ((device.data.words .inode group).copy 0 buf 0
              (128 * world.transfers device.calls))
        calls := device.calls + 1 } := by
  have isLooked :=
    @complete_ends world true (world.transfers device.calls)
      { device with
        data :=
          device.data.store .inode group
            ((device.data.words .inode group).copy 0 buf 0
              (128 * world.transfers device.calls))
        calls := device.calls + 1 }
  unfold bitmapResult
  by_cases isWhole : world.transfers device.calls = world.spb
  · rw [if_neg fun short => short.2 isWhole] at isLooked
    rw [if_pos isWhole]
    exact isLooked
  · rw [if_pos ⟨rfl, isWhole⟩] at isLooked
    rw [if_neg isWhole]
    exact isLooked

theorem takenDevice_eq (world : Surroundings) (device : Ext2Device)
    (group bit : Nat) :
    takenDevice world device group bit =
      { device with
        data :=
          (device.data.count .inode group (-1) (-1)).store .inode group
            ((device.data.words .inode group).copy 0
              ((device.data.words .inode group).setBit bit) 0
              (128 * world.transfers device.calls))
        calls := device.calls + 1 } := by
  have sameWords :
      (device.data.count .inode group (-1) (-1)).words .inode group =
        device.data.words .inode group :=
    words_count (-1) (-1)
  have isStored := @store_words group (device.data.count .inode group (-1) (-1))
  unfold takenDevice Bitmap.setBit
  rw [copy_changed]
  by_cases sends : world.SendsBit device.calls bit
  · rw [if_pos sends, if_pos (word_sent_iff.mpr sends)]
    rfl
  · rw [if_neg sends, if_neg fun sent => sends (word_sent_iff.mp sent),
      ← sameWords, isStored]

theorem inodeAllocIn_ends (first : device.data.FirstFree .inode group bit) :
    Ends (inodeAllocIn world group) device
      (bitmapResult world device.calls (inodeNumber device.data group bit))
      (takenDevice world device group bit) := by
  refine ends_bind rfl ?_
  dsimp only
  cases found :
      findZero device.data.blkSize (device.data.words .inode group) with
  | none =>
    have isSet := findZero_none found first.inside
    have isClear := first.isClear
    unfold Ext2Data.bit at isClear
    rw [isClear] at isSet
    cases isSet
  | some place =>
    obtain ⟨i, j⟩ := place
    obtain ⟨-, inBlock, isClear, earlier⟩ := findZero_some found
    obtain rfl : bit = 32 * i + j := first.unique ⟨inBlock, isClear, earlier⟩
    have isNumber : inodeNumber device.data group (32 * i + j) =
          BitVec.ofNat 32
            (group * device.data.sb.sInodesPerGroup + i * 32 + j + 1) :=
      congrArg (BitVec.ofNat 32) (by omega)
    have written :=
      @inodeBitmapWrite_ends world group
        (setBit (device.data.words .inode group) i j)
        { device with
          data := device.data.count .inode group (-1) (-1) }
    rw [words_count] at written
    rw [takenDevice_eq, isNumber]
    refine ends_bind rfl ?_
    unfold bitmapResult at written ⊢
    by_cases isWhole : world.transfers device.calls = world.spb
    · rw [if_pos isWhole] at written ⊢
      exact ends_bind written rfl
    · rw [if_neg isWhole] at written ⊢
      exact ends_bind_error written

theorem inodeAllocIn_none
    (none : ∀ bit, ¬ device.data.FirstFree .inode group bit) :
    Ends (inodeAllocIn world group) device (.error .ENOSPC) device := by
  refine ends_bind rfl ?_
  dsimp only
  cases found :
      findZero device.data.blkSize (device.data.words .inode group) with
  | none =>
    rfl
  | some place =>
    obtain ⟨i, j⟩ := place
    obtain ⟨-, inside, isClear, earlier⟩ := findZero_some found
    exact absurd ⟨inside, isClear, earlier⟩ (none (32 * i + j))

/-- What `inode_alloc` does in the group that it takes. -/
inductive AllocEnds
    (world : Surroundings) (device : Ext2Device)
    (group : Nat) : Except Errno (BitVec 32) → Ext2Device → Prop where
  | none
      (none : ∀ bit, ¬ FindsInode device.data group bit) :
      AllocEnds world device group (.error .ENOSPC) device
  | taken (bit : Nat)
      (finds : FindsInode device.data group bit) :
      AllocEnds world device group
        (bitmapResult world device.calls (inodeNumber device.data group bit))
        (takenDevice world device group bit)

theorem inodeAlloc_ends {asked : Int}
    (isGroup : inodeGroup device.data asked = group)
    (inside : group < device.data.groupsCount) :
    ∃ result after, Ends (inodeAlloc world asked) device result after ∧
      AllocEnds world device group result after := by
  have isIndex :
      inArray (device.data.groupIndex (inodeGroup device.data asked)) =
        .ok group := by
    rw [isGroup, groupIndex_of_lt inside]
    rfl
  have starts {result : Except Errno (BitVec 32)} {after : Ext2Device}
      (rest :
        Ends
          (if (device.data.groups group).bgFreeInodesCount = 0 then
            throw .ENOSPC
          else
            inodeAllocIn world group)
          device result after) :
      Ends (inodeAlloc world asked) device result after :=
    ends_bind rfl (ends_lift_iff.mpr ⟨group, isIndex, rest⟩)
  by_cases isFull : (device.data.groups group).bgFreeInodesCount = 0
  · refine ⟨_, device, starts ?_, .none fun bit finds => finds.1 isFull⟩
    rw [if_pos isFull]
    rfl
  by_cases found : ∃ bit, device.data.FirstFree .inode group bit
  · obtain ⟨bit, first⟩ := found
    refine ⟨_, _, starts ?_, .taken bit ⟨isFull, first⟩⟩
    rw [if_neg isFull]
    exact inodeAllocIn_ends first
  · refine ⟨_, device, starts ?_, .none fun bit finds => found ⟨bit, finds.2⟩⟩
    rw [if_neg isFull]
    exact inodeAllocIn_none fun bit first => found ⟨bit, first⟩

theorem inodeAlloc_group {asked : Int} {result : Except Errno (BitVec 32)}
    (ends : Ends (inodeAlloc world asked) device result after) :
    ∃ group : Nat, inodeGroup device.data asked = group ∧
      group < device.data.groupsCount ∧
      AllocEnds world device group result after := by
  have starts : ∃ group, inArray
        (device.data.groupIndex (inodeGroup device.data asked)) =
          .ok group := by
    rcases ends_bind_iff.mp ends with ⟨err, first, -⟩ | ⟨_, _, first, rest⟩
    · cases first
    · cases first
      obtain ⟨group, isIndex, -⟩ := ends_lift_iff.mp rest
      exact ⟨group, isIndex⟩
  obtain ⟨group, isIndex⟩ := starts
  have isSome :
      device.data.groupIndex (inodeGroup device.data asked) = some group := by
    cases found : device.data.groupIndex (inodeGroup device.data asked) with
    | none =>
      rw [found] at isIndex
      cases isIndex
    | some other =>
      rw [found] at isIndex
      cases isIndex
      rfl
  obtain ⟨isGroup, inside⟩ := groupIndex_some.mp isSome
  obtain ⟨other, otherAfter, endsOther, allocated⟩ :=
    @inodeAlloc_ends world device group asked isGroup inside
  obtain ⟨rfl, rfl⟩ := ends_unique ends endsOther
  exact ⟨group, isGroup, inside, allocated⟩

end Alloc

section Free

variable {world : Surroundings} {device after : Ext2Device} {data : Ext2Data}
  {ino : BitVec 32} {group bit : Nat}

/-- What `inode_free` does in a group that exists. -/
inductive FreeEnds
    (world : Surroundings) (device : Ext2Device) (ino : BitVec 32)
    (group : Nat) : Ext2Device → Prop where
  | unset
      (unset : freeFinds .inode device.data ino world.below = false) :
      FreeEnds world device ino group device
  | written
      (finds : freeFinds .inode device.data ino world.below = true) :
      FreeEnds world device ino group
        { device with
          data :=
            (device.data.count .inode group 1 1).store .inode group
              ((device.data.words .inode group).copy 0
                (freedWords .inode device.data ino) 0
                (128 * world.transfers device.calls))
          calls := device.calls + 1 }

theorem inodeFree_ends (isGroup : groupOf .inode device.data ino = group)
    (inside : group < device.data.groupsCount) :
    ∃ result after, Ends (inodeFree world ino) device result after ∧
      FreeEnds world device ino group after := by
  subst isGroup
  have isIndex :
      inArray (device.data.groupIndex (groupOf .inode device.data ino)) =
        .ok (groupOf .inode device.data ino) := by
    rw [groupIndex_of_lt inside]
    rfl
  cases finds : freeFinds .inode device.data ino world.below with
  | false =>
    refine ⟨.ok (), device, ends_bind rfl
      (ends_lift_iff.mpr ⟨_, isIndex, ?_⟩), .unset finds⟩
    unfold freeFinds at finds
    dsimp only
    rw [finds]
    rfl
  | true =>
    have written :=
      @inodeBitmapWrite_ends world (groupOf .inode device.data ino)
        (freedWords .inode device.data ino)
        { device with
          data :=
            device.data.count .inode (groupOf .inode device.data ino) 1 1 }
    rw [words_count] at written
    refine ⟨bitmapResult world device.calls (), _,
      ends_bind rfl (ends_lift_iff.mpr ⟨_, isIndex, ?_⟩),
      .written finds⟩
    unfold freeFinds at finds
    rw [if_pos finds]
    exact ends_bind rfl written

theorem inodeNumber_toNat
    (small : group * data.sb.perGroup .inode + bit + 1 < 2 ^ 32) :
    (inodeNumber data group bit - 1).toNat =
      group * data.sb.perGroup .inode + bit := by
  unfold inodeNumber
  have same : data.sb.sInodesPerGroup = data.sb.perGroup .inode := rfl
  rw [same]
  bv_omega

theorem noNewBit_iff (isData : device.data = data.taken .inode group bit)
    (inGroup : bit < data.sb.perGroup .inode)
    (small : group * data.sb.perGroup .inode + bit + 1 < 2 ^ 32)
    (isClear : data.bit .inode group bit = false)
    (ends : FreeEnds world device (inodeNumber data group bit) group after) :
    NoNewBit data after.data ↔ GivenBack world data group bit device.calls := by
  have isNumber := inodeNumber_toNat small
  have keeps := sameLayout_taken data .inode group bit
  have samePerGroup := keeps.perGroup .inode
  have isSet := @bit_taken_self .inode data group bit
  have isWords : (data.taken .inode group bit).words .inode group =
        (data.words .inode group).setBit bit :=
    words_store _
  have isBitmap (index : Nat) :
      ((data.taken .inode group bit).groups index).bitmap .inode =
        (data.groups index).bitmap .inode :=
    keeps.bitmaps index .inode
  rw [← isData] at isSet isWords isBitmap
  rw [← samePerGroup, ← isData] at isNumber inGroup
  constructor
  · intro noNew
    have isFree :
        (after.data.disk ((data.groups group).bitmap .inode)).bit bit =
          false := by
      rw [← Bool.not_eq_true]
      intro isThere
      have wasThere := noNew _ _ isThere
      rw [show (data.disk ((data.groups group).bitmap .inode)).bit bit = false
        from isClear] at wasThere
      cases wasThere
    cases ends with
    | unset unset =>
      rw [← isBitmap] at isFree
      rw [show (device.data.disk _).bit bit = true from isSet] at isFree
      cases isFree
    | written finds =>
      have isStored :
          ((device.data.count .inode group 1 1).store .inode group
              ((device.data.words .inode group).copy 0
                (freedWords .inode device.data (inodeNumber data group bit)) 0
                (128 * world.transfers device.calls))).disk
              ((data.groups group).bitmap .inode) =
            (device.data.words .inode group).copy 0
              (freedWords .inode device.data (inodeNumber data group bit)) 0
              (128 * world.transfers device.calls) := by
        rw [← isBitmap]
        exact if_pos (bitmap_count 1 1).symm
      rw [isStored, bit_copy] at isFree
      by_cases sends : world.SendsBit device.calls bit
      · rw [if_pos (word_sent_iff.mpr sends)] at isFree
        obtain ⟨notLast, aligned⟩ :=
          notLast_of_cleared isNumber inGroup isSet isFree
        rw [isData, samePerGroup] at aligned
        exact ⟨aligned, notLast, sends⟩
      · rw [if_neg fun sent => sends (word_sent_iff.mp sent)] at isFree
        rw [show (device.data.words .inode group).bit bit = true
          from isSet] at isFree
        cases isFree
  · rintro ⟨aligned, notLast, sends⟩
    rw [← samePerGroup, ← isData] at aligned
    obtain ⟨-, isFound, isFreed⟩ :=
      free_at isNumber inGroup aligned notLast world.below
    rw [isSet] at isFound
    cases ends with
    | unset unset =>
      rw [isFound] at unset
      cases unset
    | written finds =>
      have isSent : (device.data.words .inode group).copy 0
              (freedWords .inode device.data (inodeNumber data group bit)) 0
              (128 * world.transfers device.calls) =
            data.words .inode group := by
        rw [isFreed]
        unfold Bitmap.clearBit
        rw [copy_changed, if_pos (word_sent_iff.mpr sends)]
        rw [isWords]
        exact Bitmap.clearBit_setBit (by decide) isClear
      have isDisk (block : Nat)
          (different : block ≠ (data.groups group).bitmap .inode) :
          device.data.disk block = data.disk block := by
        rw [isData]
        refine if_neg fun same => different ?_
        rw [same, bitmap_count]
      intro block index isThere
      rw [isSent] at isThere
      by_cases same : block = (data.groups group).bitmap .inode
      · have isBlock :
            ((device.data.count .inode group 1 1).store .inode group
              (data.words .inode group)).disk block =
              data.words .inode group := by
          rw [same, ← isBitmap]
          exact if_pos (bitmap_count 1 1).symm
        rw [isBlock] at isThere
        rw [same]
        exact isThere
      · have isBlock :
            ((device.data.count .inode group 1 1).store .inode group
              (data.words .inode group)).disk block =
              device.data.disk block := by
          refine if_neg fun sameBlock => same ?_
          rw [sameBlock, bitmap_count, isBitmap]
        rw [isBlock, isDisk block same] at isThere
        exact isThere

end Free

end Short

end Idylla.Ext2
