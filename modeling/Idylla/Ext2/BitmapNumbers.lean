import Idylla.Ext2.BitmapCalls

namespace Idylla.Ext2

open Idylla.Lib

/-!
# Numbers and positions in the bitmaps

An allocation computes a number from a group and a bit, and a free computes
both from the number.  The two agree where numbers start with one and the bit
is not the last one of its word.
-/

section Positions

variable {kind : BitmapKind} {data : Ext2Data} {number : BitVec 32}
  {group bit : Nat}

theorem free_at
    (isNumber : (number - 1).toNat = group * data.sb.perGroup kind + bit)
    (inGroup : bit < data.sb.perGroup kind)
    (aligned : 32 ∣ group * data.sb.perGroup kind) (notLast : bit % 32 ≠ 31)
    (below : Word) :
    groupOf kind data number = group ∧
      freeFinds kind data number below = data.bit kind group bit ∧
      freedWords kind data number = (data.words kind group).clearBit bit := by
  have sameGroup : groupOf kind data number = group := by
    rw [groupOf_eq isNumber (by omega), Nat.div_eq_of_lt inGroup, Nat.add_zero]
  have word : freeWord kind data number = bit / 32 := by
    rw [freeWord_eq, isNumber, Nat.mul_comm group, Nat.mul_add_mod,
      Nat.mod_eq_of_lt inGroup]
  have index : freeIndex number = (bit % 32 : Nat) := by
    rw [freeIndex_eq, isNumber]
    omega
  refine ⟨sameGroup, ?_, ?_⟩
  · unfold freeFinds testBit Ext2Data.bit Bitmap.bit
    rw [sameGroup, word, index, if_pos (Int.natCast_nonneg _),
      Int.toNat_natCast]
  · have position : 32 * ((bit / 32 : Nat) : Int) + (bit % 32 : Nat) = bit := by
      omega
    unfold freedWords clearBit
    rw [sameGroup, word, index, position, if_pos (Int.natCast_nonneg _),
      Int.toNat_natCast]

theorem notLast_of_cleared
    (isNumber : (number - 1).toNat = group * data.sb.perGroup kind + bit)
    (inGroup : bit < data.sb.perGroup kind)
    (isSet : data.bit kind group bit = true)
    (cleared : (freedWords kind data number).bit bit = false) :
    bit % 32 ≠ 31 ∧ 32 ∣ group * data.sb.perGroup kind := by
  have sameGroup : groupOf kind data number = group := by
    rw [groupOf_eq isNumber (by omega), Nat.div_eq_of_lt inGroup, Nat.add_zero]
  have position := freePosition_eq isNumber inGroup
  unfold freePosition at position
  unfold freedWords clearBit at cleared
  rw [position, sameGroup] at cleared
  split at cleared
  next inside =>
    rw [Bitmap.bit_clearBit (by decide)] at cleared
    split at cleared
    next same => omega
    next different =>
      unfold Ext2Data.bit at isSet
      rw [isSet] at cleared
      cases cleared
  next outside =>
    unfold Ext2Data.bit at isSet
    rw [isSet] at cleared
    cases cleared

end Positions

/-- States of one mounted device. -/
structure SameLayout (data later : Ext2Data) : Prop where
  first : later.sb.sFirstDataBlock = data.sb.sFirstDataBlock
  perGroup : ∀ kind, later.sb.perGroup kind = data.sb.perGroup kind
  groupsCount : later.groupsCount = data.groupsCount
  blkSize : later.blkSize = data.blkSize
  bitmaps : ∀ group kind,
      (later.groups group).bitmap kind = (data.groups group).bitmap kind

/-- The block that a bit of a block bitmap stands for on the device. -/
def layoutNumber (data : Ext2Data) (group bit : Nat) : Nat :=
  data.sb.sFirstDataBlock + group * data.sb.sBlocksPerGroup + bit

/-- A block that is marked used in the bitmap of its group. -/
def MarkedUsed (data : Ext2Data) (block : Nat) : Prop :=
  ∃ group bit, group < data.groupsCount ∧ bit < data.sb.sBlocksPerGroup ∧
    block = layoutNumber data group bit ∧ data.bit .block group bit = true

/-- One bit of all bitmaps has a new value. -/
def ChangesOnly (data after : Ext2Data) (kind : BitmapKind) (group bit : Nat)
    (value : Bool) : Prop :=
  ∀ other index place, index < data.groupsCount →
    after.bit other index place =
      if other = kind ∧ index = group ∧ place = bit then value
      else data.bit other index place

/-- A number handed out for one bit follows the layout on the device. -/
structure NumbersLayout
    (data : Ext2Data) (call : BitmapCall) (number : BitVec 32)
    (group bit : Nat) : Prop where
  inside : group < data.groupsCount
  isClear : data.bit .block group bit = false
  sets : ChangesOnly data call.data .block group bit true
  numbered : number.toNat = layoutNumber data group bit
  freed : ∀ later below, SameLayout data later →
      later.bit .block group bit = true →
      ∃ call, blockFree later number ⟨true, true⟩ below = some call ∧
        call.err = none ∧
        ChangesOnly later call.data .block group bit false
  unused : ¬ MarkedUsed data number.toNat

/-- The bits that `block_alloc` and `block_free` number alike. -/
structure OneBased (data : Ext2Data) (group bit : Nat) : Prop where
  first : data.sb.sFirstDataBlock = 1
  inGroup : bit < data.sb.sBlocksPerGroup
  notLast : bit % 32 ≠ 31
  aligned : 32 ∣ group * data.sb.sBlocksPerGroup
  fits : group * data.sb.sBlocksPerGroup + bit + 1 < 2 ^ 32

variable {data : Ext2Data} {group bit : Nat}

theorem not_markedUsed (inGroup : bit < data.sb.sBlocksPerGroup)
    (isClear : data.bit .block group bit = false) :
    ¬ MarkedUsed data (layoutNumber data group bit) := by
  rintro ⟨index, other, -, otherInGroup, same, isSet⟩
  unfold layoutNumber at same
  have samePosition : data.sb.sBlocksPerGroup * group + bit =
        data.sb.sBlocksPerGroup * index + other := by
    rw [Nat.mul_comm _ group, Nat.mul_comm _ index]
    omega
  have sameGroup := congrArg (· / data.sb.sBlocksPerGroup) samePosition
  have sameBit := congrArg (· % data.sb.sBlocksPerGroup) samePosition
  simp only [Nat.mul_add_mod, Nat.mod_eq_of_lt inGroup,
    Nat.mod_eq_of_lt otherInGroup] at sameBit
  simp only [Nat.mul_add_div (Nat.zero_lt_of_lt inGroup),
    Nat.div_eq_of_lt inGroup, Nat.div_eq_of_lt otherInGroup,
    Nat.add_zero] at sameGroup
  rw [sameGroup, sameBit, isSet] at isClear
  cases isClear

theorem sameLayout_taken (data : Ext2Data) (kind : BitmapKind)
    (group bit : Nat) : SameLayout data (data.taken kind group bit) :=
  ⟨sFirstDataBlock_setFree _, fun _ => perGroup_setFree _, rfl, rfl,
    fun _ _ => bitmap_count (-1) (-1)⟩

theorem SameLayout.layout {later : Ext2Data} (same : SameLayout data later)
    (layout : data.Layout) : later.Layout := by
  refine ⟨fun kind => ?_, fun inside otherInside sameBlock => ?_⟩
  · rw [same.perGroup]
    exact layout.perGroup kind
  · rw [same.groupsCount] at inside otherInside
    rw [same.bitmaps, same.bitmaps] at sameBlock
    exact layout.own inside otherInside sameBlock

theorem blockFree_at {later : Ext2Data}
    (oneBased : OneBased data group bit) (layout : data.Layout)
    (inside : group < data.groupsCount) (same : SameLayout data later)
    (isSet : later.bit .block group bit = true) (below : Word) :
    ∃ call,
      blockFree later
        (BitVec.ofNat 32 (group * data.sb.sBlocksPerGroup + bit + 1))
        ⟨true, true⟩ below = some call ∧
      call.err = none ∧
      ChangesOnly later call.data .block group bit false := by
  have samePerGroup : later.sb.perGroup .block = data.sb.sBlocksPerGroup :=
    same.perGroup .block
  have fits := oneBased.fits
  obtain ⟨inGroup, notLast, aligned⟩ :=
    And.intro oneBased.inGroup (And.intro oneBased.notLast oneBased.aligned)
  generalize isNumber :
    BitVec.ofNat 32 (group * data.sb.sBlocksPerGroup + bit + 1) = number
  have isLast :
      (number - 1).toNat = group * later.sb.perGroup .block + bit := by
    rw [samePerGroup, ← isNumber]
    bv_omega
  rw [← samePerGroup] at inGroup aligned
  obtain ⟨sameGroup, finds, words⟩ :=
    free_at isLast inGroup aligned notLast below
  have released := @release_eq .block later number ⟨true, true⟩ below
  rw [sameGroup, same.groupsCount, if_pos inside, finds, isSet, words]
    at released
  refine ⟨_, released, rfl, fun other index place otherInside => ?_⟩
  rw [← same.groupsCount] at inside
  simp only [Bool.true_eq_false, ↓reduceIte]
  rw [bit_store (layout_count (same.layout layout) _ _) inside otherInside,
    bit_count, Bitmap.bit_clearBit (by decide)]
  by_cases isBitmap : other = .block ∧ index = group
  · rw [if_pos isBitmap, isBitmap.1, isBitmap.2]
    simp [Ext2Data.bit]
  · rw [if_neg isBitmap, if_neg fun all => isBitmap ⟨all.1, all.2.1⟩]

theorem position_of_freed {number : BitVec 32} {freed : BitmapCall}
    (layout : data.Layout) (inside : group < data.groupsCount)
    (isSet : data.bit .block group bit = true)
    (isNumber : (number - 1).toNat = group * data.sb.sBlocksPerGroup + bit)
    (released : blockFree data number ⟨true, true⟩ 0 = some freed)
    (cleared : freed.data.bit .block group bit = false) :
    bit < data.sb.sBlocksPerGroup ∧ bit % 32 ≠ 31 ∧
      32 ∣ group * data.sb.sBlocksPerGroup := by
  have positive := layout.perGroup .block
  have released' := @release_eq .block data number ⟨true, true⟩ 0
  rw [show BitmapKind.block.release data number ⟨true, true⟩ 0 = some freed
    from released] at released'
  split at released'
  next found =>
    have isFreed := Option.some.inj released'
    simp only [Bool.true_eq_false, ↓reduceIte] at isFreed
    split at isFreed
    next finds =>
      rw [isFreed, bit_store (layout_count layout _ _) found inside,
        bit_count] at cleared
      split at cleared
      next same =>
        have inGroup : bit < data.sb.perGroup .block := by
          have sameGroup := groupOf_eq isNumber positive
          exact (Nat.div_eq_zero_iff_lt positive).mp (by omega)
        obtain ⟨notLast, aligned⟩ :=
          notLast_of_cleared isNumber inGroup isSet cleared
        exact ⟨inGroup, notLast, aligned⟩
      next different =>
        rw [isSet] at cleared
        cases cleared
    next lost =>
      rw [isFreed, isSet] at cleared
      cases cleared
  next outside => cases released'

theorem NumbersLayout.position {call : BitmapCall} {number : BitVec 32}
    {chosen first : Nat} (layout : data.Layout)
    (inside : chosen < data.groupsCount)
    (taken : call.data = data.taken .block chosen first)
    (numbers : NumbersLayout data call number group bit) :
    group = chosen ∧ bit = first := by
  have isSet := numbers.sets .block group bit numbers.inside
  rw [taken, bit_taken layout inside numbers.inside,
    if_pos (show _ ∧ _ ∧ _ from ⟨rfl, rfl, rfl⟩)] at isSet
  split at isSet
  next same => exact ⟨same.2.1, same.2.2⟩
  next different =>
    rw [numbers.isClear] at isSet
    cases isSet

/--
A block that is handed out has the number of its bit in the layout, and its
free clears that bit, exactly where the bit is numbered from one and not the
last of a word.
-/
theorem blockAlloc_numbers_layout
    {data : Ext2Data} {group : Int} {io : BitmapIo} {call : BitmapCall}
    {number : BitVec 32} (layout : data.Layout)
    (called : blockAlloc data group io = some call)
    (succeeded : call.err = none) (stored : call.number = some number) :
    (∃ chosen bit, NumbersLayout data call number chosen bit) ↔
      ∃ chosen bit : Nat, blockGroup data group.toNat = chosen ∧
        data.FirstFree .block chosen bit ∧ OneBased data chosen bit := by
  obtain ⟨chosen, bit, same, inside, first, taken, hasNumber⟩ :=
    @alloc_succeeded .block data group io call called succeeded
  rw [stored, Option.some.injEq] at hasNumber
  have sets : ChangesOnly data call.data .block chosen bit true := by
    rw [taken]
    exact fun other index place otherInside =>
      bit_taken layout inside otherInside bit place
  constructor
  · rintro ⟨index, other, numbers⟩
    obtain ⟨rfl, rfl⟩ := numbers.position layout inside taken
    refine ⟨index, other, same, first, ?_⟩
    have isNumber : number.toNat =
          (index * data.sb.sBlocksPerGroup + other + 1) % 2 ^ 32 := by
      rw [hasNumber, BitVec.toNat_ofNat]
      rfl
    have numbered := numbers.numbered
    unfold layoutNumber at numbered
    have fits : data.sb.sFirstDataBlock = 1 ∧
          index * data.sb.sBlocksPerGroup + other + 1 < 2 ^ 32 := by
      omega
    have keeps := sameLayout_taken data .block index other
    rw [← taken] at keeps
    have isSet : call.data.bit .block index other = true := by
      rw [sets .block index other inside]
      exact if_pos ⟨rfl, rfl, rfl⟩
    obtain ⟨freed, released, -, clears⟩ := numbers.freed call.data 0 keeps isSet
    have samePerGroup :
        call.data.sb.sBlocksPerGroup = data.sb.sBlocksPerGroup :=
      keeps.perGroup .block
    have insideAfter : index < call.data.groupsCount := by
      rw [keeps.groupsCount]
      exact inside
    obtain ⟨inGroup, notLast, aligned⟩ :=
      position_of_freed (keeps.layout layout) insideAfter isSet
        (by
          rw [samePerGroup]
          bv_omega)
        released
        (by
          rw [clears .block index other insideAfter]
          exact if_pos ⟨rfl, rfl, rfl⟩)
    rw [samePerGroup] at inGroup aligned
    exact ⟨fits.1, inGroup, notLast, aligned, fits.2⟩
  · rintro ⟨index, other, isChosen, isFirst, oneBased⟩
    obtain rfl : index = chosen := by
      have sameChosen := isChosen.symm.trans same
      exact Int.ofNat.inj sameChosen
    obtain rfl := isFirst.unique first
    have fits := oneBased.fits
    have numbered : number.toNat = layoutNumber data index other := by
      unfold layoutNumber
      rw [hasNumber, BitVec.toNat_ofNat, oneBased.first]
      refine (Nat.mod_eq_of_lt fits).trans ?_
      rw [Nat.add_comm 1, Nat.add_right_comm]
    refine ⟨index, other, inside, first.isClear, sets, numbered, ?_, ?_⟩
    · intro later below keeps isSet
      rw [hasNumber]
      exact blockFree_at oneBased layout inside keeps isSet below
    · rw [numbered]
      exact not_markedUsed oneBased.inGroup first.isClear

/-- A device of one group, whose bitmaps begin with a word. -/
def oneGroup (first blkSize : Nat) (word : Word) : Ext2Data where
  sb :=
    { sFirstDataBlock := first
      sBlocksPerGroup := 8 * blkSize
      sInodesPerGroup := 8 * blkSize
      sFreeBlocksCount := 100
      sFreeInodesCount := 100 }
  groupsCount := 1
  blkSize := blkSize
  groups := fun _ =>
    { bgBlockBitmap := 3
      bgInodeBitmap := 4
      bgFreeBlocksCount := 100
      bgFreeInodesCount := 100 }
  disk := fun _ index => if index = 0 then word else 0

theorem oneGroup_layout {first blkSize : Nat} {word : Word}
    (positive : 0 < blkSize) : (oneGroup first blkSize word).Layout := by
  refine ⟨fun kind => ?_, fun {kind other group index} inside also same => ?_⟩
  · have perGroup :
        (oneGroup first blkSize word).sb.perGroup kind = 8 * blkSize := by
      cases kind <;> rfl
    omega
  · have isFirst : group = 0 := Nat.lt_one_iff.mp inside
    have alsoFirst : index = 0 := Nat.lt_one_iff.mp also
    refine ⟨?_, alsoFirst.trans isFirst.symm⟩
    cases kind <;> cases other <;> first | rfl | cases same

/-- The first block of a group has number one and is freed again. -/
theorem firstBlock_numbers_layout :
    ∃ call, blockAlloc (oneGroup 1 1024 0) 0 ⟨true, true⟩ = some call ∧
      call.number = some 1 ∧
      ∃ chosen bit, NumbersLayout (oneGroup 1 1024 0) call 1 chosen bit := by
  refine ⟨_, rfl, rfl, ?_⟩
  refine (@blockAlloc_numbers_layout _ 0 ⟨true, true⟩ _ _
    (oneGroup_layout (by decide)) rfl rfl rfl).mpr ?_
  refine ⟨0, 0, rfl, ⟨by decide, rfl, ?_⟩, rfl, by decide, by decide,
    by decide, by decide⟩
  exact fun other before => absurd before (Nat.not_lt_zero other)

set_option maxRecDepth 4000 in
/-- With larger blocks, counted from zero, a used block is handed out. -/
theorem usedBlock_handed_out :
    ∃ call, blockAlloc (oneGroup 0 2048 2) 0 ⟨true, true⟩ = some call ∧
      call.err = none ∧ call.number = some 1 ∧
      MarkedUsed (oneGroup 0 2048 2) 1 ∧
      ¬ ∃ chosen bit, NumbersLayout (oneGroup 0 2048 2) call 1 chosen bit := by
  have used : MarkedUsed (oneGroup 0 2048 2) 1 :=
    ⟨0, 1, by decide, by decide, rfl, rfl⟩
  refine ⟨_, rfl, rfl, rfl, used, ?_⟩
  rintro ⟨chosen, bit, numbers⟩
  exact numbers.unused used

end Idylla.Ext2
