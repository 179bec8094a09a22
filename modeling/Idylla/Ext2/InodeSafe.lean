import Idylla.Ext2.InodeRead

namespace Idylla.Ext2

open Idylla.Lib

/-!
# Which write calls are safe

The blocks of an inode are those that its entries name on the device.  A write
call keeps to them unless it has to create a block of the single-indirect
level behind the first one of its range.
-/

/-- An entry of an index block; zero where there is no such block. -/
def entryAt (blocks : Memory Block) (index pos : Nat) : Nat :=
  if 2 ≤ index then blocks index pos else 0

/-- The number of the block at an address, from `i_block` and the device. -/
def numberAt (bpi : Nat) (blocks : Memory Block)
    (iBlock : Block) : BlockAddress → Nat
  | .single => iBlock 12
  | .double => iBlock 13
  | .table index =>
    if index < bpi then entryAt blocks (iBlock 13) index else 0
  | .data block =>
    if block < 12 then
      iBlock block
    else if block < 12 + bpi then
      entryAt blocks (iBlock 12) (block - 12)
    else if block < 12 + bpi + bpi * bpi then
      entryAt blocks (entryAt blocks (iBlock 13) ((block - 12 - bpi) / bpi))
        ((block - 12 - bpi) % bpi)
    else
      0

/-- The blocks of an inode as the device has them. -/
def onDevice (bpi : Nat) (blocks : Memory Block)
    (iBlock : Block) : FileMap where
  number := numberAt bpi blocks iBlock
  content := fun address => blocks (numberAt bpi blocks iBlock address)

section Device

variable {bpi : Nat} {blocks : Memory Block} {iBlock : Block}

theorem entryAt_of_mapped {index : Nat} (mapped : 2 ≤ index) (pos : Nat) :
    entryAt blocks index pos = blocks index pos :=
  if_pos mapped

theorem entryAt_of_unmapped {index : Nat} (unmapped : index < 2) (pos : Nat) :
    entryAt blocks index pos = 0 :=
  if_neg (Nat.not_le.mpr unmapped)

theorem numberAt_single {pos : Nat} (inside : pos < bpi) :
    numberAt bpi blocks iBlock (.data (12 + pos)) =
      entryAt blocks (iBlock 12) pos := by
  have notDirect : ¬ 12 + pos < 12 := by omega
  have inSingle : 12 + pos < 12 + bpi := by omega
  rw [numberAt, if_neg notDirect, if_pos inSingle, Nat.add_sub_cancel_left]

theorem numberAt_table {table pos : Nat} (isTable : table < bpi)
    (inside : pos < bpi) :
    numberAt bpi blocks iBlock (.data (12 + bpi + table * bpi + pos)) =
      entryAt blocks (entryAt blocks (iBlock 13) table) pos := by
  have ends : (table + 1) * bpi ≤ bpi * bpi := Nat.mul_le_mul_right bpi isTable
  rw [Nat.succ_mul] at ends
  have isPlace :
      12 + bpi + table * bpi + pos - 12 - bpi = pos + bpi * table := by
    rw [Nat.mul_comm bpi table]
    omega
  have someEntries : 0 < bpi := by omega
  have isTableOf : (pos + bpi * table) / bpi = table := by
    rw [Nat.add_mul_div_left _ _ someEntries, Nat.div_eq_of_lt inside,
      Nat.zero_add]
  have isEntryOf : (pos + bpi * table) % bpi = pos := by
    rw [Nat.add_mul_mod_self_left, Nat.mod_eq_of_lt inside]
  rw [numberAt, if_neg (by omega), if_neg (by omega), if_pos (by omega),
    isPlace, isTableOf, isEntryOf]

theorem onDevice_synced (bpi : Nat) (blocks : Memory Block) (iBlock : Block) :
    Synced bpi (onDevice bpi blocks iBlock) := by
  refine ⟨⟨?_, ?_⟩, ⟨?_, ?_⟩, fun table isTable => ⟨?_, ?_⟩,
    fun table isBeyond => if_neg (Nat.not_lt.mpr isBeyond)⟩
  · intro mapped pos inside
    exact ((numberAt_single inside).trans (entryAt_of_mapped mapped pos)).symm
  · intro unmapped pos inside
    exact (numberAt_single inside).trans (entryAt_of_unmapped unmapped pos)
  · intro mapped pos inside
    exact ((if_pos inside).trans (entryAt_of_mapped mapped pos)).symm
  · intro unmapped pos inside
    exact (if_pos inside).trans (entryAt_of_unmapped unmapped pos)
  · have isNumber : (onDevice bpi blocks iBlock).number (.table table) =
          entryAt blocks (iBlock 13) table :=
      if_pos isTable
    intro mapped pos inside
    refine Eq.trans ?_ (numberAt_table isTable inside).symm
    show blocks ((onDevice bpi blocks iBlock).number (.table table)) pos = _
    rw [isNumber] at mapped ⊢
    exact (entryAt_of_mapped mapped pos).symm
  · have isNumber : (onDevice bpi blocks iBlock).number (.table table) =
          entryAt blocks (iBlock 13) table :=
      if_pos isTable
    intro unmapped pos inside
    rw [isNumber] at unmapped
    exact (numberAt_table isTable inside).trans
      (entryAt_of_unmapped unmapped pos)

theorem onDevice_rooted (bpi : Nat) (blocks : Memory Block) (iBlock : Block) :
    Rooted iBlock (onDevice bpi blocks iBlock) :=
  ⟨fun _ isDirect => (if_pos isDirect).symm, rfl, rfl⟩

theorem numberAt_eq {file : FileMap}
    (stored :
      ∀ address, 2 ≤ file.number address →
        blocks (file.number address) = file.content address)
    (synced : Synced bpi file) (rooted : Rooted iBlock file)
    (inRange :
      ∀ block, 12 + bpi + bpi * bpi ≤ block → file.number (.data block) = 0) :
    numberAt bpi blocks iBlock = file.number := by
  have entry {index : BlockAddress} {entry : Nat → BlockAddress} {pos : Nat}
      (inSync : InSync bpi file index entry)
      (inside : pos < bpi) :
      entryAt blocks (file.number index) pos = file.number (entry pos) := by
    by_cases mapped : 2 ≤ file.number index
    · rw [entryAt_of_mapped mapped, stored index mapped,
        inSync.mapped mapped pos inside]
    · have unmapped : file.number index < 2 := Nat.not_le.mp mapped
      rw [entryAt_of_unmapped unmapped, inSync.unmapped unmapped pos inside]
  funext address
  cases address with
  | single =>
    exact rooted.single
  | double =>
    exact rooted.double
  | table index =>
    by_cases isTable : index < bpi
    · refine (if_pos isTable).trans ?_
      rw [rooted.double, entry synced.double isTable]
    · exact (if_neg isTable).trans
        (synced.beyond index (Nat.not_lt.mp isTable)).symm
  | data block =>
    by_cases isDirect : block < 12
    · exact (if_pos isDirect).trans (rooted.direct block isDirect)
    by_cases inSingle : block < 12 + bpi
    · have isBlock : 12 + (block - 12) = block := by omega
      have inside : block - 12 < bpi := by omega
      rw [← isBlock, numberAt_single inside, rooted.single,
        entry synced.single inside]
    by_cases inDouble : block < 12 + bpi + bpi * bpi
    · let pos := block - 12 - bpi
      have inTables : pos < bpi * bpi := by omega
      have someEntries : 0 < bpi := by
        refine Nat.pos_of_ne_zero ?_
        rintro rfl
        exact Nat.not_lt_zero _ inTables
      have isTable : pos / bpi < bpi := Nat.div_lt_of_lt_mul inTables
      have inside : pos % bpi < bpi := Nat.mod_lt pos someEntries
      have isBlock : 12 + bpi + pos / bpi * bpi + pos % bpi = block := by
        rw [Nat.add_assoc, Nat.mul_comm, Nat.div_add_mod]
        omega
      rw [← isBlock, numberAt_table isTable inside, rooted.double,
        entry synced.double isTable, entry (synced.tables _ isTable) inside]
    · rw [numberAt, if_neg isDirect, if_neg inSingle, if_neg inDouble,
        inRange block (Nat.not_lt.mp inDouble)]

end Device

section Written

variable {blockAlloc : Nat → Nat} {bpi : Nat} {buf : Memory Block}

/-- Whatever one volume has written the other has. -/
def WrittenStays (volume after : Ext2Volume) : Prop :=
  ∀ block ∈ volume.written, block ∈ after.written

theorem WrittenStays.trans {volume after last : Ext2Volume}
    (first : WrittenStays volume after) (second : WrittenStays after last) :
    WrittenStays volume last :=
  fun block wasWritten => second block (first block wasWritten)

end Written

section Stray

variable {blockAlloc : Nat → Nat} {allocated start bpi : Nat}
  {before file : FileMap} {buf : Memory Block} {volume : Ext2Volume}

end Stray

section Safe

variable (blockAlloc : Nat → Nat) (bpi : Nat) (buf : Memory Block)
  (volume : Ext2Volume) (iBlock : Block) (blocks start : Nat)

/-- Every block of the inode has one address. -/
def OneAddressEach (file : FileMap) : Prop :=
  ∀ address other, 2 ≤ file.number address →
    file.number address = file.number other → address = other

end Safe

section Safety

variable {blockAlloc : Nat → Nat} {bpi start blocks : Nat} {buf : Memory Block}
  {volume : Ext2Volume} {iBlock : Block}

theorem onDevice_reached (buf : Memory Block) (start : Nat)
    (addresses : OneAddressEach (onDevice bpi volume.blocks iBlock))
    (fresh :
      FreshBlocks blockAlloc volume.allocated
        (onDevice bpi volume.blocks iBlock)) :
    Reached blockAlloc volume.allocated (onDevice bpi volume.blocks iBlock)
      buf start { volume with written := [] }
      (onDevice bpi volume.blocks iBlock) 0 where
  progress :=
    { fresh := fresh
      apart := addresses
      stored := fun _ _ => rfl
      kept := fun _ _ => rfl
      made := fun _ _ => .inl rfl
      logged := fun _ isWritten => absurd isWritten (List.not_mem_nil)
      later := Nat.le_refl _ }
  frontier :=
    { done := fun _ below => absurd below (Nat.not_lt_zero _)
      rest := fun _ _ => ⟨rfl, rfl⟩ }

/-- A device of zeros. -/
def zeroVolume : Ext2Volume :=
  ⟨fun _ => zeroBlock, [], 0, 0⟩

end Safety

end Idylla.Ext2
