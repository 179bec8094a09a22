import Idylla.Lib.Memory

namespace Idylla.Ext2

open Idylla.Lib

/-!
# The blocks of an inode

`inode_rw_content` finds the blocks of a file through `i_block`, the
single-indirect and the double-indirect block.  The device does not fail, and
the blocks that `block_alloc` returns, one for each call, are a parameter.
-/

/-- The words of a block. -/
abbrev Block := Memory Nat

/-- A block of zeros. -/
def zeroBlock : Block :=
  fun _ => 0

/-- The device, the calls of `block_alloc` and `i_blocks` of the inode. -/
structure Ext2Volume where
  blocks : Memory Block
  /-- The blocks that the call has written, the last one first. -/
  written : List Nat
  allocated : Nat
  iBlocks : Nat

/-- `bdev_write` of one block. -/
def Ext2Volume.bdevWrite (volume : Ext2Volume) (block : Nat)
    (content : Block) : Ext2Volume :=
  { volume with
    blocks := volume.blocks.set block content
    written := block :: volume.written }

section Write

variable (blockAlloc : Nat → Nat) (bpi : Nat) (buf : Memory Block)

/-- `inode_do_alloc_block`: the device and the number of the new block. -/
def inodeDoAllocBlock (volume : Ext2Volume)
    (zeroblock : Bool) : Ext2Volume × Nat :=
  let block := blockAlloc volume.allocated
  let taken :=
    { volume with
      allocated := volume.allocated + 1
      iBlocks := volume.iBlocks + 1 }
  (if zeroblock then taken.bdevWrite block zeroBlock else taken, block)

/-- The loops that create the blocks in front of the range. -/
def fillEntries : Nat → Nat → Ext2Volume × Block → Ext2Volume × Block
  | 0, _, filled => filled
  | count + 1, pos, (volume, table) =>
    if table pos < 2 then
      let (taken, block) := inodeDoAllocBlock blockAlloc volume true
      fillEntries count (pos + 1) (taken, table.set pos block)
    else
      fillEntries count (pos + 1) (volume, table)

/-- The variables of a loop that writes blocks; `ptr` counts in blocks. -/
structure WriteLoop where
  volume : Ext2Volume
  table : Block
  pos : Nat
  ptr : Nat
  blocks : Nat

/--
The loops that write the blocks of the range; a new block is noted at the
index `slot pos`.
-/
def writeEntries (slot : Nat → Nat)
    (bound : Nat) (volume : Ext2Volume) (table : Block)
    (pos ptr : Nat) : Nat → WriteLoop
  | 0 => ⟨volume, table, pos, ptr, 0⟩
  | blocks + 1 =>
    if pos < bound then
      if table pos < 2 then
        let (taken, block) := inodeDoAllocBlock blockAlloc volume false
        let noted := table.set (slot pos) block
        writeEntries slot bound (taken.bdevWrite (noted pos) (buf ptr))
          noted (pos + 1) (ptr + 1) blocks
      else
        writeEntries slot bound (volume.bdevWrite (table pos) (buf ptr))
          table (pos + 1) (ptr + 1) blocks
    else
      ⟨volume, table, pos, ptr, blocks + 1⟩

/-- An index block allocated or read: its number and its contents. -/
def loadIndex (volume : Ext2Volume) (number : Nat) : Ext2Volume × Nat × Block :=
  if number < 2 then
    let (taken, block) := inodeDoAllocBlock blockAlloc volume false
    (taken, block, zeroBlock)
  else
    (volume, number, volume.blocks number)

/-- The direct blocks; the table is `i_block`. -/
def writeDirect (volume : Ext2Volume) (iBlock : Block)
    (start blocks : Nat) : WriteLoop :=
  let (volume, iBlock) :=
    fillEntries blockAlloc (min start 12) 0 (volume, iBlock)
  writeEntries blockAlloc buf id 12 volume iBlock start 0 blocks

/-- The blocks of the single-indirect block; the table is `i_block`. -/
def writeSingle (volume : Ext2Volume) (iBlock : Block)
    (indirectIdx ptr blocks : Nat) : WriteLoop :=
  let (volume, number, indirectBuf) :=
    loadIndex blockAlloc volume (iBlock 12)
  let i := min indirectIdx bpi
  let (volume, indirectBuf) :=
    fillEntries blockAlloc i 0 (volume, indirectBuf)
  -- `&indirect_buf[i]`, not `[indirect_idx]`
  let loop :=
    writeEntries blockAlloc buf (fun _ => i) bpi volume indirectBuf
      indirectIdx ptr blocks
  { loop with
    volume := loop.volume.bdevWrite number loop.table
    table := iBlock.set 12 number }

/-- One turn of the loop over the double-indirect block, its table. -/
def writeTable (indirectIdx : Nat) (loop : WriteLoop) : WriteLoop :=
  let tmp := loop.pos / bpi
  let (volume, number, indirectBuf) :=
    loadIndex blockAlloc loop.volume (loop.table tmp)
  let i := loop.pos % bpi
  let count := min (bpi - i) (indirectIdx - loop.pos)
  let (volume, indirectBuf) :=
    fillEntries blockAlloc count i (volume, indirectBuf)
  let inner :=
    writeEntries blockAlloc buf id bpi volume indirectBuf (i + count)
      loop.ptr loop.blocks
  { volume := inner.volume.bdevWrite number inner.table
    table := loop.table.set tmp number
    pos := loop.pos + count + (inner.ptr - loop.ptr)
    ptr := inner.ptr
    blocks := inner.blocks }

/-- The loop over the double-indirect block, of at most so many turns. -/
def writeTables (indirectIdx : Nat) : Nat → WriteLoop → WriteLoop
  | 0, loop => loop
  | turns + 1, loop =>
    if loop.pos < bpi * bpi ∧ 0 < loop.blocks then
      writeTables indirectIdx turns
        (writeTable blockAlloc bpi buf indirectIdx loop)
    else
      loop

/-- The blocks of the double-indirect block; the table is `i_block`. -/
def writeDouble (volume : Ext2Volume) (iBlock : Block)
    (indirectIdx ptr blocks : Nat) : WriteLoop :=
  let (volume, number, indirectBuf) :=
    loadIndex blockAlloc volume (iBlock 13)
  let loop :=
    writeTables blockAlloc bpi buf indirectIdx bpi
      ⟨volume, indirectBuf, 0, ptr, blocks⟩
  { loop with
    volume := loop.volume.bdevWrite number loop.table
    table := iBlock.set 13 number }

/--
`inode_rw_content` with `EXT2_RW_WRITE`: the device, `i_block` and the return
value; nothing for the endless loop behind the double-indirect block.
-/
def inodeWriteContent (volume : Ext2Volume) (iBlock : Block)
    (blocks start : Nat) : Option (Ext2Volume × Block × Nat) :=
  let direct :=
    writeDirect blockAlloc buf { volume with written := [] } iBlock start blocks
  if 0 < direct.blocks then
    let single :=
      writeSingle blockAlloc bpi buf direct.volume direct.table
        (direct.pos - 12) direct.ptr direct.blocks
    if bpi ≤ single.pos ∧ single.pos - bpi < bpi * bpi then
      let double :=
        writeDouble blockAlloc bpi buf single.volume single.table
          (single.pos - bpi) single.ptr single.blocks
      if 0 < double.blocks then none
      else some (double.volume, double.table, double.ptr)
    else
      some (single.volume, single.table, single.ptr)
  else
    some (direct.volume, direct.table, direct.ptr)

end Write

section Read

variable (bpi : Nat) (volume : Ext2Volume)

/-- The variables of a loop that reads blocks; `ptr` counts in blocks. -/
structure ReadLoop where
  target : Memory Block
  pos : Nat
  ptr : Nat
  blocks : Nat

/-- The loops that read blocks, up to an entry without a block. -/
def readEntries (bound : Nat) (table : Block) (target : Memory Block)
    (pos ptr : Nat) : Nat → ReadLoop
  | 0 => ⟨target, pos, ptr, 0⟩
  | blocks + 1 =>
    if pos < bound ∧ 2 ≤ table pos then
      readEntries bound table (target.set ptr (volume.blocks (table pos)))
        (pos + 1) (ptr + 1) blocks
    else
      ⟨target, pos, ptr, blocks + 1⟩

/-- A loop has ended at an entry without a block. -/
def ReadLoop.AtHole (loop : ReadLoop) (bound : Nat) : Prop :=
  loop.pos < bound ∧ 0 < loop.blocks

instance (loop : ReadLoop) (bound : Nat) : Decidable (loop.AtHole bound) :=
  inferInstanceAs (Decidable (_ ∧ _))

/--
The loop over the double-indirect block, of at most so many turns; nothing for
the endless loop behind it.
-/
def readTables (indirectBuf : Block) : Nat → ReadLoop → Option ReadLoop
  | 0, loop => if 0 < loop.blocks then none else some loop
  | turns + 1, loop =>
    if loop.pos < bpi * bpi ∧ 0 < loop.blocks then
      let number := indirectBuf (loop.pos / bpi)
      if number < 2 then
        some loop
      else
        let inner :=
          readEntries volume bpi (volume.blocks number) loop.target
            (loop.pos % bpi) loop.ptr loop.blocks
        if inner.AtHole bpi then
          some inner
        else
          readTables indirectBuf turns
            { inner with pos := loop.pos + (inner.ptr - loop.ptr) }
    else if 0 < loop.blocks then
      none
    else
      some loop

/-- The blocks of the double-indirect block. -/
def readDouble (iBlock : Block) (single : ReadLoop) : Option ReadLoop :=
  if bpi ≤ single.pos ∧ single.pos - bpi < bpi * bpi then
    if iBlock 13 < 2 then
      some single
    else
      readTables bpi volume (volume.blocks (iBlock 13)) bpi
        { single with pos := single.pos - bpi }
  else
    some single

/--
`inode_rw_content` with `EXT2_RW_READ`: the buffer and the return value;
nothing for an endless loop or a negative index.
-/
def inodeReadContent (iBlock : Block) (target : Memory Block)
    (blocks start : Nat) : Option (Memory Block × Nat) :=
  let direct := readEntries volume 12 iBlock target start 0 blocks
  let read : Option ReadLoop :=
    if 0 < direct.blocks then
      if iBlock 12 < 2 ∧ direct.pos - 12 < bpi then
        some direct
      else if direct.AtHole 12 then
        -- `indirect_idx` is negative.
        none
      else if direct.pos - 12 < bpi then
        readDouble bpi volume iBlock
          (readEntries volume bpi (volume.blocks (iBlock 12)) direct.target
            (direct.pos - 12) direct.ptr direct.blocks)
      else
        readDouble bpi volume iBlock { direct with pos := direct.pos - 12 }
    else
      some direct
  read.map fun loop => (loop.target, loop.ptr)

end Read

end Idylla.Ext2
