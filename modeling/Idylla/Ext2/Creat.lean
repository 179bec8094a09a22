import Idylla.Ext2.Bitmaps
import Idylla.Ext2.Directory
import Idylla.Lib.Calls

namespace Idylla.Ext2

open Idylla.Lib

/-!
# Creating a file with short writes

`ext2_creat` takes an inode in the bitmap of a group, writes the entry into the
directory and then the inode into its table.  Every call of `bdev_write` may
transfer fewer sectors than it is asked for, the first ones; `bdev_read`
transfers all.  The bitmaps are blocks of their own.
-/

/-- The blocks of the device and how often `bdev_write` has been called. -/
structure Ext2Device where
  data : Ext2Data
  volume : Ext2Volume
  calls : Nat

/-- What a function does on the device. -/
abbrev Ext2Io (Value : Type) :=
  Call Ext2Device Errno Value

/-- An element of an array that has to be there. -/
def inArray {Value : Type} : Option Value → Except Fault Value
  | some value => .ok value
  | none => .error .strays

/-- The vnode of a directory. -/
structure DirectoryVnode where
  ino : BitVec 32
  iBlock : Block
  size : BitVec 32
  blocks : BitVec 32

/-- A directory on a volume. -/
def DirectoryVnode.on (vnode : DirectoryVnode)
    (volume : Ext2Volume) : Directory where
  volume := volume
  iBlock := vnode.iBlock
  size := vnode.size
  blocks := vnode.blocks

/-- `s_inodes_count` and the `bg_inode_table` of every group. -/
structure InodeTables where
  sInodesCount : Nat
  bgInodeTable : Nat → Nat

/-- What surrounds the calls of a volume with so many sectors in a block. -/
structure Surroundings where
  spb : Nat
  /-- How many sectors the calls of `bdev_write` transfer at most. -/
  sent : Nat → Nat
  /-- What the calls of `block_alloc` return. -/
  blockAlloc : Nat → Except Errno Nat
  kalloc : Kalloc
  /-- What the buffers for a directory have held before. -/
  heap : Memory Block
  heapAgain : Memory Block
  tables : InodeTables
  /-- The word of the stack that `bt` may reach. -/
  below : Word

/-- The words of a block. -/
def Surroundings.bpi (world : Surroundings) : Nat :=
  128 * world.spb

/-- The sectors of one block that a call of `bdev_write` transfers. -/
def Surroundings.transfers (world : Surroundings) (call : Nat) : Nat :=
  min world.spb (world.sent call)

namespace Short

section Device

variable (world : Surroundings)

/-- The number of sectors that the next call of `bdev_write` transfers. -/
def transfer : Ext2Io Nat := do
  let device ← get
  set { device with calls := device.calls + 1 }
  return world.transfers device.calls

/-- `bdev_write` of one block: the number of sectors transferred. -/
def bdevWrite (block : Nat) (content : Block) : Ext2Io Nat := do
  let done ← transfer world
  modify fun device =>
    { device with
      volume :=
        device.volume.bdevWrite block
          ((device.volume.blocks block).copy 0 content 0 (128 * done)) }
  return done

/-- `if (err != data->spb) return -EIO;` where the source has it. -/
def complete (noticed : Bool) (err : Nat) : Ext2Io Unit :=
  if noticed ∧ err ≠ world.spb then throw Errno.EIO else return

theorem complete_ends {world : Surroundings} (noticed : Bool) (err : Nat)
    (device : Ext2Device) :
    Ends (complete world noticed err) device
      (if noticed = true ∧ err ≠ world.spb then .error Errno.EIO else .ok ())
      device := by
  unfold complete
  split <;> rfl

/-- `inode_bitmap_write`, of a group that exists. -/
def inodeBitmapWrite (buf : Bitmap 32) (group : Nat) : Ext2Io Unit := do
  let err ← transfer world
  modify fun device =>
    { device with
      data :=
        device.data.store .inode group
          ((device.data.words .inode group).copy 0 buf 0 (128 * err)) }
  complete world true err

/-- What `inode_alloc` does when its group has free inodes. -/
def inodeAllocIn (group : Nat) : Ext2Io (BitVec 32) := do
  let data := (← get).data
  let buf := data.words .inode group
  match findZero data.blkSize buf with
  | none => throw .ENOSPC
  | some (i, j) =>
    modify fun device =>
      { device with data := device.data.count .inode group (-1) (-1) }
    inodeBitmapWrite world (setBit buf i j) group
    return BitVec.ofNat 32 (group * data.sb.sInodesPerGroup + i * 32 + j + 1)

/-- `inode_alloc` -/
def inodeAlloc (group : Int) : Ext2Io (BitVec 32) := do
  let data := (← get).data
  let group ← inArray (data.groupIndex (inodeGroup data group))
  if (data.groups group).bgFreeInodesCount = 0 then throw .ENOSPC
  else inodeAllocIn world group

/-- `inode_free` -/
def inodeFree (ino : BitVec 32) : Ext2Io Unit := do
  let data := (← get).data
  let group ← inArray (data.groupIndex (groupOf .inode data ino))
  let buf := data.words .inode group
  let i := freeWord .inode data ino
  let j := freeIndex ino
  if testBit world.below (buf i) j then do
    modify fun device =>
      { device with data := device.data.count .inode group 1 1 }
    inodeBitmapWrite world (clearBit buf i j) group
  else return

/-- `inode_do_alloc_block` of a block that is not filled with zeros. -/
def inodeDoAllocBlock : Ext2Io Nat := do
  let device ← get
  set
    { device with
      volume :=
        { device.volume with allocated := device.volume.allocated + 1 } }
  match world.blockAlloc device.volume.allocated with
  | .error err => throw err
  | .ok block =>
    modify fun device =>
      { device with
        volume := { device.volume with iBlocks := device.volume.iBlocks + 1 } }
    return block

/-- The variables of a loop that writes blocks; `ptr` counts in blocks. -/
structure SendLoop where
  table : Block
  pos : Nat
  ptr : Nat
  blocks : Nat

variable (buf : Memory Block)

/-- The loops that write blocks, with or without a look at their results. -/
def sendEntries (noticed : Bool) (slot : Nat → Nat)
    (bound : Nat) (table : Block) (pos ptr : Nat) : Nat → Ext2Io SendLoop
  | 0 => return ⟨table, pos, ptr, 0⟩
  | blocks + 1 =>
    if pos < bound then
      if table pos < 2 then do
        let block ← inodeDoAllocBlock world
        let noted := table.set (slot pos) block
        let err ← bdevWrite world (noted pos) (buf ptr)
        complete world noticed err
        sendEntries noticed slot bound noted (pos + 1) (ptr + 1) blocks
      else do
        let err ← bdevWrite world (table pos) (buf ptr)
        complete world noticed err
        sendEntries noticed slot bound table (pos + 1) (ptr + 1) blocks
    else return ⟨table, pos, ptr, blocks + 1⟩

/-- An index block allocated or read: its number and its contents. -/
def loadIndex (number : Nat) : Ext2Io (Nat × Block) := do
  if number < 2 then do
    let block ← inodeDoAllocBlock world
    return (block, zeroBlock)
  else do
    let device ← get
    return (number, device.volume.blocks number)

/-- The blocks of the single-indirect block; the table is `i_block`. -/
def sendSingle (iBlock : Block) (ptr blocks : Nat) : Ext2Io SendLoop := do
  let (number, indirectBuf) ← loadIndex world (iBlock 12)
  -- `&indirect_buf[i]`, not `[indirect_idx]`
  let loop ←
    sendEntries world buf true (fun _ => 0) world.bpi indirectBuf 0 ptr blocks
  -- An error is noticed, fewer sectors are not.
  let err ← bdevWrite world number loop.table
  complete world false err
  return { loop with table := iBlock.set 12 number }

/-- One turn of the loop over the double-indirect block, its table. -/
def sendTable (loop : SendLoop) : Ext2Io SendLoop := do
  let tmp := loop.pos / world.bpi
  let (number, indirectBuf) ← loadIndex world (loop.table tmp)
  let inner ←
    sendEntries world buf false id world.bpi indirectBuf
      (loop.pos % world.bpi) loop.ptr loop.blocks
  let err ← bdevWrite world number inner.table
  complete world true err
  let next : SendLoop :=
    { table := loop.table.set tmp number
      pos := loop.pos + (inner.ptr - loop.ptr)
      ptr := inner.ptr
      blocks := inner.blocks }
  return next

/-- The loop over the double-indirect block, of at most so many turns. -/
def sendTables : Nat → SendLoop → Ext2Io SendLoop
  | 0, loop => return loop
  | turns + 1, loop =>
    if loop.pos < world.bpi * world.bpi ∧ 0 < loop.blocks then do
      let next ← sendTable world buf loop
      sendTables turns next
    else return loop

/-- The blocks of the double-indirect block; the table is `i_block`. -/
def sendDouble (iBlock : Block) (ptr blocks : Nat) : Ext2Io SendLoop := do
  let (number, indirectBuf) ← loadIndex world (iBlock 13)
  let loop ←
    sendTables world buf world.bpi ⟨indirectBuf, 0, ptr, blocks⟩
  let err ← bdevWrite world number loop.table
  complete world false err
  return { loop with table := iBlock.set 13 number }

/--
`inode_rw_content` with `EXT2_RW_WRITE` from the first block on: `i_block` and
the return value.
-/
def inodeRwContent (iBlock : Block) (blocks : Nat) : Ext2Io (Block × Nat) := do
  let direct ← sendEntries world buf true id 12 iBlock 0 0 blocks
  if direct.blocks = 0 then return (direct.table, direct.ptr)
  else do
    let single ← sendSingle world buf direct.table direct.ptr direct.blocks
    if world.bpi ≤ single.pos ∧
        single.pos - world.bpi < world.bpi * world.bpi then do
      let double ← sendDouble world buf single.table single.ptr single.blocks
      -- The endless loop in front of the triple-indirect block.
      if 0 < double.blocks then (Except.error .unfinished : Except Fault _)
      else return (double.table, double.ptr)
    else return (single.table, single.ptr)

end Device

section Calls

variable (world : Surroundings)

/-- So many blocks of a buffer written by `inode_rw_content`. -/
def store (vnode : DirectoryVnode) (buf : KernelBuffer)
    (blocks : Int) : Ext2Io DirectoryVnode := do
  let count := (BitVec.ofInt 32 blocks).toNat
  if count * (4 * world.bpi) ≤ buf.length then do
    let (iBlock, _) ←
      inodeRwContent world (buf.words world.bpi) vnode.iBlock count
    return { vnode with iBlock := iBlock }
  else (Except.error .strays : Except Fault _)

/-- `inode_unlink` -/
def inodeUnlink (turns : Nat) (vnode : DirectoryVnode)
    (name : CString) : Ext2Io Unit := do
  let directory := vnode.on (← get).volume
  let blocks := directory.countedBlocks world.bpi
  let buf ← directory.load world.kalloc world.bpi world.heapAgain blocks
  let found ← loop (unlinkBody buf vnode.size.toNat name) turns ⟨0, none⟩
  match found with
  | none => throw .ENOENT
  | some changed => do
      let _ ← store world vnode changed blocks
      return

/-- The place of an inode in the tables; nothing for a number refused. -/
def inodeSlot (data : Ext2Data) (num : BitVec 32) : InodeSlot :=
  if num.toNat < 1 ∨ world.tables.sInodesCount < num.toNat then none
  else
    let index := (num.toNat - 1) % data.sb.sInodesPerGroup * 128
    some
      (world.tables.bgInodeTable (groupOf .inode data num) +
          index / data.blkSize,
        index % data.blkSize)

/-- `inode_do_write` -/
def inodeDoWrite (inode : Memory UInt8) (num : BitVec 32) : Ext2Io Nat := do
  let device ← get
  match inodeSlot world device.data num with
  | none => throw .EINVAL
  | some (block, byte) => do
      let changed :=
        (wordBytes (device.volume.blocks block)).copy byte inode 0 128
      let err ← bdevWrite world block (bytesWords changed)
      return if err = world.spb then 0 else err

/-- The end of `inode_link`, when the directory has been written. -/
def countLink (turns : Nat) (vnode : DirectoryVnode) (entry : NewEntry)
    (inode : Memory UInt8) : Ext2Io Nat := do
  let err ← outcome (inodeDoWrite world (linksAdded inode) entry.ino)
  match err with
  | .ok sent => return sent
  | .error err => do
      let _ ← outcome (inodeUnlink world turns vnode entry.name)
      throw err

/-- `inode_link` -/
def inodeLink (turns : Nat) (vnode : DirectoryVnode) (entry : NewEntry)
    (inode : Memory UInt8) : Ext2Io Nat := do
  if maxFileName < entry.name.strlen then throw .ENOTSUP
  else do
    let directory := vnode.on (← get).volume
    let blocks := directory.sizeBlocks world.bpi
    let buf ← directory.load world.kalloc world.bpi world.heap blocks
    let found ← loop (linkBody buf vnode.size.toNat entry) turns 0
    match found with
    | none => throw .ENOSYS
    | some changed => do
        let vnode ← store world vnode changed blocks
        countLink world turns vnode entry inode

/-- What `ext2_creat` is asked for beside the name. -/
structure FileAttributes where
  mode : BitVec 16
  uid : BitVec 16
  gid : BitVec 16

/-- The inode that `ext2_creat` makes: `S_IFREG`, the owner and zeros. -/
def FileAttributes.inode (attributes : FileAttributes) : Memory UInt8 :=
  let mode := 0x8000 ||| attributes.mode &&& 0x1ff
  let moded :=
    Memory.copy (fun _ => 0) 0 (Memory.digits mode.toNat) 0 2
  let owned := moded.copy 2 (Memory.digits attributes.uid.toNat) 0 2
  owned.copy 24 (Memory.digits attributes.gid.toNat) 0 2

/-- The inode that `ext2_creat` takes: in the group of the directory first. -/
def takeInode (vnode : DirectoryVnode) : Ext2Io (BitVec 32) := do
  let data := (← get).data
  let taken ← outcome (inodeAlloc world (groupOf .inode data vnode.ino))
  match taken with
  | .ok ino => return ino
  | .error .ENOSPC => inodeAlloc world (-1)
  | .error err => throw err

/-- The end of `ext2_creat`, when an inode has been taken. -/
def linkTaken (turns : Nat) (vnode : DirectoryVnode) (entry : NewEntry)
    (inode : Memory UInt8) : Ext2Io Nat := do
  let linked ← outcome (inodeLink world turns vnode entry inode)
  match linked with
  | .ok 0 => return 0
  | .ok err => do
      let _ ← outcome (inodeFree world entry.ino)
      return err
  | .error err => do
      let _ ← outcome (inodeFree world entry.ino)
      throw err

/-- `ext2_creat` -/
def ext2Creat (turns : Nat) (vnode : DirectoryVnode) (name : CString)
    (attributes : FileAttributes) : Ext2Io Nat := do
  let ino ← takeInode world vnode
  linkTaken world turns vnode ⟨name, ino, 1⟩ attributes.inode

end Calls

end Short

end Idylla.Ext2
