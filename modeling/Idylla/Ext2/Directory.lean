import Idylla.Errno
import Idylla.Ext2.BlockCount
import Idylla.Ext2.FileSlices
import Idylla.Lib.LittleEndian
import Idylla.Lib.Loops

namespace Idylla.Ext2

open Idylla.Lib

/-!
# Directories

`ext2_lookup`, `inode_link`, `inode_unlink` and `ext2_getdents` load all blocks
of a directory into one buffer and go through its entries by `rec_len`.  The
device does not fail.  An access behind the end of a buffer is a fault, so
positions are plain numbers: a buffer is no larger than the kernel heap.
-/

/-- `KHEAP_SIZE` -/
def heapSize : Nat := 0x10000000

/--
The bytes that `kalloc` gives for a size, none for a null pointer; nothing
where it panics because the heap has no more.
-/
structure Kalloc where
  capacity : BitVec 32 → Option Nat
  granted : ∀ size length, capacity size = some length →
      length = 0 ∨ length = size.toNat
  bounded : ∀ size length, capacity size = some length → length ≤ heapSize

/-- A buffer and the number of its bytes. -/
structure KernelBuffer where
  bytes : Memory UInt8
  length : Nat

/-- Read something from so many bytes of a buffer. -/
def KernelBuffer.read {Value : Type} (buf : KernelBuffer) (first count : Nat)
    (value : Memory UInt8 → Value) : Except Fault Value :=
  if first + count ≤ buf.length then .ok (value buf.bytes)
  else .error .strays

/-- Write so many bytes of a buffer. -/
def KernelBuffer.write (buf : KernelBuffer) (first count : Nat)
    (source : Memory UInt8) : Except Fault KernelBuffer :=
  if first + count ≤ buf.length then
    .ok { buf with bytes := buf.bytes.copy first source 0 count }
  else
    .error .strays

/-- A string in memory, without its terminator. -/
structure CString where
  chars : List UInt8
  noNul : ∀ char ∈ chars, char ≠ 0

/-- The bytes of a string; the terminator is the first one behind them. -/
def CString.memory (name : CString) : Memory UInt8 :=
  fun index => name.chars.getD index 0

/-- `strlen` -/
def CString.strlen (name : CString) : Nat :=
  name.chars.length

/-- `inode` of the `struct ext2_dir_entry` at a position. -/
def entryInode (bytes : Memory UInt8) (pos : Nat) : BitVec 32 :=
  BitVec.ofNat 32 (bytes.number pos 4)

/-- `rec_len` of the entry at a position. -/
def entryRecLen (bytes : Memory UInt8) (pos : Nat) : Nat :=
  bytes.number (pos + 4) 2

/-- `name_len` of the entry at a position. -/
def entryNameLen (bytes : Memory UInt8) (pos : Nat) : Nat :=
  bytes.number (pos + 6) 1

/-- The size of an entry with so many bytes of name. -/
def entrySize (nameLen : Nat) : Nat :=
  roundUp (8 + nameLen) 4

/-- `EXT2_FILE_NAME` -/
def maxFileName : Nat := 255

/--
Whether `strncmp` finds `n` bytes of a string at an address.  It compares
before it looks at `n`: with `n` zero it goes on behind a terminator that is in
both.
-/
def strncmpEqual (buf : KernelBuffer) :
    List UInt8 → Nat → Nat → Except Fault Bool
  | [], address, n => do
      let byte ← buf.read address 1 fun bytes => bytes address
      if byte = 0 then
        if n = 1 then return true else throw .strays
      else
        return false
  | char :: rest, address, n => do
      let byte ← buf.read address 1 fun bytes => bytes address
      if byte = char then
        if n = 1 ∨ rest = [] then return true
        else strncmpEqual buf rest (address + 1) (n - 1)
      else
        return false

/-- Whether the entry at a position has a name. -/
def entryMatches (buf : KernelBuffer) (name : CString)
    (pos : Nat) : Except Fault Bool := do
  let nameLen ← buf.read (pos + 6) 1 fun bytes => entryNameLen bytes pos
  if name.strlen = nameLen then
    strncmpEqual buf name.chars (pos + 8) nameLen
  else
    return false

/-- The body of the loop of `ext2_lookup`; 0 stands for no inode. -/
def lookupBody (buf : KernelBuffer) (size : Nat) (name : CString)
    (pos : Nat) : Except Fault (Turn Nat (BitVec 32)) := do
  if pos < size then
    let recLen ← buf.read (pos + 4) 2 fun bytes => entryRecLen bytes pos
    if recLen = 0 then
      return .leave 0
    if ← entryMatches buf name pos then
      let ino ← buf.read pos 4 fun bytes => entryInode bytes pos
      return .leave ino
    return .again (pos + recLen)
  else
    return .leave 0

/-- The variables of the loop of `inode_unlink`. -/
structure UnlinkVars where
  pos : Nat
  prev : Option Nat

/--
The body of the loop of `inode_unlink`: the changed buffer, or nothing if the
name is not there.
-/
def unlinkBody (buf : KernelBuffer) (size : Nat) (name : CString)
    (vars : UnlinkVars) :
    Except Fault (Turn UnlinkVars (Option KernelBuffer)) := do
  if vars.pos < size then
    let recLen ←
      buf.read (vars.pos + 4) 2 fun bytes => entryRecLen bytes vars.pos
    if recLen = 0 then
      return .leave none
    if ← entryMatches buf name vars.pos then
      match vars.prev with
      | some prev =>
        let before ←
          buf.read (prev + 4) 2 fun bytes => entryRecLen bytes prev
        let changed ←
          buf.write (prev + 4) 2 (Memory.digits (before + recLen))
        return .leave (some changed)
      | none =>
        let changed ← buf.write vars.pos 4 (Memory.digits 0)
        return .leave (some changed)
    return .again ⟨vars.pos + recLen, some vars.pos⟩
  else
    return .leave none

/-- What `inode_link` puts into an entry. -/
structure NewEntry where
  name : CString
  ino : BitVec 32
  fileType : UInt8

/-- The assignments to an entry; `strcpy` writes the terminator as well. -/
def KernelBuffer.place (buf : KernelBuffer) (pos : Nat)
    (entry : NewEntry) : Except Fault KernelBuffer := do
  let buf ← buf.write pos 4 (Memory.digits entry.ino.toNat)
  let buf ← buf.write (pos + 6) 1 (Memory.digits entry.name.strlen)
  let buf ← buf.write (pos + 7) 1 fun _ => entry.fileType
  buf.write (pos + 8) (entry.name.strlen + 1) entry.name.memory

/--
The body of the loop of `inode_link`: the changed buffer, or nothing if no
record has room.
-/
def linkBody (buf : KernelBuffer) (size : Nat) (entry : NewEntry)
    (offset : Nat) : Except Fault (Turn Nat (Option KernelBuffer)) := do
  let recLen := entrySize entry.name.strlen
  if offset < size then
    let entLen ←
      buf.read (offset + 4) 2 fun bytes => entryRecLen bytes offset
    if entLen < recLen then
      return .again (offset + entLen)
    let inode ← buf.read offset 4 fun bytes => entryInode bytes offset
    if inode ≠ 0 then
      let nameLen ←
        buf.read (offset + 6) 1 fun bytes => entryNameLen bytes offset
      let tmp := entrySize nameLen
      if entLen < tmp + recLen then
        return .again (offset + entLen)
      -- The entry is split in two.
      let cut ← buf.write (offset + 4) 2 (Memory.digits tmp)
      let split ←
        cut.write (offset + tmp + 4) 2 (Memory.digits (entLen - tmp))
      let changed ← split.place (offset + tmp) entry
      return .leave (some changed)
    let changed ← buf.place offset entry
    return .leave (some changed)
  else
    return .leave none

/-- `struct dirent`, without what lies behind the name. -/
structure Dirent where
  ino : BitVec 32
  off : BitVec 32
  reclen : Nat
  name : List UInt8

/--
The variables of the loop of `ext2_getdents`: `*offset`, `err` and what has
been written to `dirp`.
-/
structure GetdentsVars where
  offset : Nat
  err : BitVec 32
  dirents : List Dirent

/-- The size of a `struct dirent` with so many bytes of name. -/
def direntSize (nameLen : Nat) : Nat :=
  roundUp (10 + nameLen + 1) 4

/-- The body of the loop of `ext2_getdents`. -/
def getdentsBody (buf : KernelBuffer) (size : Nat) (len : BitVec 32)
    (vars : GetdentsVars) :
    Except Fault (Turn GetdentsVars GetdentsVars) := do
  let pos := vars.offset
  if pos < size then
    let recLen ← buf.read (pos + 4) 2 fun bytes => entryRecLen bytes pos
    if recLen = 0 then
      return .leave vars
    let nameLen ← buf.read (pos + 6) 1 fun bytes => entryNameLen bytes pos
    let reclen := direntSize nameLen
    if len ≤ vars.err + BitVec.ofNat 32 reclen then
      return .leave vars
    let ino ← buf.read pos 4 fun bytes => entryInode bytes pos
    let name ← buf.read (pos + 8) nameLen fun bytes =>
      (List.range nameLen).map fun index => bytes (pos + 8 + index)
    let dirent : Dirent :=
      { ino := ino
        off := BitVec.ofNat 32 (pos + recLen)
        reclen := reclen
        name := name }
    return .again
      { offset := pos + recLen
        err := vars.err + BitVec.ofNat 32 reclen
        dirents := vars.dirents ++ [dirent] }
  else
    return .leave vars

/-- The inode of a directory: its blocks, `i_size` and `i_blocks`. -/
structure Directory where
  volume : Ext2Volume
  iBlock : Block
  size : BitVec 32
  blocks : BitVec 32

/-- The bytes of a buffer of blocks. -/
def blockBytes (bpi : Nat) (blocks : Memory Block) : Memory UInt8 :=
  fun index => wordBytes (blocks (index / (4 * bpi))) (index % (4 * bpi))

section Calls

variable (kalloc : Kalloc) (bpi : Nat)

/-- The blocks that `ext2_lookup` and `inode_unlink` load. -/
def Directory.countedBlocks (directory : Directory) : Int :=
  ext2InodeBlocks (4 * bpi) directory.blocks.toNat

/-- The blocks that `inode_link` and `ext2_getdents` load. -/
def Directory.sizeBlocks (directory : Directory) : Int :=
  int32 (roundUp directory.size.toNat (4 * bpi) / (4 * bpi))

/--
A buffer for so many blocks with what `inode_rw_content` reads into it; `heap`
is what the buffer has held before.
-/
def Directory.load (directory : Directory) (heap : Memory Block)
    (blocks : Int) : Except Fault KernelBuffer :=
  match kalloc.capacity (BitVec.ofInt 32 (blocks * (4 * bpi : Nat))) with
  | none => .error .panics
  | some length =>
    match inodeReadContent bpi directory.volume directory.iBlock heap
        (BitVec.ofInt 32 blocks).toNat 0 with
    -- It does not return, or it reads in front of an index block.
    | none => .error .unfinished
    | some (content, count) =>
      if count * (4 * bpi) ≤ length then
        .ok ⟨blockBytes bpi content, length⟩
      else
        .error .strays

/-- The words of the blocks of a buffer. -/
def KernelBuffer.words (buf : KernelBuffer) : Memory Block :=
  fun block =>
    bytesWords fun index => buf.bytes (block * (4 * bpi) + index)

/-- So many blocks of a buffer written by `inode_rw_content`. -/
def Directory.store (blockAlloc : Nat → Nat)
    (directory : Directory) (buf : KernelBuffer)
    (blocks : Int) : Except Fault Directory :=
  let count := (BitVec.ofInt 32 blocks).toNat
  if count * (4 * bpi) ≤ buf.length then
    match inodeWriteContent blockAlloc bpi (buf.words bpi) directory.volume
        directory.iBlock count 0 with
    | none => .error .unfinished
    | some (volume, iBlock, _) =>
      .ok { directory with volume := volume, iBlock := iBlock }
  else
    .error .strays

variable (heap : Memory Block) (turns : Nat)

/-- `ext2_lookup` -/
def ext2Lookup (directory : Directory)
    (name : CString) : Except Fault (BitVec 32) := do
  let buf ← directory.load kalloc bpi heap (directory.countedBlocks bpi)
  loop (lookupBody buf directory.size.toNat name) turns 0

/-- `ext2_getdents` -/
def ext2Getdents (directory : Directory) (len : BitVec 32)
    (offset : Nat) : Except Fault GetdentsVars := do
  let buf ← directory.load kalloc bpi heap (directory.sizeBlocks bpi)
  loop (getdentsBody buf directory.size.toNat len) turns ⟨offset, 0, []⟩

variable (blockAlloc : Nat → Nat)

/-- `inode_unlink` -/
def inodeUnlink (directory : Directory)
    (name : CString) : Except Fault (Directory × Except Errno Nat) := do
  let blocks := directory.countedBlocks bpi
  let buf ← directory.load kalloc bpi heap blocks
  match ← loop (unlinkBody buf directory.size.toNat name) turns ⟨0, none⟩ with
  | none => return (directory, .error .ENOENT)
  | some changed =>
    let after ← directory.store bpi blockAlloc changed blocks
    return (after, .ok 0)

/--
The block of the inode table with an inode and its first byte there; nothing
for a number that is refused.
-/
abbrev InodeSlot := Option (Nat × Nat)

/-- `inode_do_write` -/
def Ext2Volume.inodeDoWrite (volume : Ext2Volume) (slot : InodeSlot)
    (inode : Memory UInt8) : Ext2Volume × Except Errno Nat :=
  match slot with
  | none => (volume, .error .EINVAL)
  | some (block, byte) =>
    let changed :=
      (wordBytes (volume.blocks block)).copy byte inode 0 128
    (volume.bdevWrite block (bytesWords changed), .ok 0)

/-- `i_links_count++` of a `struct ext2_inode`. -/
def linksAdded (inode : Memory UInt8) : Memory UInt8 :=
  inode.copy 26 (Memory.digits (inode.number 26 2 + 1)) 0 2

/-- The inode that is linked: its place and its bytes. -/
structure LinkedInode where
  slot : InodeSlot
  bytes : Memory UInt8

/-- The end of `inode_link`, when the directory has been written. -/
def countLink (directory : Directory) (name : CString)
    (inode : LinkedInode) : Except Fault (Directory × Except Errno Nat) := do
  let (volume, err) :=
    directory.volume.inodeDoWrite inode.slot (linksAdded inode.bytes)
  let written := { directory with volume := volume }
  match err with
  | .ok sent => return (written, .ok sent)
  | .error errno =>
    let (undone, _) ←
      inodeUnlink kalloc bpi heap turns blockAlloc written name
    return (undone, .error errno)

/-- What `inode_link` does behind its loop. -/
def finishLink (directory : Directory) (name : CString) (inode : LinkedInode) :
    Option KernelBuffer → Except Fault (Directory × Except Errno Nat)
  | none => return (directory, .error .ENOSYS)
  | some changed => do
      let after ←
        directory.store bpi blockAlloc changed (directory.sizeBlocks bpi)
      countLink kalloc bpi heap turns blockAlloc after name inode

/-- `inode_link`; `heapAgain` is for the buffer of `inode_unlink`. -/
def inodeLink
    (heapAgain : Memory Block) (directory : Directory) (entry : NewEntry)
    (inode : LinkedInode) :
    Except Fault (Directory × Except Errno Nat) := do
  if maxFileName < entry.name.strlen then
    return (directory, .error .ENOTSUP)
  let buf ← directory.load kalloc bpi heap (directory.sizeBlocks bpi)
  let found ← loop (linkBody buf directory.size.toNat entry) turns 0
  finishLink kalloc bpi heapAgain turns blockAlloc directory entry.name inode
    found

end Calls

end Idylla.Ext2
