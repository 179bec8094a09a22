import Idylla.Ext2.InodeQuiet
import Idylla.Ext2.File
import Idylla.Lib.Counting
import Idylla.Lib.Run

namespace Idylla.Ext2

open Idylla.Lib

/-!
# The block count of an inode

`inode_do_alloc_block` counts `i_blocks` in blocks of the volume, while
`EXT2_INODE_BLOCKS` takes the count for one in units of 512 bytes.  The two
agree in a file as long as `ext2_write` allocates nothing.
-/

/-- The bytes of a block. -/
def wordBytes (block : Block) : Memory UInt8 :=
  fun index => UInt8.ofNat (block (index / 4) / 256 ^ (index % 4))

/-- The words of a block, from its bytes. -/
def bytesWords (bytes : Memory UInt8) : Block :=
  fun word =>
    (bytes (4 * word)).toNat + 256 * (bytes (4 * word + 1)).toNat +
      65536 * (bytes (4 * word + 2)).toNat +
      16777216 * (bytes (4 * word + 3)).toNat

/-- An inode on its device, `vnode->size` and `vnode->blocks`. -/
structure InodeFile where
  volume : Ext2Volume
  iBlock : Block
  size : Nat
  blocks : Nat

/-- `EXT2_INODE_BLOCKS`, in `int` arithmetic. -/
def ext2InodeBlocks (blkSize blocks : Nat) : Int :=
  (int32 (blocks * 512)).tdiv blkSize

/-- `left`, the offset in `buf` and `start` of a call of `ext2_write`. -/
structure WriteSpan where
  left : Nat
  done : Nat
  start : Nat

/-- The variables before the first block is written. -/
def WriteSpan.first (blkSize len offset : Nat) : WriteSpan :=
  ⟨len, 0, uint32 (offset / blkSize)⟩

/-- How many bytes the head takes. -/
def WriteSpan.headBytes (span : WriteSpan) (blkSize offset : Nat) : Nat :=
  min (blkSize - offset % blkSize) span.left

/-- The variables behind the head. -/
def WriteSpan.behindHead (span : WriteSpan)
    (blkSize offset : Nat) : WriteSpan :=
  if offset % blkSize ≠ 0 then
    let bytes := span.headBytes blkSize offset
    ⟨span.left - bytes, span.done + bytes, uint32 (span.start + 1)⟩
  else
    span

/--
The variables behind the whole blocks: `left` is reduced before `start` is
advanced by `left / block_size`.
-/
def WriteSpan.behindRun (span : WriteSpan) (blkSize : Nat) : WriteSpan :=
  if blkSize ≤ span.left then
    let bytes := roundDown span.left blkSize
    let left := span.left - bytes
    ⟨left, span.done + bytes, uint32 (span.start + left / blkSize)⟩
  else
    span

/-- The arguments of `ext2_write`; `tmpbuf` is what `kalloc` returns. -/
structure WriteCall where
  tmpbuf : Memory UInt8
  buf : Memory UInt8
  len : Nat
  offset : Nat

section Write

variable (blockAlloc : Nat → Nat) (bpi : Nat)

/-- `inode_rw_content` with `EXT2_RW_WRITE`, from a buffer of bytes. -/
def InodeFile.rwWrite (file : InodeFile) (source : Memory UInt8)
    (blocks start : Nat) : Option InodeFile :=
  let buf : Memory Block := fun block =>
    bytesWords fun index => source (block * (4 * bpi) + index)
  (inodeWriteContent blockAlloc bpi buf file.volume file.iBlock blocks
      start).map fun written =>
    { file with volume := written.1, iBlock := written.2.1 }

/--
Read one block, or zeros if it does not exist, change some of its bytes and
write it back: what `ext2_write` does for its head and for its tail.
-/
def InodeFile.patch (file : InodeFile) (tmpbuf source : Memory UInt8)
    (start first bytes : Nat) : Option (InodeFile × Memory UInt8) :=
  (inodeReadContent bpi file.volume file.iBlock
      (fun _ => bytesWords tmpbuf) 1 start).bind fun read =>
    let old : Memory UInt8 :=
      if read.2 = 0 then fun _ => 0 else wordBytes (read.1 0)
    let patched := old.copy first source 0 bytes
    (file.rwWrite blockAlloc bpi patched 1 start).map fun after =>
      (after, patched)

/-- The head of `ext2_write`: the file and `tmpbuf`. -/
def InodeFile.writeHead (file : InodeFile)
    (call : WriteCall) : Option (InodeFile × Memory UInt8) :=
  let blkSize := 4 * bpi
  let span := WriteSpan.first blkSize call.len call.offset
  if call.offset % blkSize ≠ 0 then
    file.patch blockAlloc bpi call.tmpbuf call.buf span.start
      (call.offset % blkSize) (span.headBytes blkSize call.offset)
  else
    some (file, call.tmpbuf)

/-- The whole blocks of `ext2_write`. -/
def InodeFile.writeRun (file : InodeFile) (call : WriteCall)
    (span : WriteSpan) : Option InodeFile :=
  if 4 * bpi ≤ span.left then
    file.rwWrite blockAlloc bpi (fun index => call.buf (span.done + index))
      (uint32 (span.left / (4 * bpi))) span.start
  else
    some file

/-- The tail of `ext2_write`: the file and `left`. -/
def InodeFile.writeTail
    (file : InodeFile) (call : WriteCall) (tmpbuf : Memory UInt8)
    (span : WriteSpan) : Option (InodeFile × Nat) :=
  if 0 < span.left ∧ (call.offset + call.len) % (4 * bpi) ≠ 0 then
    (file.patch blockAlloc bpi tmpbuf
        (fun index => call.buf (span.done + index)) span.start 0
        span.left).map fun patched => (patched.1, 0)
  else
    some (file, span.left)

/--
`ext2_write`: the file and the return value; nothing where a call of
`inode_rw_content` does not return.
-/
def InodeFile.write (file : InodeFile)
    (call : WriteCall) : Option (InodeFile × Int) :=
  let second :=
    (WriteSpan.first (4 * bpi) call.len call.offset).behindHead (4 * bpi)
      call.offset
  let third := second.behindRun (4 * bpi)
  (file.writeHead blockAlloc bpi call).bind fun head =>
    (head.1.writeRun blockAlloc bpi call second).bind fun run =>
      (run.writeTail blockAlloc bpi call head.2 third).map fun tail =>
        let err := int32 (call.len - tail.2)
        ({ tail.1 with
           size := (max (tail.1.size : Int) (call.offset + err)).toNat },
          err)

/-- A call of `ext2_write` that returns. -/
def WriteStep (file : InodeFile) (call : WriteCall)
    (after : InodeFile) : Prop :=
  ∃ err, file.write blockAlloc bpi call = some (after, err)

end Write

/-- The ends of the calls of `inode_rw_content` that `ext2_write` makes. -/
def writeEnds (blkSize len offset : Nat) : List Nat :=
  let first := WriteSpan.first blkSize len offset
  let second := first.behindHead blkSize offset
  let third := second.behindRun blkSize
  (if offset % blkSize ≠ 0 then [first.start + 1] else []) ++
    (if blkSize ≤ second.left then
      [second.start + uint32 (second.left / blkSize)]
    else []) ++
    if 0 < third.left ∧ (offset + len) % blkSize ≠ 0 then [third.start + 1]
    else []

/-- The numbers of the blocks that the inode of a file references. -/
def InodeFile.number (bpi : Nat) (file : InodeFile) : BlockAddress → Nat :=
  numberAt bpi file.volume.blocks file.iBlock

/-- Every call of `inode_rw_content` of a write finds its blocks. -/
def FindsBlocks (bpi : Nat) (file : InodeFile) (call : WriteCall) : Prop :=
  ∀ stop ∈ writeEnds (4 * bpi) call.len call.offset,
    BlocksPresent bpi file.volume file.iBlock stop

/-- `i_blocks * 512` is the size of the data and index blocks of the inode. -/
def CountsBlocks (bpi : Nat) (file : InodeFile) : Prop :=
  ∃ references,
    HasCount (fun address => 2 ≤ file.number bpi address) references ∧
      file.volume.iBlocks * 512 = 4 * bpi * references

/-- Every block in front of the end of a file is there. -/
def WithoutHoles (bpi : Nat) (file : InodeFile) : Prop :=
  ∀ block, block * (4 * bpi) < file.size → 2 ≤ file.number bpi (.data block)

/--
The count is right, and the blocks that it makes cover a file without holes;
from 2 GiB on the size in bytes is no `int`.
-/
structure Truthful (bpi : Nat) (file : InodeFile) : Prop where
  counts : CountsBlocks bpi file
  covers : WithoutHoles bpi file → file.volume.iBlocks * 512 < 2 ^ 31 →
      (file.size : Int) ≤
        ext2InodeBlocks (4 * bpi) file.blocks * (4 * bpi : Nat)

/--
The inode has just been read, its count is right, and no block is referenced
twice.
-/
structure LoadedInode (bpi : Nat) (file : InodeFile) : Prop where
  someEntries : 0 < bpi
  addresses : OneAddressEach (onDevice bpi file.volume.blocks file.iBlock)
  loaded : file.blocks = file.volume.iBlocks
  counts : CountsBlocks bpi file

/-- The inode, its count and what it references are as they were. -/
structure SameInode (bpi : Nat) (file after : InodeFile) : Prop where
  iBlock : after.iBlock = file.iBlock
  iBlocks : after.volume.iBlocks = file.volume.iBlocks
  number : after.number bpi = file.number bpi
  blocks : after.blocks = file.blocks
  size : after.size = file.size

section Writes

variable {blockAlloc : Nat → Nat} {bpi : Nat} {file after last : InodeFile}

theorem SameInode.refl (bpi : Nat) (file : InodeFile) :
    SameInode bpi file file :=
  ⟨rfl, rfl, rfl, rfl, rfl⟩

theorem SameInode.trans (first : SameInode bpi file after)
    (second : SameInode bpi after last) :
    SameInode bpi file last where
  iBlock := second.iBlock.trans first.iBlock
  iBlocks := second.iBlocks.trans first.iBlocks
  number := second.number.trans first.number
  blocks := second.blocks.trans first.blocks
  size := second.size.trans first.size

/-- Blocks up to one are there, and no block is referenced twice. -/
structure Present (bpi : Nat) (file : InodeFile) (stop : Nat) : Prop where
  addresses : OneAddressEach (onDevice bpi file.volume.blocks file.iBlock)
  blocks : BlocksPresent bpi file.volume file.iBlock stop

theorem Present.same {stop : Nat} (present : Present bpi file stop)
    (same : SameInode bpi file after) : Present bpi after stop := by
  have isNumber (address : BlockAddress) :
      numberAt bpi after.volume.blocks after.iBlock address =
        numberAt bpi file.volume.blocks file.iBlock address :=
    congrFun same.number address
  refine ⟨fun address other mapped shared => ?_, fun block below => ?_,
    fun isEnd => ?_⟩
  · have isMapped :
        2 ≤ numberAt bpi file.volume.blocks file.iBlock address := by
      rw [← isNumber]
      exact mapped
    refine present.addresses address other isMapped ?_
    show numberAt bpi file.volume.blocks file.iBlock address =
      numberAt bpi file.volume.blocks file.iBlock other
    rw [← isNumber, ← isNumber]
    exact shared
  · rw [isNumber]
    exact present.blocks.data block below
  · rw [same.iBlock]
    exact present.blocks.double isEnd

theorem rwWrite_same {source : Memory UInt8} {blocks start : Nat}
    (present : Present bpi file (start + blocks))
    (returns : file.rwWrite blockAlloc bpi source blocks start = some after) :
    SameInode bpi file after := by
  obtain ⟨written, isWritten, rfl⟩ := Option.map_eq_some_iff.mp returns
  obtain ⟨sameTable, quiet⟩ :=
    inodeWriteContent_quiet present.addresses present.blocks isWritten
  refine ⟨sameTable, quiet.iBlocks, ?_, rfl, rfl⟩
  rw [sameTable]
  exact quiet.numbers

theorem patch_same
    {tmpbuf source patched : Memory UInt8} {start first bytes : Nat}
    (present : Present bpi file (start + 1))
    (returns :
      file.patch blockAlloc bpi tmpbuf source start first bytes =
        some (after, patched)) : SameInode bpi file after := by
  obtain ⟨read, -, isWritten⟩ := Option.bind_eq_some_iff.mp returns
  obtain ⟨written, isRest, isPair⟩ := Option.map_eq_some_iff.mp isWritten
  cases isPair
  exact rwWrite_same present isRest

theorem write_same {call : WriteCall} {err : Int}
    (addresses : OneAddressEach (onDevice bpi file.volume.blocks file.iBlock))
    (finds : FindsBlocks bpi file call)
    (returns : file.write blockAlloc bpi call = some (after, err)) :
    SameInode bpi file { after with size := file.size } := by
  have present (stop : Nat)
      (isEnd : stop ∈ writeEnds (4 * bpi) call.len call.offset) :
      Present bpi file stop :=
    ⟨addresses, finds stop isEnd⟩
  obtain ⟨head, isHead, returns⟩ := Option.bind_eq_some_iff.mp returns
  obtain ⟨run, isRun, returns⟩ := Option.bind_eq_some_iff.mp returns
  obtain ⟨tail, isTail, isPair⟩ := Option.map_eq_some_iff.mp returns
  have sameHead : SameInode bpi file head.1 := by
    unfold InodeFile.writeHead at isHead
    dsimp only at isHead
    split at isHead
    next unaligned =>
      refine patch_same (present _ ?_) isHead
      unfold writeEnds
      dsimp only
      rw [if_pos unaligned]
      exact List.mem_append_left _
        (List.mem_append_left _ (List.mem_singleton.mpr rfl))
    next aligned =>
      cases isHead
      exact .refl bpi file
  have sameRun : SameInode bpi head.1 run := by
    unfold InodeFile.writeRun at isRun
    split at isRun
    next whole =>
      refine rwWrite_same ((present _ ?_).same sameHead) isRun
      unfold writeEnds
      dsimp only
      rw [if_pos whole]
      exact List.mem_append_left _
        (List.mem_append_right _ (List.mem_singleton.mpr rfl))
    next short =>
      cases isRun
      exact .refl bpi head.1
  have sameTail : SameInode bpi run tail.1 := by
    unfold InodeFile.writeTail at isTail
    split at isTail
    next inBlock =>
      obtain ⟨patched, isPatched, rfl⟩ := Option.map_eq_some_iff.mp isTail
      refine patch_same (((present _ ?_).same sameHead).same sameRun) isPatched
      unfold writeEnds
      dsimp only
      rw [if_pos inBlock]
      exact List.mem_append_right _ (List.mem_singleton.mpr rfl)
    next whole =>
      cases isTail
      exact .refl bpi run
  have same := sameHead.trans (sameRun.trans sameTail)
  cases isPair
  exact ⟨same.iBlock, same.iBlocks, same.number, same.blocks, rfl⟩

theorem ext2InodeBlocks_eq {blkSize references blocks : Nat}
    (someBytes : 0 < blkSize) (small : blocks * 512 < 2 ^ 31)
    (counts : blocks * 512 = blkSize * references) :
    ext2InodeBlocks blkSize blocks = references := by
  have isInt : int32 (blocks * 512) = (blocks * 512 : Nat) := by
    unfold int32
    rw [BitVec.toInt_eq_toNat_cond, BitVec.toNat_ofNat,
      Nat.mod_eq_of_lt (by omega), if_pos (by omega)]
  unfold ext2InodeBlocks
  rw [isInt, counts, ← Int.ofNat_tdiv, Nat.mul_div_cancel_left _ someBytes]

theorem LoadedInode.truthful (loaded : LoadedInode bpi file) :
    Truthful bpi file := by
  have someBytes : 0 < 4 * bpi := Nat.mul_pos (by decide) loaded.someEntries
  refine ⟨loaded.counts, fun noHoles small => ?_⟩
  obtain ⟨references, counted, isTotal⟩ := loaded.counts
  have isCount : ext2InodeBlocks (4 * bpi) file.blocks = references := by
    rw [loaded.loaded]
    exact ext2InodeBlocks_eq someBytes small isTotal
  obtain ⟨needed, isNeeded⟩ :
      ∃ needed, needed = (file.size + 4 * bpi - 1) / (4 * bpi) :=
    ⟨_, rfl⟩
  have parts := Nat.div_add_mod' (file.size + 4 * bpi - 1) (4 * bpi)
  have rest := Nat.mod_lt (file.size + 4 * bpi - 1) someBytes
  rw [← isNeeded] at parts
  have allReferenced : needed ≤ references := by
    have distinct (index other : Nat)
        (same : BlockAddress.data index = .data other) : index = other := by
      cases same
      rfl
    refine counted.le_of_distinct distinct fun block below => ?_
    have scaled := Nat.mul_le_mul_right (4 * bpi) (Nat.succ_le_of_lt below)
    rw [Nat.succ_mul] at scaled
    exact noHoles block (by omega)
  have scaled := Nat.mul_le_mul_right (4 * bpi) allReferenced
  have covers : file.size ≤ references * (4 * bpi) := by omega
  rw [isCount, ← Int.natCast_mul]
  exact Int.ofNat_le.mpr covers

theorem LoadedInode.step {call : WriteCall}
    (loaded : LoadedInode bpi file) (finds : FindsBlocks bpi file call)
    (next : WriteStep blockAlloc bpi file call after) :
    LoadedInode bpi after := by
  obtain ⟨err, returns⟩ := next
  have same := write_same loaded.addresses finds returns
  have isNumber (address : BlockAddress) :
      after.number bpi address = file.number bpi address :=
    congrFun same.number address
  refine
    { someEntries := loaded.someEntries
      addresses := fun address other mapped shared => ?_
      loaded := same.blocks.trans (loaded.loaded.trans same.iBlocks.symm)
      counts := ?_ }
  · have isMapped : 2 ≤ file.number bpi address := isNumber address ▸ mapped
    refine loaded.addresses address other isMapped ?_
    exact (isNumber address).symm.trans (shared.trans (isNumber other))
  · obtain ⟨references, counted, isTotal⟩ := loaded.counts
    refine ⟨references, counted.congr fun address => ?_, ?_⟩
    · rw [isNumber]
    · exact (congrArg (· * 512) same.iBlocks).trans isTotal

end Writes

/--
Along every run of writes that find their blocks the count of the inode is the
size of what it references, and it covers a file without holes.
-/
theorem writes_truthful
    {blockAlloc : Nat → Nat} {bpi : Nat} {first last : InodeFile}
    {calls : List WriteCall} (loaded : LoadedInode bpi first)
    (run :
      Run (Guarded (FindsBlocks bpi) (WriteStep blockAlloc bpi)) first calls
        last) : Truthful bpi last := by
  have isLoaded : LoadedInode bpi last := by
    induction run with
    | start =>
      exact loaded
    | extend before next ih =>
      exact ih.step next.1 next.2
  exact isLoaded.truthful

/-- A file of one block with 1024 bytes, just loaded. -/
def oneBlockFile : InodeFile where
  volume := { zeroVolume with iBlocks := 2 }
  iBlock := fun pos => if pos = 0 then 2 else 0
  size := 1024
  blocks := 2

theorem oneBlockFile_number (address : BlockAddress) :
    oneBlockFile.number 256 address = if address = .data 0 then 2 else 0 := by
  show numberAt 256 (fun _ => zeroBlock)
    (fun pos => if pos = 0 then 2 else 0) address = _
  cases address with
  | single =>
    rfl
  | double =>
    rfl
  | table index =>
    simp [numberAt, entryAt]
  | data block =>
    by_cases isFirst : block = 0
    · simp [numberAt, isFirst]
    · simp [numberAt, entryAt, isFirst]

theorem oneBlockFile_loaded : LoadedInode 256 oneBlockFile where
  someEntries := by decide
  addresses := fun address other mapped shared => by
    have isNumber := oneBlockFile_number address
    have isOther := oneBlockFile_number other
    have isMapped : 2 ≤ oneBlockFile.number 256 address := mapped
    have isShared :
        oneBlockFile.number 256 address = oneBlockFile.number 256 other :=
      shared
    split at isNumber
    next isFirst =>
      split at isOther
      next otherIsFirst => rw [isFirst, otherIsFirst]
      next otherIsNone => omega
    next isNone => omega
  loaded := rfl
  counts := by
    refine ⟨1, ⟨[.data 0], List.pairwise_singleton _ _,
      fun address => ?_, rfl⟩, rfl⟩
    show address ∈ [.data 0] ↔ 2 ≤ oneBlockFile.number 256 address
    rw [List.mem_singleton, oneBlockFile_number]
    by_cases isFirst : address = .data 0
    · simp [isFirst]
    · simp [isFirst]

/-- The write of one block. -/
def blockWrite (offset : Nat) : WriteCall :=
  ⟨fun _ => 0, fun _ => 0, 1024, offset⟩

/-- The block of the file is written again. -/
theorem sameBlock_truthful :
    ∃ last,
      Run (Guarded (FindsBlocks 256) (WriteStep (fun call => call + 3) 256))
        oneBlockFile [blockWrite 0] last ∧
      Truthful 256 last := by
  have finds : FindsBlocks 256 oneBlockFile (blockWrite 0) := by
    intro stop isEnd
    have ends : writeEnds 1024 1024 0 = [1] := by decide
    have isOne : stop ∈ writeEnds 1024 1024 0 := isEnd
    rw [ends] at isOne
    obtain rfl := List.mem_singleton.mp isOne
    refine ⟨fun block below => ?_, fun isLast => absurd isLast (by decide)⟩
    have isFirst : block = 0 := by omega
    show 2 ≤ oneBlockFile.number 256 (.data block)
    rewrite [isFirst, oneBlockFile_number, if_pos rfl]
    exact Nat.le_refl 2
  exact ⟨_, .single ⟨finds, _, rfl⟩,
    writes_truthful oneBlockFile_loaded (.single ⟨finds, _, rfl⟩)⟩

/-- A second block is counted as one unit of 512 bytes. -/
theorem secondBlock_not_truthful :
    LoadedInode 256 oneBlockFile ∧
      ∃ last,
        Run (WriteStep (fun call => call + 3) 256) oneBlockFile
          [blockWrite 1024] last ∧
        ¬ Truthful 256 last := by
  refine ⟨oneBlockFile_loaded, _, .single ⟨_, rfl⟩, fun truthful => ?_⟩
  obtain ⟨references, -, isTotal⟩ := truthful.counts
  have isOdd : 3 * 512 = 4 * 256 * references := isTotal
  omega

end Idylla.Ext2
