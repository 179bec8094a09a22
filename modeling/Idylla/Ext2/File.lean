import Mathlib.Algebra.Group.Int.Defs
import Mathlib.Algebra.Group.Nat.Defs
import Idylla.Lib.Memory

namespace Idylla.Ext2

open Idylla.Lib

/-!
# Reading and writing ext2 files

`ext2_read` and `ext2_write` split a byte range into an unaligned head, a run
of whole blocks and a partial tail, and move blocks with `inode_rw_content`.
Here `inode_rw_content` is the store of logical blocks it is meant to be: the
blocks of a file are numbered from zero and the first `mapped` of them exist.
-/

/-- The logical blocks of a file; block `b` starts at byte `b * blockSize`. -/
structure Content where
  bytes : Memory UInt8
  mapped : Nat

/-- The fields of `struct vnode` that reading and writing use. -/
structure Ext2Vnode where
  content : Content
  size : Nat
  blockSize : Nat

/-- The value of an unsigned number in a `uint32_t`. -/
def uint32 (number : Nat) : Nat :=
  number % 2 ^ 32

/-- The value of an unsigned number in an `int`. -/
def int32 (number : Nat) : Int :=
  (BitVec.ofNat 32 number).toInt

/-- `ROUND_DOWN` -/
def roundDown (number unit : Nat) : Nat :=
  number - number % unit

/--
`inode_rw_content` with `EXT2_RW_READ`: the blocks up to the end of the content
are copied to the target, and their number is returned.
-/
def contentRead (blockSize : Nat) (content : Content)
    (target : Memory UInt8) (targetAt blocks start : Nat) :
    Memory UInt8 × Nat :=
  let count := min blocks (content.mapped - start)
  (target.copy targetAt content.bytes (start * blockSize) (count * blockSize),
    count)

/--
`inode_rw_content` with `EXT2_RW_WRITE`: missing blocks in front of the range
are created and filled with zeros.
-/
def contentWrite (blockSize : Nat) (content : Content)
    (source : Memory UInt8) (sourceAt blocks start : Nat) : Content where
  bytes :=
    (content.bytes.fill (content.mapped * blockSize) 0
        ((start - content.mapped) * blockSize)).copy
      (start * blockSize) source sourceAt (blocks * blockSize)
  mapped := max content.mapped (start + blocks)

/--
The local variables of a transfer: `left`, the offset in `buf`, `start`, and
the memory behind `tmpbuf`, which `kalloc` hands out with any contents.
-/
structure Cursor where
  left : Nat
  done : Nat
  start : Nat
  tmpbuf : Memory UInt8

/-- The variables before the first block is moved. -/
def Cursor.first
    (blockSize len offset : Nat) (tmpbuf : Memory UInt8) : Cursor where
  left := len
  done := 0
  start := uint32 (offset / blockSize)
  tmpbuf := tmpbuf

/-- The head of `ext2_read`. -/
def readHead (blockSize : Nat) (content : Content) (offset : Nat)
    (buf : Memory UInt8) (cursor : Cursor) : Memory UInt8 × Cursor :=
  if offset % blockSize ≠ 0 then
    let block :=
      (contentRead blockSize content cursor.tmpbuf 0 1 cursor.start).1
    let bytes := min (blockSize - offset % blockSize) cursor.left
    (buf.copy cursor.done block (offset % blockSize) bytes,
      { left := cursor.left - bytes
        done := cursor.done + bytes
        start := uint32 (cursor.start + 1)
        tmpbuf := block })
  else
    (buf, cursor)

/-- The whole blocks of `ext2_read`. -/
def readRun (blockSize : Nat) (content : Content)
    (buf : Memory UInt8) (cursor : Cursor) : Memory UInt8 × Cursor :=
  if blockSize ≤ cursor.left then
    let bytes := roundDown cursor.left blockSize
    ((contentRead blockSize content buf cursor.done
        (uint32 (cursor.left / blockSize)) cursor.start).1,
      { cursor with
        left := cursor.left - bytes
        done := cursor.done + bytes
        start := uint32 (cursor.start + bytes / blockSize) })
  else
    (buf, cursor)

/-- The tail of `ext2_read`. -/
def readTail (blockSize : Nat) (content : Content)
    (buf : Memory UInt8) (cursor : Cursor) : Memory UInt8 × Cursor :=
  if 0 < cursor.left then
    let block :=
      (contentRead blockSize content cursor.tmpbuf 0 1 cursor.start).1
    (buf.copy cursor.done block 0 cursor.left,
      { cursor with left := 0, tmpbuf := block })
  else
    (buf, cursor)

/-- `len` cut to the size of the file; `none` for the early `return 0`. -/
def readLength (vnode : Ext2Vnode) (len offset : Nat) : Option Nat :=
  if vnode.size ≤ offset + len then
    if vnode.size < offset then none else some (vnode.size - offset)
  else
    some len

/-- `ext2_read`: the caller's buffer and the return value. -/
def ext2Read (vnode : Ext2Vnode) (tmpbuf buf : Memory UInt8)
    (len offset : Nat) : Memory UInt8 × Int :=
  match readLength vnode len offset with
  | none => (buf, 0)
  | some len =>
    let head :=
      readHead vnode.blockSize vnode.content offset buf
        (.first vnode.blockSize len offset tmpbuf)
    let run := readRun vnode.blockSize vnode.content head.1 head.2
    let tail := readTail vnode.blockSize vnode.content run.1 run.2
    (tail.1, int32 (len - tail.2.left))

/--
Read one block, or zeros if it does not exist, change some of its bytes and
write it back: what `ext2_write` does for its head and for its tail.
-/
def patchBlock (blockSize : Nat) (content : Content) (buf : Memory UInt8)
    (cursor : Cursor) (target bytes : Nat) : Content × Memory UInt8 :=
  let old :=
    contentRead blockSize content cursor.tmpbuf 0 1 cursor.start
  let block :=
    if old.2 = 0 then old.1.fill 0 0 blockSize else old.1
  let patched := block.copy target buf cursor.done bytes
  (contentWrite blockSize content patched 0 1 cursor.start, patched)

/-- The head of `ext2_write`. -/
def writeHead (blockSize : Nat) (buf : Memory UInt8) (offset : Nat)
    (content : Content) (cursor : Cursor) : Content × Cursor :=
  if offset % blockSize ≠ 0 then
    let bytes := min (blockSize - offset % blockSize) cursor.left
    let patched :=
      patchBlock blockSize content buf cursor (offset % blockSize) bytes
    (patched.1,
      { left := cursor.left - bytes
        done := cursor.done + bytes
        start := uint32 (cursor.start + 1)
        tmpbuf := patched.2 })
  else
    (content, cursor)

/--
The whole blocks of `ext2_write`: `left` is reduced before `start` is advanced
by `left / block_size`.
-/
def writeRun (blockSize : Nat) (buf : Memory UInt8)
    (content : Content) (cursor : Cursor) : Content × Cursor :=
  if blockSize ≤ cursor.left then
    let written :=
      contentWrite blockSize content buf cursor.done
        (uint32 (cursor.left / blockSize)) cursor.start
    let done := cursor.done + roundDown cursor.left blockSize
    let left := cursor.left - roundDown cursor.left blockSize
    (written,
      { cursor with
        left := left
        done := done
        start := uint32 (cursor.start + left / blockSize) })
  else
    (content, cursor)

/-- The tail of `ext2_write`; `stop` is `offset + len`. -/
def writeTail (blockSize : Nat) (buf : Memory UInt8) (stop : Nat)
    (content : Content) (cursor : Cursor) : Content × Cursor :=
  if 0 < cursor.left ∧ stop % blockSize ≠ 0 then
    let patched :=
      patchBlock blockSize content buf cursor 0 cursor.left
    (patched.1, { cursor with left := 0, tmpbuf := patched.2 })
  else
    (content, cursor)

/-- The three parts of `ext2_write`. -/
def writeContent (blockSize : Nat) (buf : Memory UInt8) (len offset : Nat)
    (tmpbuf : Memory UInt8) (content : Content) : Content × Cursor :=
  let head :=
    writeHead blockSize buf offset content (.first blockSize len offset tmpbuf)
  let run := writeRun blockSize buf head.1 head.2
  writeTail blockSize buf (offset + len) run.1 run.2

/-- `ext2_write`: the file after the call and the return value. -/
def ext2Write (vnode : Ext2Vnode) (tmpbuf buf : Memory UInt8)
    (len offset : Nat) : Ext2Vnode × Int :=
  let written :=
    writeContent vnode.blockSize buf len offset tmpbuf vnode.content
  let err := int32 (len - written.2.left)
  ({ vnode with
     content := written.1
     size := (max (vnode.size : Int) (offset + err)).toNat },
    err)

end Idylla.Ext2
