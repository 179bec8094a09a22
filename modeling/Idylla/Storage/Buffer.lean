import Idylla.Errno
import Idylla.Lib.Memory

namespace Idylla.Storage

open Idylla.Lib

/-!
# The storage buffer cache

`storage_buffer_rw` serves sector requests through a list of 64 KiB buffers.
`LIST_FOREACH` is a recursion over the part of the list that is still ahead of
the loop variable; a buffer inserted behind the loop variable is returned in
front of the rest.  Every `memcpy` of the source moves whole sectors, so the
data of a buffer and the caller's memory are sector memories.
-/

/-- The contents of one 512-byte sector. -/
abbrev Sector := Vector UInt8 512

/-- `STORAGE_BUFER_SIZE`, in bytes. -/
def storageBuferSize : Nat := 0x10000

/-- `STORAGE_BUFER_SIZE / 512`: the sectors one buffer holds. -/
abbrev bufferSectors : Nat := 128

example : storageBuferSize / 512 = bufferSectors := by decide

/-- `ROUND_DOWN(off, STORAGE_BUFER_SIZE / 512)`. -/
def roundDown (off : Nat) : Nat :=
  off - off % bufferSectors

/-- The fields of `struct storage_buffer` that the cache reads or writes. -/
structure StorageBuffer where
  start : Nat
  data : Memory Sector
  lastUsed : Nat
  used : Nat
  isDirty : Bool

/-- `STORAGE_RW_READ` and `STORAGE_RW_WRITE`. -/
inductive StorageRw where
  | read
  | write
  deriving Repr, DecidableEq

/--
`storage->ops->read` for one whole buffer: the buffer memory after the call,
or `none` when the driver returns a negative value.
-/
abbrev OpsRead := Nat → Option (Memory Sector)

/-- Read one whole buffer from the device; `none` when the driver fails. -/
def bufferRead (opsRead : OpsRead) (ticks start : Nat) : Option StorageBuffer :=
  (opsRead start).map fun data =>
    { start := start
      data := data
      lastUsed := ticks
      used := 1
      isDirty := false }

/-- The loop variables `buf`, `off` and `left` of `storage_buffer_rw`. -/
structure Transfer where
  /-- The caller's memory. -/
  buf : Memory Sector
  /-- Sectors by which `buf` has been advanced. -/
  done : Nat
  off : Nat
  left : Nat

/--
The `memcpy` between one buffer and the caller's memory, with the update of
`left`, `buf` and `off` that follows it.
-/
def transferSectors
    (rw : StorageRw) (buffer : StorageBuffer) (cursor : Transfer) :
    StorageBuffer × Transfer :=
  let sects :=
    min cursor.left (bufferSectors - (cursor.off - buffer.start))
  let inBuffer := cursor.off - buffer.start
  match rw with
  | .read =>
    (buffer,
      { buf := cursor.buf.copy cursor.done buffer.data inBuffer sects
        done := cursor.done + sects
        off := cursor.off + sects
        left := cursor.left - sects })
  | .write =>
    ({ buffer with
        data := buffer.data.copy inBuffer cursor.buf cursor.done sects
        isDirty := true },
      { buf := cursor.buf
        done := cursor.done + sects
        off := cursor.off + sects
        left := cursor.left - sects })

/-- The `last_used` and `used` bookkeeping of a buffer that is hit. -/
def StorageBuffer.touch
    (ticks : Nat) (buffer : StorageBuffer) : StorageBuffer :=
  { buffer with lastUsed := ticks, used := buffer.used + 1 }

/-- What a loop of `storage_buffer_rw` leaves behind. -/
structure LoopResult where
  buffers : List StorageBuffer
  cursor : Transfer
  /-- A buffer could not be read and the function returns `-EIO`. -/
  failed : Bool

/-- Put a buffer the loop has passed back in front of the result. -/
def LoopResult.behind
    (buffer : StorageBuffer) (result : LoopResult) : LoopResult :=
  { result with buffers := buffer :: result.buffers }

/--
The `LIST_FOREACH` of `storage_buffer_rw`, from the buffer the loop variable
points to on.
-/
def walkBuffers (opsRead : OpsRead) (ticks : Nat) (rw : StorageRw) :
    List StorageBuffer → Transfer → LoopResult
  | [], cursor =>
    { buffers := [], cursor := cursor, failed := false }
  | buffer :: rest, cursor =>
    if buffer.start ≤ cursor.off then
      if buffer.start + bufferSectors < cursor.off then
        match rest with
        | [] =>
          -- no `buffer2`: the source leaves the loop
          { buffers := [buffer], cursor := cursor, failed := false }
        | next :: _ =>
          if next.start ≤ cursor.off then
            (walkBuffers opsRead ticks rw rest cursor).behind buffer
          else
            match bufferRead opsRead ticks (roundDown cursor.off) with
            | none =>
              { buffers := buffer :: rest
                cursor := cursor
                failed := true }
            | some inserted =>
              let moved :=
                transferSectors rw (inserted.touch ticks) cursor
              ((walkBuffers opsRead ticks rw rest moved.2).behind
                moved.1).behind buffer
      else
        let moved := transferSectors rw (buffer.touch ticks) cursor
        (walkBuffers opsRead ticks rw rest moved.2).behind moved.1
    else
      (walkBuffers opsRead ticks rw rest cursor).behind buffer

theorem roundDown_bounds (off : Nat) :
    roundDown off ≤ off ∧ off < roundDown off + bufferSectors := by
  unfold roundDown bufferSectors
  omega

theorem roundDown_aligned (off : Nat) :
    roundDown off % bufferSectors = 0 := by
  unfold roundDown bufferSectors
  omega

theorem holds_iff_roundDown {start off : Nat}
    (aligned : start % bufferSectors = 0) :
    (start ≤ off ∧ off < start + bufferSectors) ↔ start = roundDown off := by
  unfold roundDown bufferSectors at *
  omega

theorem lt_roundDown {start off : Nat} (aligned : start % bufferSectors = 0)
    (ended : start + bufferSectors ≤ off) : start < roundDown off := by
  unfold roundDown bufferSectors at *
  omega

theorem bufferRead_start
    {opsRead : OpsRead} {ticks start : Nat} {buffer : StorageBuffer}
    (isRead : bufferRead opsRead ticks start = some buffer) :
    buffer.start = start := by
  obtain ⟨data, _, rfl⟩ := Option.map_eq_some_iff.mp isRead
  rfl

theorem transferSectors_left
    (rw : StorageRw) (buffer : StorageBuffer) (cursor : Transfer) :
    (transferSectors rw buffer cursor).2.left =
      cursor.left -
        min cursor.left (bufferSectors - (cursor.off - buffer.start)) := by
  cases rw <;> rfl

/--
The `while (left > 0)` loop: read the buffers that are still missing and
append each at the end of the buffer list.
-/
def appendBuffers (opsRead : OpsRead) (ticks : Nat) (rw : StorageRw)
    (buffers : List StorageBuffer) (cursor : Transfer) : LoopResult :=
  if cursor.left = 0 then
    { buffers := buffers, cursor := cursor, failed := false }
  else
    match _isRead : bufferRead opsRead ticks (roundDown cursor.off) with
    | none =>
      { buffers := buffers, cursor := cursor, failed := true }
    | some appended =>
      appendBuffers opsRead ticks rw
        (buffers ++ [(transferSectors rw appended cursor).1])
        (transferSectors rw appended cursor).2
termination_by cursor.left
decreasing_by
  have bounds := roundDown_bounds cursor.off
  rw [transferSectors_left, bufferRead_start _isRead]
  omega

theorem appendBuffers_done {opsRead : OpsRead} {ticks : Nat} {rw : StorageRw}
    {buffers : List StorageBuffer} {cursor : Transfer}
    (finished : cursor.left = 0) :
    appendBuffers opsRead ticks rw buffers cursor =
      { buffers := buffers, cursor := cursor, failed := false } := by
  rw [appendBuffers, if_pos finished]

theorem appendBuffers_step {opsRead : OpsRead} {ticks : Nat} {rw : StorageRw}
    {buffers : List StorageBuffer} {cursor : Transfer}
    {appended : StorageBuffer} (pending : cursor.left ≠ 0)
    (isRead : bufferRead opsRead ticks (roundDown cursor.off) = some appended) :
    appendBuffers opsRead ticks rw buffers cursor =
      appendBuffers opsRead ticks rw
        (buffers ++ [(transferSectors rw appended cursor).1])
        (transferSectors rw appended cursor).2 := by
  rw [appendBuffers, if_neg pending]
  split
  · simp_all
  · simp_all

/-- The arguments of one call; `ticks` is the value of `__ticks` during it. -/
structure Request where
  rw : StorageRw
  buf : Memory Sector
  len : Nat
  off : Nat
  ticks : Nat

/-- The loop variables at the start of a call. -/
def Request.cursor (request : Request) : Transfer where
  buf := request.buf
  done := 0
  off := request.off
  left := request.len

/-- The buffer list and the caller's memory after a call, and its result. -/
structure Outcome where
  buffers : List StorageBuffer
  buf : Memory Sector
  result : Except Errno Nat

/-- `storage_buffer_rw`, run under `storage->mutex`. -/
def storageBufferRw (opsRead : OpsRead) (buffers : List StorageBuffer)
    (request : Request) : Outcome :=
  let walked :=
    walkBuffers opsRead request.ticks request.rw buffers request.cursor
  if walked.failed then
    { buffers := walked.buffers
      buf := walked.cursor.buf
      result := .error Errno.EIO }
  else
    let appended :=
      appendBuffers opsRead request.ticks request.rw
        walked.buffers walked.cursor
    if appended.failed then
      { buffers := appended.buffers
        buf := appended.cursor.buf
        result := .error Errno.EIO }
    else
      { buffers := appended.buffers
        buf := appended.cursor.buf
        result := .ok (request.len - appended.cursor.left) }

end Idylla.Storage
