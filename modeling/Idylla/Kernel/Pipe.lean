import Idylla.Lib.Ring
import Idylla.Lib.Run

namespace Idylla.Kernel

open Idylla.Lib

/-!
# Pipes

`pipe_read` and `pipe_write` of any number of threads on one pipe.  A step runs
one section of a call: from taking `pipe->lock` until the call returns or goes
to sleep in `wait_sleep`.  Sizes have `w` bits, and the `int done` of a call
is converted to such a size where the source compares the two.
-/

/-- `PIPE_SIZE`. -/
def PIPE_SIZE : Nat := 0x1000

/-- `struct pipe`, less its lock; the wait queues hold sleeping threads. -/
structure Pipe where
  inPtr : Nat
  outPtr : Nat
  buf : Nat → BitVec 8
  refs : Int
  rdWait : List Nat
  wrWait : List Nat

/-- The two calls on a pipe. -/
inductive PipeOp where
  | read
  | write
  deriving Repr, DecidableEq

/-- The locals of a call; `ptr` is the distance from the buffer's start. -/
structure PipeCall (w : Nat) where
  op : PipeOp
  bufsz : BitVec w
  done : BitVec 32
  ptr : Nat

/-- How a section ends, and the bytes it has moved. -/
structure PipeSection (w : Nat) where
  pipe : Pipe
  call : PipeCall w
  bytes : List (BitVec 8)
  asleep : Bool

variable {w : Nat}

/-- The condition of both loops, `done < bufsz`. -/
def PipeCall.unfinished (call : PipeCall w) : Bool :=
  call.done.signExtend w < call.bufsz

/-- `done++` and `ptr++`; the counter wraps around as the machine's does. -/
def PipeCall.advance (call : PipeCall w) : PipeCall w :=
  { call with
    done := call.done + 1
    ptr := call.ptr + 1 }

/-- The bytes in the pipe, oldest first. -/
def Pipe.queue (pipe : Pipe) : List (BitVec 8) :=
  ringItems PIPE_SIZE pipe.buf pipe.outPtr
    (ringCount PIPE_SIZE pipe.outPtr pipe.inPtr)

/-- The pipe after its oldest byte has been taken out. -/
def Pipe.take (pipe : Pipe) : Pipe :=
  { pipe with outPtr := (pipe.outPtr + 1) % PIPE_SIZE }

/-- The pipe after a byte has been put in. -/
def Pipe.put (pipe : Pipe) (byte : BitVec 8) : Pipe :=
  { pipe with
    buf := setCell pipe.buf pipe.inPtr byte
    inPtr := (pipe.inPtr + 1) % PIPE_SIZE }

/-- `wait_wakeup(&pipe->rd_wait)`. -/
def Pipe.wakeupReader (pipe : Pipe) : Pipe :=
  { pipe with rdWait := pipe.rdWait.tail }

/-- `wait_wakeup(&pipe->wr_wait)`. -/
def Pipe.wakeupWriter (pipe : Pipe) : Pipe :=
  { pipe with wrWait := pipe.wrWait.tail }

/-- The loop of `pipe_read` up to the end of its section. -/
def pipeReadLoop :
    Nat → Pipe → PipeCall w → Option (PipeSection w)
  | 0, _, _ => none
  | turns + 1, pipe, call =>
    if call.unfinished then
      if pipe.inPtr = pipe.outPtr then
        -- an empty pipe: leave the loop, or go to sleep
        some
          { pipe := pipe
            call := call
            bytes := []
            asleep := ¬ (pipe.refs < 2 ∨ 0 < call.done.toInt) }
      else
        (pipeReadLoop turns pipe.take call.advance).map fun later =>
          { later with bytes := pipe.buf pipe.outPtr :: later.bytes }
    else
      some { pipe := pipe, call := call, bytes := [], asleep := false }

/-- The loop of `pipe_write` up to the end of its section. -/
def pipeWriteLoop (data : Nat → BitVec 8) :
    Nat → Pipe → PipeCall w → Option (PipeSection w)
  | 0, _, _ => none
  | turns + 1, pipe, call =>
    if call.unfinished then
      let tmp := (pipe.inPtr + 1) % PIPE_SIZE
      if tmp = pipe.outPtr then
        -- a full pipe: leave the loop, or go to sleep
        some
          { pipe := pipe
            call := call
            bytes := []
            asleep := ¬ pipe.refs < 2 }
      else
        (pipeWriteLoop data turns (pipe.put (data call.ptr))
            call.advance).map fun later =>
          { later with bytes := data call.ptr :: later.bytes }
    else
      some { pipe := pipe, call := call, bytes := [], asleep := false }

/--
A section of a call.  `data` is the memory behind the buffer of a writer; a
section never takes more than `PIPE_SIZE` turns.
-/
def pipeSection (thread : Nat) (data : Nat → BitVec 8) (pipe : Pipe)
    (call : PipeCall w) : Option (PipeSection w) :=
  match call.op with
  | .read =>
    (pipeReadLoop PIPE_SIZE pipe call).map fun part =>
      if part.asleep then
        let woken := part.pipe.wakeupWriter
        { part with
          pipe := { woken with rdWait := woken.rdWait ++ [thread] } }
      else
        part
  | .write =>
    (pipeWriteLoop data PIPE_SIZE pipe call).map fun part =>
      let woken := part.pipe.wakeupReader
      if part.asleep then
        { part with
          pipe := { woken with wrWait := woken.wrWait ++ [thread] } }
      else
        { part with pipe := woken }

/-- What a finished call has returned and the number of bytes it moved. -/
structure PipeReturn where
  value : Int
  moved : Nat
  deriving Repr, DecidableEq

/--
A pipe with its calls under way.  The logs record the bytes all writes have
stored, those all reads have delivered, the bytes each call has moved and the
calls that have returned.
-/
structure PipeSystem (w : Nat) where
  pipe : Pipe
  calls : Nat → Option (PipeCall w)
  stored : List (BitVec 8)
  delivered : List (BitVec 8)
  moved : Nat → Nat
  returned : List PipeReturn

/-- The system after a section of a thread's call. -/
def PipeSystem.finishSection (system : PipeSystem w) (thread : Nat)
    (part : PipeSection w) : PipeSystem w :=
  let moved := system.moved thread + part.bytes.length
  { pipe := part.pipe
    calls := fun other =>
      if other = thread then
        if part.asleep then some part.call else none
      else system.calls other
    stored := match part.call.op with
      | .read => system.stored
      | .write => system.stored ++ part.bytes
    delivered := match part.call.op with
      | .read => system.delivered ++ part.bytes
      | .write => system.delivered
    moved := fun other =>
      if other = thread then moved else system.moved other
    returned := if part.asleep then system.returned
      else
        system.returned ++ [{ value := part.call.done.toInt, moved := moved }] }

/-- The steps: a call begins, a sleeping call goes on, an end is closed. -/
inductive PipeLabel (w : Nat) where
  | call (thread : Nat) (op : PipeOp) (bufsz : BitVec w) (data : Nat → BitVec 8)
  | resume (thread : Nat) (data : Nat → BitVec 8)
  | free

/-- A call before its first section. -/
def newCall (op : PipeOp) (bufsz : BitVec w) : PipeCall w where
  op := op
  bufsz := bufsz
  done := 0
  ptr := 0

/-- One atomic step of the threads on a pipe. -/
inductive PipeStep :
    PipeSystem w → PipeLabel w → PipeSystem w → Prop where
  | call {system : PipeSystem w} {thread : Nat} {op : PipeOp}
      {bufsz : BitVec w} {data : Nat → BitVec 8} {part : PipeSection w}
      (idle : system.calls thread = none)
      (runs :
        pipeSection thread data system.pipe (newCall op bufsz) = some part) :
      PipeStep system (.call thread op bufsz data)
        ({ system with
            moved := fun other =>
              if other = thread then 0
              else system.moved other }.finishSection thread part)
  | resume {system : PipeSystem w} {thread : Nat} {call : PipeCall w}
      {data : Nat → BitVec 8} {part : PipeSection w}
      (suspended : system.calls thread = some call)
      (woken : thread ∉ system.pipe.rdWait ++ system.pipe.wrWait)
      (runs : pipeSection thread data system.pipe call = some part) :
      PipeStep system (.resume thread data) (system.finishSection thread part)
  | free
      {system : PipeSystem w} :
      PipeStep system .free
        { system with
          pipe := { system.pipe with refs := system.pipe.refs - 1 } }

/-- `sys_pipe`: a new pipe with its two ends. -/
def newPipe : Pipe where
  inPtr := 0
  outPtr := 0
  buf := fun _ => 0
  refs := 2
  rdWait := []
  wrWait := []

/-- A new pipe without calls. -/
def PipeSystem.boot : PipeSystem w where
  pipe := newPipe
  calls := fun _ => none
  stored := []
  delivered := []
  moved := fun _ => 0
  returned := []

end Idylla.Kernel
