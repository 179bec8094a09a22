import Mathlib.Algebra.Group.Int.Defs
import Mathlib.Algebra.Group.Nat.Defs
import Idylla.Kernel.Pipe

namespace Idylla.Kernel

open Idylla.Lib

/-!
# Pipes deliver what was stored, in order

A section takes bytes off the front of the queue or puts bytes behind it, so
the bytes delivered followed by those in the queue are always the bytes stored.
-/

variable {w : Nat}

/-- Both pointers lie in the buffer. -/
structure Pipe.InRange (pipe : Pipe) : Prop where
  inPtr : pipe.inPtr < PIPE_SIZE
  outPtr : pipe.outPtr < PIPE_SIZE

namespace Pipe

variable {pipe : Pipe}

theorem InRange.length_queue_lt (inRange : pipe.InRange) :
    pipe.queue.length < PIPE_SIZE := by
  rw [queue, length_ringItems]
  exact ringCount_lt inRange.outPtr

theorem InRange.queue_eq_nil (inRange : pipe.InRange)
    (empty : pipe.inPtr = pipe.outPtr) : pipe.queue = [] := by
  have none : ringCount PIPE_SIZE pipe.outPtr pipe.inPtr = 0 := by
    rw [ringCount_eq inRange.outPtr inRange.inPtr, empty]
    simp
  rw [queue, none]
  rfl

theorem InRange.length_queue_full (inRange : pipe.InRange)
    (full : (pipe.inPtr + 1) % PIPE_SIZE = pipe.outPtr) :
    pipe.queue.length + 1 = PIPE_SIZE := by
  have next := ring_next inRange.inPtr
  have bounded := inRange.inPtr
  rw [queue, length_ringItems, ringCount_eq inRange.outPtr inRange.inPtr]
  split at next <;> split <;> omega

theorem InRange.take (inRange : pipe.InRange)
    (nonempty : pipe.inPtr ≠ pipe.outPtr) :
    pipe.take.InRange ∧
      pipe.queue = pipe.buf pipe.outPtr :: pipe.take.queue := by
  refine ⟨⟨inRange.inPtr, Nat.mod_lt _ (by decide)⟩, ?_⟩
  rw [queue, ringCount_pop inRange.outPtr inRange.inPtr nonempty,
    ringItems_pop inRange.outPtr]
  rfl

theorem InRange.put (inRange : pipe.InRange)
    (notFull : (pipe.inPtr + 1) % PIPE_SIZE ≠ pipe.outPtr) (byte : BitVec 8) :
    (pipe.put byte).InRange ∧ (pipe.put byte).queue = pipe.queue ++ [byte] := by
  refine ⟨⟨Nat.mod_lt _ (by decide), inRange.outPtr⟩, ?_⟩
  have pushed :=
    @ringItems_push _ PIPE_SIZE _
      (@ringCount_lt PIPE_SIZE pipe.outPtr pipe.inPtr inRange.outPtr)
      pipe.buf pipe.outPtr byte
  rw [ring_stop inRange.outPtr inRange.inPtr] at pushed
  rw [queue, queue, ← pushed]
  simp only [Pipe.put, ringCount_push inRange.outPtr inRange.inPtr notFull]

end Pipe

/-- What both loops leave alone, and how they count. -/
structure LoopKeeps
    (pipe : Pipe) (call : PipeCall w)
    (part : PipeSection w) : Prop where
  inRange : part.pipe.InRange
  refs : part.pipe.refs = pipe.refs
  rdWait : part.pipe.rdWait = pipe.rdWait
  wrWait : part.pipe.wrWait = pipe.wrWait
  op : part.call.op = call.op
  bufsz : part.call.bufsz = call.bufsz
  done : part.call.done = call.done + BitVec.ofNat 32 part.bytes.length

variable {pipe : Pipe}

theorem loopKeeps_refl (inRange : pipe.InRange) (call : PipeCall w)
    (asleep : Bool) :
    LoopKeeps pipe call
      { pipe := pipe, call := call, bytes := [], asleep := asleep } :=
  ⟨inRange, rfl, rfl, rfl, rfl, rfl, by simp⟩

theorem done_advance (done : BitVec 32) (count : Nat) :
    done + 1 + BitVec.ofNat 32 count = done + BitVec.ofNat 32 (count + 1) := by
  have one : BitVec.ofNat 32 (count + 1) = 1 + BitVec.ofNat 32 count := by
    rw [Nat.add_comm, BitVec.ofNat_add]
    rfl
  rw [one, BitVec.add_assoc]

/-- What `pipe_read` moves: it stops when it is done or the pipe is empty. -/
structure ReadMoves
    (pipe : Pipe)
    (part : PipeSection w) : Prop where
  queue : pipe.queue = part.bytes ++ part.pipe.queue
  stops : part.call.unfinished = false ∧ part.asleep = false ∨
      part.call.unfinished = true ∧ part.pipe.queue = [] ∧
        (part.asleep = true ↔ ¬ (pipe.refs < 2 ∨ 0 < part.call.done.toInt))

/-- What `pipe_write` moves: it stops when it is done or the pipe is full. -/
structure WriteMoves
    (pipe : Pipe) (call : PipeCall w)
    (part : PipeSection w) : Prop where
  queue : part.pipe.queue = pipe.queue ++ part.bytes
  stops : part.call.unfinished = false ∧ part.asleep = false ∨
      part.call.unfinished = true ∧ part.pipe.queue.length + 1 = PIPE_SIZE ∧
        (part.asleep = true ↔ ¬ pipe.refs < 2)
  counts : call.bufsz.toNat < 2 ^ 31 → call.done.toNat ≤ call.bufsz.toNat →
      part.call.done.toNat = call.done.toNat + part.bytes.length ∧
        part.call.done.toNat ≤ call.bufsz.toNat

theorem pipeReadLoop_spec {turns : Nat} {pipe : Pipe} {call : PipeCall w}
    (inRange : pipe.InRange) (enough : pipe.queue.length < turns) :
    ∃ part,
      pipeReadLoop turns pipe call = some part ∧
        LoopKeeps pipe call part ∧ ReadMoves pipe part := by
  induction turns generalizing pipe call with
  | zero =>
    omega
  | succ turns ih =>
    rw [pipeReadLoop]
    by_cases unfinished : call.unfinished = true
    · rw [if_pos unfinished]
      by_cases empty : pipe.inPtr = pipe.outPtr
      · rw [if_pos empty]
        exact ⟨_, rfl, loopKeeps_refl inRange call _, rfl,
          .inr ⟨unfinished, inRange.queue_eq_nil empty,
            by rw [decide_eq_true_eq]⟩⟩
      · rw [if_neg empty]
        obtain ⟨takenInRange, front⟩ := inRange.take empty
        have fewer : pipe.take.queue.length < turns := by
          rw [front, List.length_cons] at enough
          omega
        obtain ⟨later, isLater, keeps, moves⟩ :=
          @ih pipe.take call.advance takenInRange fewer
        refine
          ⟨{ later with bytes := pipe.buf pipe.outPtr :: later.bytes },
            by rw [isLater]; rfl,
            { keeps with
              done :=
                keeps.done.trans (done_advance call.done later.bytes.length) },
            ?_, moves.stops⟩
        rw [front, moves.queue]
        rfl
    · rw [if_neg unfinished]
      exact ⟨_, rfl, loopKeeps_refl inRange call _, rfl,
        .inl ⟨by simpa using unfinished, rfl⟩⟩

variable {call : PipeCall w}

theorem unfinished_iff (wide : 32 ≤ w) (small : call.done.toNat < 2 ^ 31) :
    call.unfinished = true ↔ call.done.toNat < call.bufsz.toNat := by
  have notNegative : call.done.msb = false := by
    rw [BitVec.msb_eq_decide]
    exact decide_eq_false (by omega)
  rw [PipeCall.unfinished, decide_eq_true_eq, BitVec.lt_def,
    BitVec.signExtend_eq_setWidth_of_msb_false notNegative,
    BitVec.toNat_setWidth_of_le wide]

/--
The loop of `pipe_write` ends, and a counter that starts within a short buffer
stays in it.
-/
theorem pipeWriteLoop_spec (wide : 32 ≤ w)
    {data : Nat → BitVec 8} {turns : Nat} {pipe : Pipe} {call : PipeCall w}
    (inRange : pipe.InRange) (enough : PIPE_SIZE ≤ pipe.queue.length + turns) :
    ∃ part,
      pipeWriteLoop data turns pipe call = some part ∧
        LoopKeeps pipe call part ∧ WriteMoves pipe call part := by
  induction turns generalizing pipe call with
  | zero =>
    have bounded := inRange.length_queue_lt
    omega
  | succ turns ih =>
    rw [pipeWriteLoop]
    by_cases unfinished : call.unfinished = true
    · rw [if_pos unfinished]
      by_cases full : (pipe.inPtr + 1) % PIPE_SIZE = pipe.outPtr
      · simp only [full, ↓reduceIte]
        exact ⟨_, rfl, loopKeeps_refl inRange call _, by simp,
          .inr ⟨unfinished, inRange.length_queue_full full,
            by rw [decide_eq_true_eq]⟩,
          fun _ within => ⟨rfl, within⟩⟩
      · simp only [full, ↓reduceIte]
        obtain ⟨putInRange, appended⟩ := inRange.put full (data call.ptr)
        have more :
            PIPE_SIZE ≤ (pipe.put (data call.ptr)).queue.length + turns := by
          rw [appended, List.length_append, List.length_singleton]
          omega
        obtain ⟨later, isLater, keeps, moves⟩ :=
          @ih (pipe.put (data call.ptr)) call.advance putInRange more
        refine
          ⟨{ later with bytes := data call.ptr :: later.bytes },
            by rw [isLater]; rfl,
            { keeps with
              done :=
                keeps.done.trans (done_advance call.done later.bytes.length) },
            ?_, moves.stops, ?_⟩
        · rw [moves.queue, appended]
          simp
        · intro short within
          rw [unfinished_iff wide (by omega)] at unfinished
          have advanced : call.advance.done.toNat = call.done.toNat + 1 := by
            exact Nat.mod_eq_of_lt (by
              have one : (1 : BitVec 32).toNat = 1 := rfl
              omega)
          have sameSize : call.advance.bufsz = call.bufsz := rfl
          obtain ⟨counted, bounded⟩ :=
            moves.counts short (by rw [sameSize, advanced]; omega)
          refine ⟨?_, bounded⟩
          simp only [counted, advanced, List.length_cons]
          omega
    · rw [if_neg unfinished]
      exact ⟨_, rfl, loopKeeps_refl inRange call _, by simp,
        .inl ⟨by simpa using unfinished, rfl⟩,
        fun _ within => ⟨rfl, within⟩⟩

/-- What a section leaves, with the threads it wakes and puts to sleep. -/
structure SectionMoves
    (thread : Nat) (pipe : Pipe) (call : PipeCall w)
    (part : PipeSection w) : Prop where
  inRange : part.pipe.InRange
  refs : part.pipe.refs = pipe.refs
  op : part.call.op = call.op
  bufsz : part.call.bufsz = call.bufsz
  done : part.call.done = call.done + BitVec.ofNat 32 part.bytes.length
  reads : call.op = .read →
      ReadMoves pipe part ∧
        (part.asleep = true →
          part.pipe.rdWait = pipe.rdWait ++ [thread] ∧
            part.pipe.wrWait = pipe.wrWait.tail) ∧
        (part.asleep = false →
          part.pipe.rdWait = pipe.rdWait ∧ part.pipe.wrWait = pipe.wrWait)
  writes : call.op = .write →
      WriteMoves pipe call part ∧ part.pipe.rdWait = pipe.rdWait.tail ∧
        (part.asleep = true → part.pipe.wrWait = pipe.wrWait ++ [thread])

theorem pipeSection_spec (wide : 32 ≤ w) (inRange : pipe.InRange) (thread : Nat)
    (data : Nat → BitVec 8) (call : PipeCall w) :
    ∃ part,
      pipeSection thread data pipe call = some part ∧
        SectionMoves thread pipe call part := by
  unfold pipeSection
  cases isOp : call.op with
  | read =>
    obtain ⟨part, isPart, keeps, moves⟩ :=
      @pipeReadLoop_spec _ PIPE_SIZE pipe call inRange inRange.length_queue_lt
    rw [isPart, Option.map_some]
    refine ⟨_, rfl, ?_⟩
    obtain ⟨after, finished, bytes, asleep⟩ := part
    cases asleep with
    | false =>
      exact ⟨keeps.inRange, keeps.refs, keeps.op, keeps.bufsz, keeps.done,
        fun _ => ⟨moves, by simp, fun _ => ⟨keeps.rdWait, keeps.wrWait⟩⟩,
        by simp [isOp]⟩
    | true =>
      exact ⟨⟨keeps.inRange.inPtr, keeps.inRange.outPtr⟩, keeps.refs,
        keeps.op, keeps.bufsz, keeps.done,
        fun _ => ⟨⟨moves.queue, moves.stops⟩,
          fun _ => ⟨congrArg (· ++ [thread]) keeps.rdWait,
            congrArg List.tail keeps.wrWait⟩,
          by simp⟩,
        by simp [isOp]⟩
  | write =>
    obtain ⟨part, isPart, keeps, moves⟩ :=
      @pipeWriteLoop_spec _ wide data PIPE_SIZE pipe call inRange
        (Nat.le_add_left _ _)
    rw [isPart, Option.map_some]
    refine ⟨_, rfl, ?_⟩
    obtain ⟨after, finished, bytes, asleep⟩ := part
    cases asleep with
    | false =>
      exact ⟨⟨keeps.inRange.inPtr, keeps.inRange.outPtr⟩, keeps.refs,
        keeps.op, keeps.bufsz, keeps.done, by simp [isOp],
        fun _ => ⟨⟨moves.queue, moves.stops, moves.counts⟩,
          congrArg List.tail keeps.rdWait, by simp⟩⟩
    | true =>
      exact ⟨⟨keeps.inRange.inPtr, keeps.inRange.outPtr⟩, keeps.refs,
        keeps.op, keeps.bufsz, keeps.done, by simp [isOp],
        fun _ => ⟨⟨moves.queue, moves.stops, moves.counts⟩,
          congrArg List.tail keeps.rdWait,
          fun _ => congrArg (· ++ [thread]) keeps.wrWait⟩⟩

/-- The counter of a suspended call is the number of bytes it has moved. -/
def CallCounted (call : PipeCall w) (moved : Nat) : Prop :=
  match call.op with
  | .read => call.done = 0 ∧ moved = 0
  | .write =>
    call.bufsz.toNat < 2 ^ 31 ∧
      call.done.toNat ≤ call.bufsz.toNat ∧ moved = call.done.toNat

variable {thread : Nat}

theorem SectionMoves.counted {part : PipeSection w} {moved : Nat}
    (moves : SectionMoves thread pipe call part) (inRange : pipe.InRange)
    (counted : CallCounted call moved) :
    (part.asleep = true → CallCounted part.call (moved + part.bytes.length)) ∧
      (part.asleep = false →
        part.call.done.toInt = (moved + part.bytes.length : Nat)) := by
  unfold CallCounted at counted ⊢
  rw [moves.op]
  cases isOp : call.op with
  | read =>
    simp only [isOp] at counted ⊢
    obtain ⟨isZero, rfl⟩ := counted
    obtain ⟨taken, -⟩ := moves.reads isOp
    have bounded := inRange.length_queue_lt
    rw [taken.queue, List.length_append, PIPE_SIZE] at bounded
    have isDone : part.call.done = BitVec.ofNat 32 part.bytes.length := by
      rw [moves.done, isZero]
      simp
    have small : part.call.done.toNat = part.bytes.length := by
      rw [isDone, BitVec.toNat_ofNat, Nat.mod_eq_of_lt (by omega)]
    have value : part.call.done.toInt = part.bytes.length := by
      rw [BitVec.toInt_eq_toNat_of_lt (by omega), small]
    constructor
    · intro asleep
      have nothing : part.bytes.length = 0 := by
        rcases taken.stops with ⟨-, awake⟩ | ⟨-, -, sleeps⟩
        · simp [awake] at asleep
        · have stays := sleeps.mp asleep
          omega
      rw [isDone, nothing]
      exact ⟨rfl, rfl⟩
    · intro _
      rw [value, Nat.zero_add]
  | write =>
    simp only [isOp] at counted ⊢
    obtain ⟨short, within, rfl⟩ := counted
    obtain ⟨isDone, bounded⟩ := (moves.writes isOp).1.counts short within
    rw [moves.bufsz]
    refine ⟨fun _ => ⟨short, bounded, isDone.symm⟩, fun _ => ?_⟩
    rw [BitVec.toInt_eq_toNat_of_lt (by omega), isDone]

/-- What every step keeps true of a pipe and its calls. -/
structure PipeInvariant (system : PipeSystem w) : Prop where
  inRange : system.pipe.InRange
  queue : system.stored = system.delivered ++ system.pipe.queue
  counted : ∀ thread call, system.calls thread = some call →
      CallCounted call (system.moved thread)
  returned : ∀ call ∈ system.returned, call.value = call.moved

theorem PipeInvariant.finishSection
    {system : PipeSystem w} {part : PipeSection w}
    (holds : PipeInvariant system)
    (moves : SectionMoves thread system.pipe call part)
    (counted : CallCounted call (system.moved thread)) :
    PipeInvariant (system.finishSection thread part) := by
  obtain ⟨staysCounted, returns⟩ := moves.counted holds.inRange counted
  refine ⟨moves.inRange, ?_, ?_, ?_⟩
  · cases isOp : call.op with
    | read =>
      simp only [PipeSystem.finishSection, moves.op, isOp, holds.queue,
        (moves.reads isOp).1.queue, List.append_assoc]
    | write =>
      simp only [PipeSystem.finishSection, moves.op, isOp, holds.queue,
        (moves.writes isOp).1.queue, List.append_assoc]
  · intro other otherCall isCall
    by_cases same : other = thread
    · subst same
      cases asleep : part.asleep with
      | false =>
        simp [PipeSystem.finishSection, asleep] at isCall
      | true =>
        simp only [PipeSystem.finishSection, asleep, ↓reduceIte,
          Option.some.injEq] at isCall ⊢
        rw [← isCall]
        exact staysCounted asleep
    · simp only [PipeSystem.finishSection, same, ↓reduceIte] at isCall ⊢
      exact holds.counted other otherCall isCall
  · intro record member
    simp only [PipeSystem.finishSection] at member
    cases asleep : part.asleep with
    | true =>
      rw [if_pos asleep] at member
      exact holds.returned record member
    | false =>
      rw [if_neg (by simp [asleep])] at member
      rcases List.mem_append.mp member with old | isNew
      · exact holds.returned record old
      · obtain rfl := List.mem_singleton.mp isNew
        exact returns asleep

/-- The buffer of every write is shorter than 2 GiB. -/
def ShortWrite (_ : PipeSystem w) : PipeLabel w → Prop
  | .call _ .write bufsz _ => bufsz.toNat < 2 ^ 31
  | _ => True

theorem callCounted_newCall {op : PipeOp} {bufsz : BitVec w}
    (short : op = .write → bufsz.toNat < 2 ^ 31) :
    CallCounted (newCall op bufsz) 0 := by
  cases op with
  | read =>
    exact ⟨rfl, rfl⟩
  | write =>
    exact ⟨short rfl, Nat.zero_le _, rfl⟩

theorem PipeStep.invariant (wide : 32 ≤ w)
    {system next : PipeSystem w} {label : PipeLabel w}
    (step : PipeStep system label next) (short : ShortWrite system label)
    (holds : PipeInvariant system) : PipeInvariant next := by
  cases step with
  | @call thread op bufsz data part idle runs =>
    obtain ⟨other, isOther, moves⟩ :=
      pipeSection_spec wide holds.inRange thread data (newCall op bufsz)
    obtain rfl := Option.some.inj (runs.symm.trans isOther)
    have started : PipeInvariant
          { system with
            moved := fun other =>
              if other = thread then 0 else system.moved other } := by
      refine ⟨holds.inRange, holds.queue, ?_, holds.returned⟩
      intro other call isCall
      have different : other ≠ thread := by
        rintro rfl
        simp [idle] at isCall
      simp only [different, ↓reduceIte]
      exact holds.counted other call isCall
    refine started.finishSection moves ?_
    simp only [↓reduceIte]
    refine callCounted_newCall ?_
    rintro rfl
    exact short
  | @resume thread call data part suspended _ runs =>
    obtain ⟨other, isOther, moves⟩ :=
      pipeSection_spec wide holds.inRange thread data call
    obtain rfl := Option.some.inj (runs.symm.trans isOther)
    exact holds.finishSection moves (holds.counted thread call suspended)
  | free =>
    exact ⟨⟨holds.inRange.inPtr, holds.inRange.outPtr⟩, holds.queue,
      holds.counted, holds.returned⟩

theorem newPipe_empty : newPipe.InRange ∧ newPipe.queue = [] := by
  have inRange : newPipe.InRange := ⟨by decide, by decide⟩
  exact ⟨inRange, inRange.queue_eq_nil rfl⟩

theorem pipeInvariant_boot :
    PipeInvariant (PipeSystem.boot : PipeSystem w) where
  inRange := newPipe_empty.1
  queue := by simp [PipeSystem.boot, newPipe_empty.2]
  counted := by simp [PipeSystem.boot]
  returned := by simp [PipeSystem.boot]

/-- What the threads on a pipe observe. -/
structure PipeFaithful (system : PipeSystem w) : Prop where
  inPtr : system.pipe.inPtr < PIPE_SIZE
  outPtr : system.pipe.outPtr < PIPE_SIZE
  fifo : system.delivered <+: system.stored
  queue : system.stored = system.delivered ++ system.pipe.queue
  bounded : system.pipe.queue.length ≤ PIPE_SIZE - 1
  returned : ∀ call ∈ system.returned, call.value = call.moved

/--
In every interleaving of calls whose writes are shorter than 2 GiB the pipe
delivers what was stored, in order, and the calls return what they moved.
-/
theorem pipes_fifo_lossless (wide : 32 ≤ w)
    {past : List (PipeLabel w)} {system : PipeSystem w}
    (run : Run (Guarded ShortWrite PipeStep) PipeSystem.boot past system) :
    PipeFaithful system := by
  have holds : PipeInvariant system := by
    refine run.invariant (fun _ => PipeInvariant) pipeInvariant_boot ?_
    intro _ source label target holds step
    exact step.2.invariant wide step.1 holds
  refine ⟨holds.inRange.inPtr, holds.inRange.outPtr, ?_, holds.queue, ?_,
    holds.returned⟩
  · rw [holds.queue]
    exact List.prefix_append _ _
  · have bounded := holds.inRange.length_queue_lt
    omega

/-- The two bytes of the example below. -/
def twoBytes (index : Nat) : BitVec 8 :=
  BitVec.ofNat 8 (7 + index)

/-- A pipe into which a thread has written two bytes. -/
def writtenPipe : PipeSystem 32 where
  pipe :=
    { newPipe with
      inPtr := 2
      buf := setCell (setCell newPipe.buf 0 7) 1 8 }
  calls := fun thread => if thread = 0 then none else none
  stored := [7, 8]
  delivered := []
  moved := fun thread =>
    if thread = 0 then 2 else if thread = 0 then 0 else 0
  returned := [{ value := 2, moved := 2 }]

set_option maxRecDepth 20000 in
/-- Writing two bytes is a run after which the pipe is faithful. -/
theorem writtenPipe_faithful : PipeFaithful writtenPipe := by
  have step :
      PipeStep PipeSystem.boot (.call 0 .write 2 twoBytes) writtenPipe :=
    @PipeStep.call 32 PipeSystem.boot 0 .write 2 twoBytes
      { pipe := writtenPipe.pipe
        call := { op := .write, bufsz := 2, done := 2, ptr := 2 }
        bytes := [7, 8]
        asleep := false } rfl rfl
  have short : ShortWrite (PipeSystem.boot : PipeSystem 32)
        (.call 0 .write 2 twoBytes) :=
    (by decide : (2 : BitVec 32).toNat < 2 ^ 31)
  exact pipes_fifo_lossless (by decide) (.single ⟨short, step⟩)

theorem unfinished_iff_32 {call : PipeCall 32} :
    call.unfinished = true ↔ call.done.toNat < call.bufsz.toNat := by
  rw [PipeCall.unfinished, decide_eq_true_eq, BitVec.signExtend_eq,
    BitVec.lt_def]

/-- A call that a thread has under way. -/
def CallAt
    (system : PipeSystem 32) (thread : Nat) (op : PipeOp) (bufsz : BitVec 32)
    (count : Nat) : Prop :=
  ∃ call,
    system.calls thread = some call ∧ call.op = op ∧
      call.bufsz = bufsz ∧ call.done = BitVec.ofNat 32 count

/--
Thread 1 sleeps in a read of an empty pipe, and thread 0 has written `count`
bytes of 2 GiB.
-/
structure Pumping
    (count : Nat)
    (system : PipeSystem 32) : Prop where
  inRange : system.pipe.InRange
  empty : system.pipe.queue = []
  refs : system.pipe.refs = 2
  rdWait : system.pipe.rdWait = [1]
  wrWait : system.pipe.wrWait = []
  reader : CallAt system 1 .read 0x1000 0
  writer :
    system.calls 0 = none ∧ count = 0 ∨ CallAt system 0 .write 0x80000000 count

/-- Thread 0 has filled the pipe and sleeps, and thread 1 is awake. -/
structure Filled
    (count : Nat)
    (system : PipeSystem 32) : Prop where
  inRange : system.pipe.InRange
  full : system.pipe.queue.length + 1 = PIPE_SIZE
  refs : system.pipe.refs = 2
  rdWait : system.pipe.rdWait = []
  wrWait : system.pipe.wrWait = [0]
  reader : CallAt system 1 .read 0x1000 0
  writer : CallAt system 0 .write 0x80000000 count

/-- Some call has not returned the number of bytes it moved. -/
def Miscounted (system : PipeSystem 32) : Prop :=
  ∃ call ∈ system.returned, call.value ≠ call.moved

variable {part : PipeSection 32}

theorem readEmpty_sleeps (empty : pipe.queue = []) (refs : pipe.refs = 2)
    (moves : SectionMoves 1 pipe (newCall .read 0x1000) part) :
    part.asleep = true ∧ part.pipe.queue = [] ∧ part.call.done = 0 := by
  have read := (moves.reads rfl).1
  have nothing : part.bytes = [] ∧ part.pipe.queue = [] := by
    have split := read.queue
    rw [empty] at split
    exact List.nil_eq_append_iff.mp split
  have isZero : part.call.done = 0 := by
    rw [moves.done, nothing.1]
    rfl
  refine ⟨?_, nothing.2, isZero⟩
  rcases read.stops with ⟨finished, -⟩ | ⟨-, -, sleeps⟩
  · have unfinished : part.call.unfinished = true := by
      rw [unfinished_iff_32, isZero, moves.bufsz]
      decide
    simp [finished] at unfinished
  · rw [sleeps, refs, isZero]
    decide

theorem readFull_returns {call : PipeCall 32}
    (full : pipe.queue.length + 1 = PIPE_SIZE) (isRead : call.op = .read)
    (size : call.bufsz = 0x1000) (started : call.done = 0)
    (moves : SectionMoves 1 pipe call part) :
    part.asleep = false ∧ part.pipe.queue = [] := by
  have read := (moves.reads isRead).1
  have fewer : part.bytes.length ≤ pipe.queue.length := by
    rw [read.queue, List.length_append]
    omega
  have isDone : part.call.done.toNat = part.bytes.length := by
    rw [moves.done, started, BitVec.toNat_add, BitVec.toNat_ofNat]
    simp only [PIPE_SIZE] at full
    have zero : (0 : BitVec 32).toNat = 0 := rfl
    omega
  have unfinished : part.call.unfinished = true := by
    have bound : (0x1000 : BitVec 32).toNat = 4096 := rfl
    rw [unfinished_iff_32, moves.bufsz, size, isDone, bound]
    simp only [PIPE_SIZE] at full
    omega
  rcases read.stops with ⟨finished, -⟩ | ⟨-, drained, sleeps⟩
  · simp [finished] at unfinished
  · refine ⟨?_, drained⟩
    cases asleep : part.asleep with
    | false =>
      rfl
    | true =>
      have notMoved := sleeps.mp asleep
      have all : part.bytes.length = pipe.queue.length := by
        rw [read.queue, drained, List.append_nil]
      have value : part.call.done.toInt = part.bytes.length := by
        rw [BitVec.toInt_eq_toNat_of_lt, isDone]
        simp only [PIPE_SIZE] at full
        omega
      simp only [PIPE_SIZE] at full
      omega

variable {count : Nat}

/--
A write of 2 GiB into an empty pipe fills it and goes to sleep, unless it is
done, and then its counter is negative.
-/
theorem writeEmpty_fills {call : PipeCall 32} (empty : pipe.queue = [])
    (refs : pipe.refs = 2) (isWrite : call.op = .write)
    (size : call.bufsz = 0x80000000)
    (counted : call.done = BitVec.ofNat 32 count) (small : count < 2 ^ 31)
    (moves : SectionMoves 0 pipe call part) :
    (part.asleep = false ∧ part.call.done.toInt < 0) ∨
      (part.asleep = true ∧ part.pipe.queue.length + 1 = PIPE_SIZE ∧
        count + (PIPE_SIZE - 1) < 2 ^ 31 ∧
        part.call.done = BitVec.ofNat 32 (count + (PIPE_SIZE - 1))) := by
  have write := (moves.writes isWrite).1
  have stored : part.pipe.queue = part.bytes := by
    rw [write.queue, empty, List.nil_append]
  have fewer : part.bytes.length < PIPE_SIZE := by
    rw [← stored]
    exact moves.inRange.length_queue_lt
  have isDone :
      part.call.done = BitVec.ofNat 32 (count + part.bytes.length) := by
    rw [moves.done, counted, BitVec.ofNat_add]
  have doneNat : part.call.done.toNat = count + part.bytes.length := by
    rw [isDone, BitVec.toNat_ofNat]
    simp only [PIPE_SIZE] at fewer
    omega
  have bound : (0x80000000 : BitVec 32).toNat = 2 ^ 31 := rfl
  have within :
      part.call.unfinished = true ↔ count + part.bytes.length < 2 ^ 31 := by
    rw [unfinished_iff_32, moves.bufsz, size, doneNat, bound]
  rcases write.stops with ⟨finished, awake⟩ | ⟨unfinished, full, sleeps⟩
  · left
    refine ⟨awake, ?_⟩
    have large : ¬ count + part.bytes.length < 2 ^ 31 := by
      rw [← within, finished]
      simp
    rw [BitVec.toInt_eq_toNat_cond, doneNat]
    split <;> omega
  · right
    have all : part.bytes.length = PIPE_SIZE - 1 := by
      rw [← stored]
      omega
    refine ⟨sleeps.mpr (by rw [refs]; decide), full, ?_, ?_⟩
    · rw [← all]
      exact within.mp unfinished
    · rw [isDone, all]

theorem callAt_finishSection
    {system : PipeSystem 32} {thread : Nat} {pipe : Pipe} {call : PipeCall 32}
    {part : PipeSection 32} {count : Nat}
    (moves : SectionMoves thread pipe call part) (asleep : part.asleep = true)
    (counted : part.call.done = BitVec.ofNat 32 count) :
    CallAt (system.finishSection thread part) thread call.op call.bufsz count :=
  ⟨part.call, by simp [PipeSystem.finishSection, asleep], moves.op,
    moves.bufsz, counted⟩

variable {system : PipeSystem 32}

theorem callAt_other {other : Nat} {op : PipeOp} {bufsz : BitVec 32}
    (different : other ≠ thread) (isCall : CallAt system other op bufsz count) :
    CallAt (system.finishSection thread part) other op bufsz count := by
  obtain ⟨call, isCall, same⟩ := isCall
  exact ⟨call, by simp [PipeSystem.finishSection, different, isCall], same⟩

theorem Filled.drain (filled : Filled count system) :
    ∃ labels next, Run PipeStep system labels next ∧ Pumping count next := by
  obtain ⟨call, suspended, isRead, size, started⟩ := filled.reader
  obtain ⟨first, firstRuns, firstMoves⟩ :=
    pipeSection_spec (by decide) filled.inRange 1 twoBytes call
  obtain ⟨awake, drained⟩ :=
    readFull_returns filled.full isRead size started firstMoves
  obtain ⟨-, -, stillWaiting⟩ := firstMoves.reads isRead
  obtain ⟨firstReaders, firstWriters⟩ := stillWaiting awake
  have resumes :
      PipeStep system (.resume 1 twoBytes) (system.finishSection 1 first) :=
    .resume suspended (by simp [filled.rdWait, filled.wrWait]) firstRuns
  have firstRefs : first.pipe.refs = 2 := firstMoves.refs.trans filled.refs
  obtain ⟨second, secondRuns, secondMoves⟩ :=
    pipeSection_spec (by decide) firstMoves.inRange 1 twoBytes
      (newCall .read (0x1000 : BitVec 32))
  obtain ⟨asleep, empty, isZero⟩ :=
    readEmpty_sleeps drained firstRefs secondMoves
  obtain ⟨-, nowWaiting, -⟩ := secondMoves.reads rfl
  obtain ⟨secondReaders, secondWriters⟩ := nowWaiting asleep
  have idle : (system.finishSection 1 first).calls 1 = none := by
    simp [PipeSystem.finishSection, awake]
  refine ⟨[.resume 1 twoBytes] ++ [.call 1 .read 0x1000 twoBytes], _,
    .extend (.single resumes) (.call idle secondRuns), ?_⟩
  refine ⟨secondMoves.inRange, empty, secondMoves.refs.trans firstRefs,
    ?_, ?_, callAt_finishSection secondMoves asleep isZero,
    .inr (callAt_other (by decide) ?_)⟩
  · exact secondReaders.trans (by rw [firstReaders, filled.rdWait]; rfl)
  · exact secondWriters.trans (by rw [firstWriters, filled.wrWait]; rfl)
  · obtain ⟨writer, isWriter, same⟩ := filled.writer
    exact ⟨writer, by simp [PipeSystem.finishSection, isWriter], same⟩

theorem Pumping.finishSection {call : PipeCall 32}
    (pumping : Pumping count system) (isWrite : call.op = .write)
    (size : call.bufsz = 0x80000000)
    (counted : call.done = BitVec.ofNat 32 count) (small : count < 2 ^ 31)
    (moves : SectionMoves 0 system.pipe call part) :
    Miscounted (system.finishSection 0 part) ∨
      (count + (PIPE_SIZE - 1) < 2 ^ 31 ∧
        Filled (count + (PIPE_SIZE - 1)) (system.finishSection 0 part)) := by
  rcases writeEmpty_fills pumping.empty pumping.refs isWrite size counted
      small moves with
    ⟨awake, negative⟩ | ⟨asleep, full, stillSmall, isDone⟩
  · left
    refine ⟨_, by simp [PipeSystem.finishSection, awake]; exact .inr rfl, ?_⟩
    simp only
    omega
  · right
    obtain ⟨-, readers, nowWaiting⟩ := moves.writes isWrite
    refine ⟨stillSmall, moves.inRange, full,
      moves.refs.trans pumping.refs, ?_, ?_,
      callAt_other (by decide) pumping.reader, ?_⟩
    · exact readers.trans (by rw [pumping.rdWait]; rfl)
    · exact (nowWaiting asleep).trans (by rw [pumping.wrWait]; rfl)
    · have isCall :=
        @callAt_finishSection system 0 _ call part _ moves asleep isDone
      rw [isWrite, size] at isCall
      exact isCall

theorem Pumping.fill (pumping : Pumping count system) (small : count < 2 ^ 31) :
    ∃ label next,
      PipeStep system label next ∧
        (Miscounted next ∨
          (count + (PIPE_SIZE - 1) < 2 ^ 31 ∧
            Filled (count + (PIPE_SIZE - 1)) next)) := by
  rcases pumping.writer with
    ⟨idle, rfl⟩ | ⟨call, suspended, isWrite, size, counted⟩
  · obtain ⟨part, runs, moves⟩ :=
      pipeSection_spec (by decide) pumping.inRange 0 twoBytes
        (newCall .write (0x80000000 : BitVec 32))
    have started : Pumping 0
          { system with
            moved := fun other =>
              if other = 0 then 0 else system.moved other } :=
      ⟨pumping.inRange, pumping.empty, pumping.refs, pumping.rdWait,
        pumping.wrWait, pumping.reader, pumping.writer⟩
    exact ⟨.call 0 .write 0x80000000 twoBytes, _, .call idle runs,
      started.finishSection rfl rfl rfl small moves⟩
  · obtain ⟨part, runs, moves⟩ :=
      pipeSection_spec (by decide) pumping.inRange 0 twoBytes call
    exact ⟨.resume 0 twoBytes, _,
      .resume suspended (by simp [pumping.rdWait, pumping.wrWait]) runs,
      pumping.finishSection isWrite size counted small moves⟩

theorem Pumping.overflows (pumping : Pumping count system)
    (small : count < 2 ^ 31) :
    ∃ labels next, Run PipeStep system labels next ∧ Miscounted next := by
  -- every turn writes PIPE_SIZE - 1 bytes more
  induction isDistance : 2 ^ 31 - count using Nat.strongRecOn
    generalizing count system with
  | ind distance ih =>
    obtain ⟨label, filled, fills, outcome⟩ := pumping.fill small
    rcases outcome with miscounted | ⟨stillSmall, isFilled⟩
    · exact ⟨_, filled, .single fills, miscounted⟩
    · obtain ⟨drainLabels, drained, drains, again⟩ := isFilled.drain
      have closer : 2 ^ 31 - (count + (PIPE_SIZE - 1)) < distance := by
        simp only [PIPE_SIZE]
        omega
      obtain ⟨labels, next, run, miscounted⟩ := ih _ closer again stillSmall rfl
      exact ⟨_, next, ((Run.single fills).append drains).append run, miscounted⟩

/-- A write of 2 GiB, fed through the pipe, returns a negative number. -/
theorem longWrite_returns_negative :
    ¬ ∀ {past : List (PipeLabel 32)} {system : PipeSystem 32},
      Run PipeStep PipeSystem.boot past system → PipeFaithful system := by
  intro faithful
  obtain ⟨part, runs, moves⟩ :=
    pipeSection_spec (by decide) newPipe_empty.1 1 twoBytes
      (newCall .read (0x1000 : BitVec 32))
  obtain ⟨asleep, empty, isZero⟩ := readEmpty_sleeps newPipe_empty.2 rfl moves
  obtain ⟨-, nowWaiting, -⟩ := moves.reads rfl
  obtain ⟨readers, writers⟩ := nowWaiting asleep
  have begins : PipeStep (PipeSystem.boot : PipeSystem 32)
        (.call 1 .read 0x1000 twoBytes) _ :=
    .call rfl runs
  have pumping : Pumping 0
        ({ (PipeSystem.boot : PipeSystem 32) with
            moved := fun other => if other = 1 then 0 else 0
          }.finishSection 1 part) :=
    ⟨moves.inRange, empty, moves.refs, readers, writers,
      callAt_finishSection moves asleep isZero, .inl ⟨rfl, rfl⟩⟩
  obtain ⟨labels, system, run, call, member, differs⟩ :=
    pumping.overflows (by decide)
  exact differs
    ((faithful ((Run.single begins).append run)).returned call member)

end Idylla.Kernel
