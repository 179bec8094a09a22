import Idylla.Kernel.PipeFifo
import Idylla.Kernel.Wait

namespace Idylla.Kernel

open Idylla.Lib

/-!
# Sleepers on a pipe

A thread that sleeps on a pipe should find it as it left it: empty for a
reader, full for a writer, with both ends open.  Which steps see to that is
stated on the pipe before the step.  `pipe_free` takes no lock, but a section
reads `pipe->refs` at most once, so that it comes before or after the section.
-/

variable {w : Nat}

namespace PipeSystem

variable (system : PipeSystem w)

/-- A thread is inside of a call and does not sleep. -/
def Running (thread : Nat) : Prop :=
  system.calls thread ≠ none ∧ thread ∉ system.pipe.rdWait ++ system.pipe.wrWait

/--
While no thread runs inside of a call, readers sleep because the pipe is empty
and writers because it is full, and both ends are open.
-/
def SleepsWithReason : Prop :=
  (∀ thread, ¬ system.Running thread) →
    (∀ thread ∈ system.pipe.rdWait,
      system.pipe.queue = [] ∧ 2 ≤ system.pipe.refs) ∧
    ∀ thread ∈ system.pipe.wrWait,
      system.pipe.queue.length + 1 = PIPE_SIZE ∧ 2 ≤ system.pipe.refs

end PipeSystem

/-- The call goes on until it has moved that many bytes, or more. -/
def PipeCall.Wants (call : PipeCall w) (count : Nat) : Prop :=
  ∀ moved, moved < count →
    { call with
      done := call.done + BitVec.ofNat 32 moved }.unfinished = true

/-- A section of the call leaves no other thread asleep for nothing. -/
def PipeCall.Harmless (pipe : Pipe) (call : PipeCall w) : Prop :=
  match call.op with
  | .read =>
    -- a read that takes bytes and returns wakes nobody
    (pipe.wrWait = [] ∨
      2 ≤ pipe.refs ∧
        (pipe.queue.length + 1 = PIPE_SIZE ∧ call.unfinished = false ∨
          pipe.queue = [] ∧ call.unfinished = true)) ∧
      (pipe.rdWait = [] ∨ 2 ≤ pipe.refs ∧ call.Wants pipe.queue.length)
  | .write =>
    -- a write wakes the first reader
    pipe.rdWait ≠ [] ∨ pipe.wrWait = [] ∨
      2 ≤ pipe.refs ∧ call.Wants (PIPE_SIZE - 1 - pipe.queue.length)

/--
The steps that leave nobody asleep for nothing: another thread runs inside of
a call, or the section is harmless, or closing an end leaves two of them or
finds no sleeper.
-/
def KeepsReason (system : PipeSystem w) : PipeLabel w → Prop
  | .call thread op bufsz _ =>
    (∀ other, other ≠ thread → ¬ system.Running other) →
      (newCall op bufsz).Harmless system.pipe
  | .resume thread _ =>
    (∀ other, other ≠ thread → ¬ system.Running other) →
      ∀ call, system.calls thread = some call → call.Harmless system.pipe
  | .free =>
    (∀ thread, ¬ system.Running thread) →
      3 ≤ system.pipe.refs ∨ system.pipe.rdWait = [] ∧ system.pipe.wrWait = []

theorem unfinished_congr {first second : PipeCall w}
    (done : first.done = second.done) (bufsz : first.bufsz = second.bufsz) :
    first.unfinished = second.unfinished := by
  unfold PipeCall.unfinished
  rw [done, bufsz]

variable {call : PipeCall w}

theorem PipeCall.Wants.advance {count : Nat}
    (unfinished : call.unfinished = true) (wants : call.advance.Wants count) :
    call.Wants (count + 1) := by
  intro moved below
  cases moved with
  | zero =>
    rw [← unfinished]
    exact unfinished_congr (by simp) rfl
  | succ moved =>
    rw [← wants moved (Nat.lt_of_succ_lt_succ below)]
    exact unfinished_congr (done_advance call.done moved).symm rfl

theorem PipeCall.Wants.unfinished {count : Nat} (wants : call.Wants count)
    (some : 0 < count) : call.unfinished = true := by
  rw [← wants 0 some]
  exact unfinished_congr (by simp) rfl

variable {pipe : Pipe} {part : PipeSection w}

theorem pipeReadLoop_wants {turns : Nat}
    (runs : pipeReadLoop turns pipe call = some part) :
    call.Wants part.bytes.length := by
  induction turns generalizing pipe call part with
  | zero =>
    cases runs
  | succ turns ih =>
    rw [pipeReadLoop] at runs
    split at runs
    next unfinished =>
      split at runs
      · cases runs
        exact fun _ below => absurd below (Nat.not_lt_zero _)
      · obtain ⟨later, isLater, rfl⟩ := Option.map_eq_some_iff.mp runs
        exact (ih isLater).advance unfinished
    · cases runs
      exact fun _ below => absurd below (Nat.not_lt_zero _)

theorem pipeWriteLoop_wants {data : Nat → BitVec 8} {turns : Nat}
    (runs : pipeWriteLoop data turns pipe call = some part) :
    call.Wants part.bytes.length := by
  induction turns generalizing pipe call part with
  | zero =>
    cases runs
  | succ turns ih =>
    rw [pipeWriteLoop] at runs
    split at runs
    next unfinished =>
      dsimp only at runs
      split at runs
      · cases runs
        exact fun _ below => absurd below (Nat.not_lt_zero _)
      · obtain ⟨later, isLater, rfl⟩ := Option.map_eq_some_iff.mp runs
        exact (ih isLater).advance unfinished
    · cases runs
      exact fun _ below => absurd below (Nat.not_lt_zero _)

/-- The queues that a section leaves, and the bytes that it wants. -/
structure SectionWakes
    (thread : Nat) (pipe : Pipe) (call : PipeCall w)
    (part : PipeSection w) : Prop where
  wants : call.Wants part.bytes.length
  rdWait : part.pipe.rdWait = match call.op, part.asleep with
      | .read, true => pipe.rdWait ++ [thread]
      | .read, false => pipe.rdWait
      | .write, _ => pipe.rdWait.tail
  wrWait : part.pipe.wrWait = match call.op, part.asleep with
      | .read, true => pipe.wrWait.tail
      | .read, false => pipe.wrWait
      | .write, true => pipe.wrWait ++ [thread]
      | .write, false => pipe.wrWait

theorem pipeSection_wakes (wide : 32 ≤ w) {thread : Nat} {data : Nat → BitVec 8}
    (inRange : pipe.InRange)
    (runs : pipeSection thread data pipe call = some part) :
    SectionWakes thread pipe call part := by
  unfold pipeSection at runs
  cases isOp : call.op with
  | read =>
    simp only [isOp] at runs
    obtain ⟨moved, isMoved, isPart⟩ := Option.map_eq_some_iff.mp runs
    obtain ⟨other, isOther, keeps, -⟩ :=
      @pipeReadLoop_spec _ PIPE_SIZE pipe call inRange inRange.length_queue_lt
    obtain rfl := Option.some.inj (isMoved.symm.trans isOther)
    have wants := pipeReadLoop_wants isMoved
    obtain ⟨after, finished, bytes, asleep⟩ := moved
    cases asleep with
    | false =>
      subst isPart
      exact ⟨wants, by simp [isOp, ← keeps.rdWait],
        by simp [isOp, ← keeps.wrWait]⟩
    | true =>
      subst isPart
      exact ⟨wants, by simp [isOp, Pipe.wakeupWriter, ← keeps.rdWait],
        by simp [isOp, Pipe.wakeupWriter, ← keeps.wrWait]⟩
  | write =>
    simp only [isOp] at runs
    obtain ⟨moved, isMoved, isPart⟩ := Option.map_eq_some_iff.mp runs
    obtain ⟨other, isOther, keeps, -⟩ :=
      @pipeWriteLoop_spec _ wide data PIPE_SIZE pipe call inRange
        (Nat.le_add_left _ _)
    obtain rfl := Option.some.inj (isMoved.symm.trans isOther)
    have wants := pipeWriteLoop_wants isMoved
    obtain ⟨after, finished, bytes, asleep⟩ := moved
    cases asleep with
    | false | true =>
      subst isPart
      exact ⟨wants, by simp [isOp, Pipe.wakeupReader, ← keeps.rdWait],
        by simp [isOp, Pipe.wakeupReader, ← keeps.wrWait]⟩

section Moves

variable {thread : Nat} {pipe : Pipe} {call : PipeCall w} {part : PipeSection w}

variable (moves : SectionMoves thread pipe call part)

include moves

theorem unfinished_end :
    { call with
        done := call.done + BitVec.ofNat 32 part.bytes.length }.unfinished =
      part.call.unfinished :=
  unfinished_congr moves.done.symm moves.bufsz.symm

theorem read_empties_iff (wakes : SectionWakes thread pipe call part)
    (isRead : call.op = .read) :
    part.pipe.queue = [] ↔ call.Wants pipe.queue.length := by
  have read := (moves.reads isRead).1
  have lengths := congrArg List.length read.queue
  rw [List.length_append] at lengths
  constructor
  · intro empty
    rw [empty, List.length_nil, Nat.add_zero] at lengths
    rw [lengths]
    exact wakes.wants
  · intro wants
    rcases read.stops with ⟨finished, -⟩ | ⟨-, empty, -⟩
    · refine List.eq_nil_of_length_eq_zero ?_
      refine Nat.eq_zero_of_not_pos fun some => ?_
      have unfinished := wants part.bytes.length (by omega)
      rw [unfinished_end moves, finished] at unfinished
      cases unfinished
    · exact empty

theorem read_full_iff
    (wakes : SectionWakes thread pipe call part) (inRange : pipe.InRange)
    (isRead : call.op = .read) :
    part.pipe.queue.length + 1 = PIPE_SIZE ↔
      pipe.queue.length + 1 = PIPE_SIZE ∧ call.unfinished = false := by
  have read := (moves.reads isRead).1
  have lengths := congrArg List.length read.queue
  have bounded := inRange.length_queue_lt
  have unfinishedEnd := unfinished_end moves
  rw [List.length_append] at lengths
  constructor
  · intro full
    have nothing : part.bytes = [] := List.eq_nil_of_length_eq_zero (by omega)
    refine ⟨by omega, ?_⟩
    rw [nothing, List.length_nil] at unfinishedEnd
    rcases read.stops with ⟨finished, -⟩ | ⟨-, empty, -⟩
    · rw [← finished, ← unfinishedEnd]
      exact unfinished_congr (by simp) rfl
    · rw [empty] at full
      cases full
  · rintro ⟨full, finished⟩
    have nothing : part.bytes.length = 0 := by
      refine Nat.eq_zero_of_not_pos fun some => ?_
      have unfinished := wakes.wants.unfinished some
      rw [finished] at unfinished
      cases unfinished
    omega

theorem read_nothing (nothing : part.bytes = []) (fresh : call.done = 0) :
    part.call.done = 0 ∧ part.call.unfinished = call.unfinished := by
  have isDone := moves.done
  rw [nothing, fresh] at isDone
  exact ⟨isDone, unfinished_congr (isDone.trans fresh.symm) moves.bufsz⟩

theorem read_asleep_iff (inRange : pipe.InRange) (isRead : call.op = .read)
    (fresh : call.done = 0) :
    part.asleep = true ↔
      pipe.queue = [] ∧ call.unfinished = true ∧ 2 ≤ pipe.refs := by
  have read := (moves.reads isRead).1
  constructor
  · intro asleep
    rcases read.stops with ⟨-, awake⟩ | ⟨unfinished, empty, sleeps⟩
    · rw [awake] at asleep
      cases asleep
    have stays := sleeps.mp asleep
    have all : pipe.queue = part.bytes := by
      rw [read.queue, empty, List.append_nil]
    have bounded := inRange.length_queue_lt
    rw [all, PIPE_SIZE] at bounded
    have nothing : part.bytes = [] := by
      refine List.eq_nil_of_length_eq_zero ?_
      have isDone : part.call.done.toNat = part.bytes.length := by
        rw [moves.done, fresh, BitVec.toNat_add, BitVec.toNat_ofNat]
        have zero : (0 : BitVec 32).toNat = 0 := rfl
        omega
      have value : part.call.done.toInt = part.bytes.length := by
        rw [BitVec.toInt_eq_toNat_of_lt (by omega), isDone]
      omega
    obtain ⟨-, same⟩ := read_nothing moves nothing fresh
    exact ⟨all.trans nothing, same.symm.trans unfinished, by omega⟩
  · rintro ⟨empty, unfinished, open_⟩
    have nothing : part.bytes = [] := by
      have split := read.queue
      rw [empty] at split
      exact (List.nil_eq_append_iff.mp split).1
    obtain ⟨isZero, same⟩ := read_nothing moves nothing fresh
    rcases read.stops with ⟨finished, -⟩ | ⟨-, -, sleeps⟩
    · rw [same, unfinished] at finished
      cases finished
    · rw [sleeps, isZero]
      have notPositive : (0 : BitVec 32).toInt = 0 := rfl
      omega

theorem write_fills_iff
    (wakes : SectionWakes thread pipe call part) (isWrite : call.op = .write) :
    part.pipe.queue.length + 1 = PIPE_SIZE ↔
      call.Wants (PIPE_SIZE - 1 - pipe.queue.length) := by
  have write := (moves.writes isWrite).1
  have lengths := congrArg List.length write.queue
  have stillBounded := moves.inRange.length_queue_lt
  rw [List.length_append] at lengths
  constructor
  · intro full
    have room : PIPE_SIZE - 1 - pipe.queue.length = part.bytes.length := by
      omega
    rw [room]
    exact wakes.wants
  · intro wants
    rcases write.stops with ⟨finished, -⟩ | ⟨-, full, -⟩
    · refine Decidable.byContradiction fun notFull => ?_
      have unfinished := wants part.bytes.length (by omega)
      rw [unfinished_end moves, finished] at unfinished
      cases unfinished
    · exact full

end Moves

/-- What every step keeps of the threads on a pipe. -/
structure PipeThreads (system : PipeSystem w) : Prop where
  inRange : system.pipe.InRange
  rdSleepers :
    Sleepers (fun thread => system.calls thread ≠ none) system.pipe.rdWait
  wrSleepers :
    Sleepers (fun thread => system.calls thread ≠ none) system.pipe.wrWait
  apart : ∀ thread ∈ system.pipe.rdWait, thread ∉ system.pipe.wrWait
  fresh : ∀ thread call, system.calls thread = some call → call.op = .read →
      call.done = 0

/-- A thread runs one section of a call on a pipe. -/
structure PipeRuns
    (system : PipeSystem w) (thread : Nat) (call : PipeCall w)
    (part : PipeSection w) : Prop where
  awake : thread ∉ system.pipe.rdWait ++ system.pipe.wrWait
  moves : SectionMoves thread system.pipe call part
  wakes : SectionWakes thread system.pipe call part
  fresh : call.op = .read → call.done = 0

namespace PipeRuns

variable {system : PipeSystem w} {thread : Nat} {call : PipeCall w}
  {part : PipeSection w}

theorem calls_same :
    (system.finishSection thread part).calls thread =
      if part.asleep then some part.call else none :=
  if_pos rfl

theorem calls_of_ne {other : Nat} (different : other ≠ thread) :
    (system.finishSection thread part).calls other = system.calls other :=
  if_neg different

theorem threads (runs : PipeRuns system thread call part)
    (known : PipeThreads system) :
    PipeThreads (system.finishSection thread part) := by
  obtain ⟨notReader, notWriter⟩ :=
    not_or.mp fun sleeps => runs.awake (List.mem_append.mpr sleeps)
  have same (other : Nat) (different : other ≠ thread) :
      (system.finishSection thread part).calls other ≠ none ↔
        system.calls other ≠ none := by
    rw [calls_of_ne different]
  have rdWait := runs.wakes.rdWait
  have wrWait := runs.wakes.wrWait
  have fresh : ∀ other otherCall,
        (system.finishSection thread part).calls other = some otherCall →
          otherCall.op = .read → otherCall.done = 0 := by
    intro other otherCall isCall isRead
    by_cases isThread : other = thread
    · subst isThread
      rw [calls_same] at isCall
      cases asleep : part.asleep with
      | false =>
        simp [asleep] at isCall
      | true =>
        simp only [asleep, ↓reduceIte, Option.some.injEq] at isCall
        subst isCall
        have isRead : call.op = .read := runs.moves.op ▸ isRead
        have empty :=
          ((read_asleep_iff runs.moves known.inRange isRead
            (runs.fresh isRead)).mp asleep).1
        have split := (runs.moves.reads isRead).1.queue
        rw [empty] at split
        exact (read_nothing runs.moves
          (List.nil_eq_append_iff.mp split).1 (runs.fresh isRead)).1
    · rw [calls_of_ne isThread] at isCall
      exact known.fresh other otherCall isCall isRead
  have stays : part.asleep = true →
        (system.finishSection thread part).calls thread ≠ none := by
    intro asleep
    simp [calls_same, asleep]
  have leftReaders := known.rdSleepers.leave notReader same
  have leftWriters := known.wrSleepers.leave notWriter same
  cases isOp : call.op with
  | read =>
    cases asleep : part.asleep with
    | true =>
      simp only [isOp, asleep] at rdWait wrWait
      refine ⟨runs.moves.inRange, ?_, ?_, ?_, fresh⟩
      · show Sleepers _ part.pipe.rdWait
        rw [rdWait]
        exact known.rdSleepers.sleep notReader (stays asleep) same
      · show Sleepers _ part.pipe.wrWait
        rw [wrWait]
        exact leftWriters.wakeup
      · intro other sleeps sleepsToo
        have sleeps : other ∈ part.pipe.rdWait := sleeps
        have sleepsToo : other ∈ part.pipe.wrWait := sleepsToo
        rw [rdWait, List.mem_append, List.mem_singleton] at sleeps
        rw [wrWait] at sleepsToo
        have isWriter := List.mem_of_mem_tail sleepsToo
        rcases sleeps with isReader | rfl
        · exact known.apart other isReader isWriter
        · exact notWriter isWriter
    | false =>
      simp only [isOp, asleep] at rdWait wrWait
      refine ⟨runs.moves.inRange, ?_, ?_, ?_, fresh⟩
      · show Sleepers _ part.pipe.rdWait
        rw [rdWait]
        exact leftReaders
      · show Sleepers _ part.pipe.wrWait
        rw [wrWait]
        exact leftWriters
      · show ∀ other ∈ part.pipe.rdWait, other ∉ part.pipe.wrWait
        rw [rdWait, wrWait]
        exact known.apart
  | write =>
    simp only [isOp] at rdWait
    have readers : Sleepers
          (fun other => (system.finishSection thread part).calls other ≠ none)
          part.pipe.rdWait := by
      rw [rdWait]
      exact leftReaders.wakeup
    cases asleep : part.asleep with
    | true =>
      simp only [isOp, asleep] at wrWait
      refine ⟨runs.moves.inRange, readers, ?_, ?_, fresh⟩
      · show Sleepers _ part.pipe.wrWait
        rw [wrWait]
        exact known.wrSleepers.sleep notWriter (stays asleep) same
      · intro other sleeps sleepsToo
        have sleeps : other ∈ part.pipe.rdWait := sleeps
        have sleepsToo : other ∈ part.pipe.wrWait := sleepsToo
        rw [rdWait] at sleeps
        rw [wrWait, List.mem_append, List.mem_singleton] at sleepsToo
        have isReader := List.mem_of_mem_tail sleeps
        rcases sleepsToo with isWriter | rfl
        · exact known.apart other isReader isWriter
        · exact notReader isReader
    | false =>
      simp only [isOp, asleep] at wrWait
      refine ⟨runs.moves.inRange, readers, ?_, ?_, fresh⟩
      · show Sleepers _ part.pipe.wrWait
        rw [wrWait]
        exact leftWriters
      · show ∀ other ∈ part.pipe.rdWait, other ∉ part.pipe.wrWait
        rw [rdWait, wrWait]
        exact fun other isReader =>
          known.apart other (List.mem_of_mem_tail isReader)

theorem running_stays (runs : PipeRuns system thread call part) {other : Nat}
    (different : other ≠ thread) (running : system.Running other) :
    (system.finishSection thread part).Running other := by
  obtain ⟨inside, awake⟩ := running
  obtain ⟨notReader, notWriter⟩ :=
    not_or.mp fun sleeps => awake (List.mem_append.mpr sleeps)
  refine ⟨by rw [calls_of_ne different]; exact inside, fun sleeps => ?_⟩
  have rdWait := runs.wakes.rdWait
  have wrWait := runs.wakes.wrWait
  rcases List.mem_append.mp sleeps with isReader | isWriter
  · have isReader : other ∈ part.pipe.rdWait := isReader
    rw [rdWait] at isReader
    split at isReader
    · rw [List.mem_append, List.mem_singleton] at isReader
      exact isReader.elim notReader different
    · exact notReader isReader
    · exact notReader (List.mem_of_mem_tail isReader)
  · have isWriter : other ∈ part.pipe.wrWait := isWriter
    rw [wrWait] at isWriter
    split at isWriter
    · exact notWriter (List.mem_of_mem_tail isWriter)
    · exact notWriter isWriter
    · rw [List.mem_append, List.mem_singleton] at isWriter
      exact isWriter.elim notWriter different
    · exact notWriter isWriter

theorem not_running (rdWait : part.pipe.rdWait = system.pipe.rdWait)
    (wrWait : part.pipe.wrWait = system.pipe.wrWait)
    (returns : part.asleep = false)
    (alone : ∀ other, other ≠ thread → ¬ system.Running other) (other : Nat) :
    ¬ (system.finishSection thread part).Running other := by
  rintro ⟨inside, awake⟩
  have awake : other ∉ part.pipe.rdWait ++ part.pipe.wrWait := awake
  rw [rdWait, wrWait] at awake
  by_cases isThread : other = thread
  · subst isThread
    rw [calls_same, returns] at inside
    exact inside rfl
  · rw [calls_of_ne isThread] at inside
    exact alone other isThread ⟨inside, awake⟩

variable (runs : PipeRuns system thread call part) (known : PipeThreads system)

include runs known

theorem reader_runs (isWrite : call.op = .write)
    {reader : Nat} {behind : List Nat}
    (isQueue : system.pipe.rdWait = reader :: behind) :
    (system.finishSection thread part).Running reader := by
  have rdWait := runs.wakes.rdWait
  have wrWait := runs.wakes.wrWait
  simp only [isWrite, isQueue, List.tail_cons] at rdWait wrWait
  have isReader : reader ∈ system.pipe.rdWait := by
    rw [isQueue]
    exact List.mem_cons_self
  have different : reader ≠ thread := by
    rintro rfl
    exact runs.awake (List.mem_append_left _ isReader)
  have once := known.rdSleepers.once
  rw [isQueue] at once
  refine ⟨?_, fun sleeps => ?_⟩
  · rw [calls_of_ne different]
    exact known.rdSleepers.inside reader isReader
  · rcases List.mem_append.mp sleeps with sleeps | sleeps
    · have sleeps : reader ∈ part.pipe.rdWait := sleeps
      rw [rdWait] at sleeps
      exact (List.nodup_cons.mp once).1 sleeps
    · have sleeps : reader ∈ part.pipe.wrWait := sleeps
      cases asleep : part.asleep with
      | true =>
        simp only [asleep] at wrWait
        rw [wrWait, List.mem_append, List.mem_singleton] at sleeps
        exact sleeps.elim (known.apart reader isReader) different
      | false =>
        simp only [asleep] at wrWait
        rw [wrWait] at sleeps
        exact known.apart reader isReader sleeps

theorem writer_runs (isRead : call.op = .read) (asleep : part.asleep = true)
    {writer : Nat} {behind : List Nat}
    (isQueue : system.pipe.wrWait = writer :: behind) :
    (system.finishSection thread part).Running writer := by
  have rdWait := runs.wakes.rdWait
  have wrWait := runs.wakes.wrWait
  simp only [isRead, asleep, isQueue, List.tail_cons] at rdWait wrWait
  have isWriter : writer ∈ system.pipe.wrWait := by
    rw [isQueue]
    exact List.mem_cons_self
  have different : writer ≠ thread := by
    rintro rfl
    exact runs.awake (List.mem_append_right _ isWriter)
  have once := known.wrSleepers.once
  rw [isQueue] at once
  refine ⟨?_, fun sleeps => ?_⟩
  · rw [calls_of_ne different]
    exact known.wrSleepers.inside writer isWriter
  · rcases List.mem_append.mp sleeps with sleeps | sleeps
    · have sleeps : writer ∈ part.pipe.rdWait := sleeps
      rw [rdWait, List.mem_append, List.mem_singleton] at sleeps
      exact sleeps.elim
        (fun isReader => known.apart writer isReader isWriter) different
    · have sleeps : writer ∈ part.pipe.wrWait := sleeps
      rw [wrWait] at sleeps
      exact (List.nodup_cons.mp once).1 sleeps

theorem read_reason_iff
    (alone : ∀ other, other ≠ thread → ¬ system.Running other)
    (isRead : call.op = .read) :
    (system.finishSection thread part).SleepsWithReason ↔
      (system.pipe.wrWait = [] ∨
          2 ≤ system.pipe.refs ∧
            (system.pipe.queue.length + 1 = PIPE_SIZE ∧
                call.unfinished = false ∨
              system.pipe.queue = [] ∧ call.unfinished = true)) ∧
        (system.pipe.rdWait = [] ∨
          2 ≤ system.pipe.refs ∧ call.Wants system.pipe.queue.length) := by
  have rdWait := runs.wakes.rdWait
  have wrWait := runs.wakes.wrWait
  have refs := runs.moves.refs
  have empties := read_empties_iff runs.moves runs.wakes isRead
  have fills := read_full_iff runs.moves runs.wakes known.inRange isRead
  have sleeps :=
    read_asleep_iff runs.moves known.inRange isRead (runs.fresh isRead)
  cases asleep : part.asleep with
  | true =>
    obtain ⟨empty, unfinished, isOpen⟩ := sleeps.mp asleep
    simp only [isRead, asleep] at rdWait wrWait
    have wants : call.Wants system.pipe.queue.length := by
      rw [empty]
      exact fun _ below => absurd below (Nat.not_lt_zero _)
    refine ⟨fun _ => ⟨.inr ⟨isOpen, .inr ⟨empty, unfinished⟩⟩,
      .inr ⟨isOpen, wants⟩⟩, fun _ quiet => ?_⟩
    cases isQueue : system.pipe.wrWait with
    | nil =>
      rw [isQueue, List.tail_nil] at wrWait
      refine ⟨fun _ _ => ⟨empties.mpr wants, ?_⟩, fun writer writes => ?_⟩
      · show 2 ≤ part.pipe.refs
        rw [refs]
        exact isOpen
      · have writes : writer ∈ part.pipe.wrWait := writes
        rw [wrWait] at writes
        cases writes
    | cons writer behind =>
      exact absurd (runs.writer_runs known isRead asleep isQueue) (quiet writer)
  | false =>
    simp only [isRead, asleep] at rdWait wrWait
    have quiet := not_running rdWait wrWait asleep alone
    constructor
    · intro reason
      obtain ⟨readers, writers⟩ := reason quiet
      constructor
      · cases isQueue : system.pipe.wrWait with
        | nil =>
          exact .inl rfl
        | cons writer behind =>
          have isWriter : writer ∈ part.pipe.wrWait := by
            rw [wrWait, isQueue]
            exact List.mem_cons_self
          obtain ⟨full, isOpen⟩ := writers writer isWriter
          exact .inr ⟨refs ▸ isOpen, .inl (fills.mp full)⟩
      · cases isQueue : system.pipe.rdWait with
        | nil =>
          exact .inl rfl
        | cons reader behind =>
          have isReader : reader ∈ part.pipe.rdWait := by
            rw [rdWait, isQueue]
            exact List.mem_cons_self
          obtain ⟨empty, isOpen⟩ := readers reader isReader
          exact .inr ⟨refs ▸ isOpen, empties.mp empty⟩
    · rintro ⟨forWriters, forReaders⟩ -
      constructor
      · intro reader isReader
        have isReader : reader ∈ part.pipe.rdWait := isReader
        rw [rdWait] at isReader
        obtain ⟨isOpen, wants⟩ :=
          forReaders.resolve_left (List.ne_nil_of_mem isReader)
        exact ⟨empties.mpr wants, refs.symm ▸ isOpen⟩
      · intro writer isWriter
        have isWriter : writer ∈ part.pipe.wrWait := isWriter
        rw [wrWait] at isWriter
        obtain ⟨isOpen, unchanged | ⟨empty, unfinished⟩⟩ :=
          forWriters.resolve_left (List.ne_nil_of_mem isWriter)
        · exact ⟨fills.mpr unchanged, refs.symm ▸ isOpen⟩
        · have isAsleep := sleeps.mpr ⟨empty, unfinished, isOpen⟩
          rw [asleep] at isAsleep
          cases isAsleep

theorem write_reason_iff
    (alone : ∀ other, other ≠ thread → ¬ system.Running other)
    (isWrite : call.op = .write) :
    (system.finishSection thread part).SleepsWithReason ↔
      system.pipe.rdWait ≠ [] ∨ system.pipe.wrWait = [] ∨
        2 ≤ system.pipe.refs ∧
          call.Wants (PIPE_SIZE - 1 - system.pipe.queue.length) := by
  have rdWait := runs.wakes.rdWait
  have wrWait := runs.wakes.wrWait
  have refs := runs.moves.refs
  have fills := write_fills_iff runs.moves runs.wakes isWrite
  cases isQueue : system.pipe.rdWait with
  | cons reader behind =>
    refine ⟨fun _ => .inl (List.cons_ne_nil _ _), fun _ quiet => ?_⟩
    exact absurd (runs.reader_runs known isWrite isQueue) (quiet reader)
  | nil =>
    simp only [isWrite, isQueue, List.tail_nil] at rdWait wrWait
    cases asleep : part.asleep with
    | true =>
      have write := (runs.moves.writes isWrite).1
      rcases write.stops with ⟨-, awake⟩ | ⟨-, full, sleeps⟩
      · rw [asleep] at awake
        cases awake
      have isOpen : 2 ≤ system.pipe.refs := by
        have := sleeps.mp asleep
        omega
      refine ⟨fun _ => .inr (.inr ⟨isOpen, fills.mp full⟩),
        fun _ _ => ⟨fun reader isReader => ?_, fun _ _ => ?_⟩⟩
      · have isReader : reader ∈ part.pipe.rdWait := isReader
        rw [rdWait] at isReader
        cases isReader
      · exact ⟨full, refs.symm ▸ isOpen⟩
    | false =>
      simp only [asleep] at wrWait
      have quiet := not_running (rdWait.trans isQueue.symm) wrWait asleep alone
      constructor
      · intro reason
        obtain ⟨-, writers⟩ := reason quiet
        right
        cases isWaiting : system.pipe.wrWait with
        | nil =>
          exact .inl rfl
        | cons writer behind =>
          have isWriter : writer ∈ part.pipe.wrWait := by
            rw [wrWait, isWaiting]
            exact List.mem_cons_self
          obtain ⟨full, isOpen⟩ := writers writer isWriter
          exact .inr ⟨refs ▸ isOpen, fills.mp full⟩
      · rintro (reads | forWriters) -
        · exact absurd rfl reads
        constructor
        · intro reader isReader
          have isReader : reader ∈ part.pipe.rdWait := isReader
          rw [rdWait] at isReader
          cases isReader
        · intro writer isWriter
          have isWriter : writer ∈ part.pipe.wrWait := isWriter
          rw [wrWait] at isWriter
          obtain ⟨isOpen, wants⟩ :=
            forWriters.resolve_left (List.ne_nil_of_mem isWriter)
          exact ⟨fills.mpr wants, refs.symm ▸ isOpen⟩

theorem reason_iff :
    (system.finishSection thread part).SleepsWithReason ↔
      ((∀ other, other ≠ thread → ¬ system.Running other) →
        call.Harmless system.pipe) := by
  by_cases alone : ∀ other, other ≠ thread → ¬ system.Running other
  · refine Iff.trans ?_ ⟨fun harmless _ => harmless, fun ifAlone =>
      ifAlone alone⟩
    unfold PipeCall.Harmless
    cases isOp : call.op with
    | read =>
      exact runs.read_reason_iff known alone isOp
    | write =>
      exact runs.write_reason_iff known alone isOp
  · refine ⟨fun _ ifAlone => absurd ifAlone alone, fun _ quiet => ?_⟩
    refine absurd (fun other different running => ?_) alone
    exact quiet other (runs.running_stays different running)

end PipeRuns

section Steps

variable {system next : PipeSystem w} {label : PipeLabel w}

theorem pipeRuns_of_section (wide : 32 ≤ w) (known : PipeThreads system)
    {thread : Nat} {data : Nat → BitVec 8} {call : PipeCall w}
    {part : PipeSection w}
    (awake : thread ∉ system.pipe.rdWait ++ system.pipe.wrWait)
    (fresh : call.op = .read → call.done = 0)
    (runs : pipeSection thread data system.pipe call = some part) :
    PipeRuns system thread call part := by
  obtain ⟨other, isOther, moves⟩ :=
    pipeSection_spec wide known.inRange thread data call
  obtain rfl := Option.some.inj (runs.symm.trans isOther)
  exact ⟨awake, moves, pipeSection_wakes wide known.inRange runs, fresh⟩

/--
Every step keeps what is known of the threads, and leaves nobody asleep for
nothing exactly where it is one of those that keep the reasons.
-/
theorem PipeStep.reason_iff (wide : 32 ≤ w) (step : PipeStep system label next)
    (known : PipeThreads system) :
    PipeThreads next ∧
      (system.SleepsWithReason →
        (next.SleepsWithReason ↔ KeepsReason system label)) := by
  cases step with
  | @call thread op bufsz data part idle runs =>
    have awake : thread ∉ system.pipe.rdWait ++ system.pipe.wrWait := by
      intro sleeps
      rcases List.mem_append.mp sleeps with isReader | isWriter
      · exact known.rdSleepers.inside thread isReader idle
      · exact known.wrSleepers.inside thread isWriter idle
    have ran := pipeRuns_of_section wide known awake (fun _ => rfl) runs
    have threads := ran.threads known
    have reason := ran.reason_iff known
    exact ⟨⟨threads.inRange, threads.rdSleepers, threads.wrSleepers,
      threads.apart, threads.fresh⟩, fun _ => reason⟩
  | @resume thread call data part suspended woken runs =>
    have ran :=
      pipeRuns_of_section wide known woken
        (known.fresh thread call suspended) runs
    refine ⟨ran.threads known, fun _ => (ran.reason_iff known).trans ?_⟩
    constructor
    · intro harmless alone other isCall
      obtain rfl := Option.some.inj (suspended.symm.trans isCall)
      exact harmless alone
    · exact fun harmless alone => harmless alone call suspended
  | free =>
    refine ⟨⟨⟨known.inRange.inPtr, known.inRange.outPtr⟩,
      known.rdSleepers, known.wrSleepers, known.apart, known.fresh⟩,
      fun reason => ?_⟩
    constructor
    · intro still quiet
      obtain ⟨readers, writers⟩ := still quiet
      refine Decidable.or_iff_not_imp_left.mpr fun fewEnds => ?_
      constructor
      · refine List.eq_nil_iff_forall_not_mem.mpr fun reader sleeps => ?_
        have isOpen : 2 ≤ system.pipe.refs - 1 := (readers reader sleeps).2
        omega
      · refine List.eq_nil_iff_forall_not_mem.mpr fun writer sleeps => ?_
        have isOpen : 2 ≤ system.pipe.refs - 1 := (writers writer sleeps).2
        omega
    · intro keeps quiet
      obtain ⟨readers, writers⟩ := reason quiet
      rcases keeps quiet with ends | ⟨noReader, noWriter⟩
      · have isOpen : 2 ≤ system.pipe.refs - 1 := by omega
        exact ⟨fun reader sleeps => ⟨(readers reader sleeps).1, isOpen⟩,
          fun writer sleeps => ⟨(writers writer sleeps).1, isOpen⟩⟩
      · constructor
        · intro reader sleeps
          rw [noReader] at sleeps
          cases sleeps
        · intro writer sleeps
          rw [noWriter] at sleeps
          cases sleeps

theorem pipeThreads_boot :
    PipeThreads (PipeSystem.boot : PipeSystem w) where
  inRange := newPipe_empty.1
  rdSleepers := .nil
  wrSleepers := .nil
  apart := by simp [PipeSystem.boot, newPipe]
  fresh := by simp [PipeSystem.boot]

end Steps

/--
In every run whose steps all keep the reasons nobody sleeps on the pipe for
nothing, and a step that does not keep them ends that.
-/
theorem pipe_sleepers_have_reason (wide : 32 ≤ w)
    {past : List (PipeLabel w)} {system : PipeSystem w}
    (run : Run (Guarded KeepsReason PipeStep) PipeSystem.boot past system) :
    system.SleepsWithReason ∧
      ∀ label next, PipeStep system label next →
        (next.SleepsWithReason ↔ KeepsReason system label) := by
  obtain ⟨known, reason⟩ : PipeThreads system ∧ system.SleepsWithReason := by
    refine run.invariant
      (fun _ system => PipeThreads system ∧ system.SleepsWithReason)
      ⟨pipeThreads_boot, ?_⟩ ?_
    · intro _
      simp [PipeSystem.boot, newPipe]
    · rintro _ source label target ⟨known, reason⟩ ⟨keeps, step⟩
      obtain ⟨threads, isReason⟩ := step.reason_iff wide known
      exact ⟨threads, (isReason reason).mpr keeps⟩
  exact ⟨reason, fun label next step => (step.reason_iff wide known).2 reason⟩

/-- A thread sleeps in a read of one byte from a new pipe. -/
def readingPipe : PipeSystem 32 :=
  ({ (PipeSystem.boot : PipeSystem 32) with
      moved := fun other =>
        if other = 0 then 0
        else (PipeSystem.boot : PipeSystem 32).moved other }).finishSection 0
    { pipe := { newPipe with rdWait := [0] }
      call := newCall .read 1
      bytes := []
      asleep := true }

theorem readingPipe_called :
    PipeStep PipeSystem.boot (.call 0 .read 1 fun _ => 0) readingPipe :=
  @PipeStep.call 32 PipeSystem.boot 0 .read 1 (fun _ => 0)
    { pipe := { newPipe with rdWait := [0] }
      call := newCall .read 1
      bytes := []
      asleep := true } rfl rfl

/-- The reader sleeps with reason until the writing end is closed. -/
theorem readingPipe_sleeps_with_reason :
    readingPipe.SleepsWithReason ∧
      ∀ label next, PipeStep readingPipe label next →
        (next.SleepsWithReason ↔ KeepsReason readingPipe label) := by
  have keeps : KeepsReason (PipeSystem.boot : PipeSystem 32)
        (.call 0 .read 1 fun _ => 0) :=
    fun _ => ⟨.inl rfl, .inl rfl⟩
  exact pipe_sleepers_have_reason (by decide)
    (.single ⟨keeps, readingPipe_called⟩)

/-- With the writing end closed the reader sleeps for nothing. -/
theorem closedPipe_sleeps_for_nothing :
    ¬ ∀ (past : List (PipeLabel 32)) system,
      Run PipeStep PipeSystem.boot past system → system.SleepsWithReason := by
  intro reason
  have ran := (Run.single readingPipe_called).append (.single .free)
  have quiet (thread : Nat) :
      ¬ PipeSystem.Running
        { readingPipe with
          pipe := { readingPipe.pipe with refs := readingPipe.pipe.refs - 1 } }
        thread := by
    rintro ⟨inside, awake⟩
    by_cases isReader : thread = 0
    · subst isReader
      exact awake List.mem_cons_self
    · exact inside (if_neg isReader)
  obtain ⟨readers, -⟩ := reason _ _ ran quiet
  have isOpen := (readers 0 List.mem_cons_self).2
  exact absurd isOpen (by decide)

end Idylla.Kernel
