import Idylla.Lib.Run
import Idylla.Storage.BufferMoves

namespace Idylla.Storage

open Idylla.Lib

/-!
# The buffer cache as a flat array of sectors

A run of successful requests on one storage, starting from an empty buffer
list, is compared with the array in which every sector holds what was last
written to it.  The comparison holds as long as every buffer that has to be
read either goes to the end of the sorted list or fills a gap the list walk
notices; a request outside this condition makes the appending loop put a
buffer behind a larger one, and later a second copy of a cached sector.
-/

/-- The most recent write that covers a sector, looking at the newest first. -/
def lastStored (device : Memory Sector) :
    List Request → Memory Sector
  | [], sector => device sector
  | request :: older, sector =>
    if request.rw = .write ∧ request.off ≤ sector ∧
        sector < request.off + request.len then
      request.buf (sector - request.off)
    else
      lastStored device older sector

/-- The flat array after the calls `past`, oldest first. -/
def flatAfter (device : Memory Sector) (past : List Request) : Memory Sector :=
  lastStored device past.reverse

/-- One successful call of `storage_buffer_rw`. -/
def Call (opsRead : OpsRead) (buffers : List StorageBuffer) (request : Request)
    (after : List StorageBuffer) : Prop :=
  ∃ count,
    (storageBufferRw opsRead buffers request).result = .ok count ∧
      (storageBufferRw opsRead buffers request).buffers = after

/--
In every run of calls that meet `guard`, a read delivers the flat array.
-/
def ReadsFlatArray (guard : List StorageBuffer → Request → Prop)
    (opsRead : OpsRead) (device : Memory Sector) : Prop :=
  ∀ {past buffers request}, Run (Guarded guard (Call opsRead)) [] past buffers →
    guard buffers request →
    request.rw = .read →
    (storageBufferRw opsRead buffers request).result = .ok request.len ∧
      ∀ index < request.len,
        (storageBufferRw opsRead buffers request).buf index =
          flatAfter device past (request.off + index)

/--
The list walk inserts a buffer for `off`: there are buffers on both sides and
none of them ends exactly where the request starts.
-/
def FillsGap (buffers : List StorageBuffer) (off : Nat) : Prop :=
  (∃ buffer ∈ buffers, buffer.start ≤ off) ∧
    (∃ buffer ∈ buffers, off < buffer.start) ∧
    ∀ buffer ∈ buffers, buffer.start + bufferSectors ≠ off

/--
Every requested sector outside the cache lies above the whole cache, or in the
gap that the list walk fills at the start of the request.
-/
def InOrder (buffers : List StorageBuffer) (request : Request) : Prop :=
  ∀ sector, request.off ≤ sector → sector < request.off + request.len →
    ¬ Cached buffers sector →
    (∀ buffer ∈ buffers, buffer.start < sector) ∨
      (roundDown sector = roundDown request.off ∧ FillsGap buffers request.off)

theorem flatAfter_append (device : Memory Sector) (past : List Request)
    (request : Request) :
    flatAfter device (past ++ [request]) =
      written (flatAfter device past) request request.len := by
  funext sector
  simp only [flatAfter, List.reverse_append, List.reverse_cons,
    List.reverse_nil, List.nil_append, List.singleton_append,
    lastStored, written]
  cases request.rw with
  | read =>
    simp
  | write =>
    simp [Memory.copy]

variable {opsRead : OpsRead}

theorem walkBuffers_fillsGap (ticks : Nat) (rw : StorageRw)
    {remaining : List StorageBuffer} {cursor : Transfer}
    (sorted : remaining.Pairwise fun first second => first.start < second.start)
    (below : ∃ buffer ∈ remaining, buffer.start ≤ cursor.off)
    (above : ∃ buffer ∈ remaining, cursor.off < buffer.start)
    (apart :
      ∀ buffer ∈ remaining,
        buffer.start + bufferSectors < cursor.off ∨ cursor.off < buffer.start)
    (succeeded :
      (walkBuffers opsRead ticks rw remaining cursor).failed = false) :
    ∃ kept ∈ (walkBuffers opsRead ticks rw remaining cursor).buffers,
      kept.start = roundDown cursor.off := by
  induction remaining with
  | nil =>
    obtain ⟨buffer, member, _⟩ := below
    simp at member
  | cons buffer rest ih =>
    obtain ⟨smallerThanRest, restSorted⟩ := List.pairwise_cons.mp sorted
    obtain ⟨lowBuffer, lowMember, low⟩ := below
    have started : buffer.start ≤ cursor.off := by
      rcases List.mem_cons.mp lowMember with rfl | inRest
      · exact low
      · have smaller := smallerThanRest lowBuffer inRest
        omega
    have ended : buffer.start + bufferSectors < cursor.off := by
      rcases apart buffer (by simp) with ended | notStarted
      · exact ended
      · omega
    have restAbove : ∃ other ∈ rest, cursor.off < other.start := by
      obtain ⟨highBuffer, highMember, high⟩ := above
      rcases List.mem_cons.mp highMember with rfl | inRest
      · omega
      · exact ⟨highBuffer, inRest, high⟩
    unfold walkBuffers at succeeded ⊢
    rw [if_pos started, if_pos ended] at succeeded ⊢
    cases rest with
    | nil =>
      obtain ⟨other, member, _⟩ := restAbove
      simp at member
    | cons next later =>
      by_cases nextStarted : next.start ≤ cursor.off
      · simp only [nextStarted, ↓reduceIte] at succeeded ⊢
        obtain ⟨kept, member, same⟩ :=
          ih restSorted ⟨next, by simp, nextStarted⟩ restAbove
            (fun other member => apart other (List.mem_cons_of_mem _ member))
            succeeded
        exact ⟨kept, by simp [member], same⟩
      · simp only [nextStarted, ↓reduceIte] at succeeded ⊢
        cases isRead : bufferRead opsRead ticks (roundDown cursor.off) with
        | none =>
          rw [isRead] at succeeded
          cases succeeded
        | some fresh =>
          refine ⟨_, List.mem_cons_of_mem _ List.mem_cons_self, ?_⟩
          rw [transferSectors_start]
          exact @bufferRead_start _ ticks _ fresh isRead

variable {device array : Memory Sector} {buffers : List StorageBuffer}
  {request : Request}

/-- After an in-order walk the next buffer goes to the end of the list. -/
theorem walkBuffers_before_append {start : Transfer} {result : LoopResult}
    (represents : Represents device array buffers)
    (inOrder : InOrder buffers request) (startOff : start.off = request.off)
    (isWalk :
      walkBuffers opsRead request.ticks request.rw buffers start = result)
    (walked : Walked device array request [] buffers start result) :
    result.cursor.left = 0 ∨
      ∀ buffer ∈ result.buffers,
        buffer.start < roundDown result.cursor.off := by
  by_cases finished : result.cursor.left = 0
  · exact .inl finished
  right
  have notCached : ¬ Cached result.buffers result.cursor.off := by
    simpa using walked.exhausted.resolve_left finished
  have resultAligned := walked.progress.represents.aligned
  have notCachedBefore : ¬ Cached buffers result.cursor.off := by
    rintro ⟨buffer, member, inside⟩
    obtain ⟨kept, keptMember, same⟩ := walked.keeps buffer member
    exact notCached ⟨kept, keptMember, by rw [same]; exact inside⟩
  have position := walked.progress.position
  have remaining := walked.progress.remaining
  rcases inOrder result.cursor.off (by omega) (by omega)
      notCachedBefore with allBelow | ⟨sameChunk, fillsGap⟩
  · intro buffer member
    apply lt_roundDown (resultAligned buffer member)
    have started : buffer.start ≤ result.cursor.off := by
      rcases walked.adds buffer member with
        ⟨old, oldMember, same⟩ | small
      · have below := allBelow old oldMember
        omega
      · exact small
    have notHere :
        ¬ (buffer.start ≤ result.cursor.off ∧
          result.cursor.off < buffer.start + bufferSectors) :=
      fun inside => notCached ⟨buffer, member, inside⟩
    omega
  · -- the walk filled the gap, so the cursor would be cached
    obtain ⟨below, above, noneEnds⟩ := fillsGap
    rw [← startOff] at below above noneEnds sameChunk
    have apart : ∀ buffer ∈ buffers,
          buffer.start + bufferSectors < start.off ∨
            start.off < buffer.start := by
      intro buffer member
      have notEnd := noneEnds buffer member
      have aligned := represents.aligned buffer member
      have notHere :
          ¬ (buffer.start ≤ start.off ∧
            start.off < buffer.start + bufferSectors) := by
        intro inside
        apply notCachedBefore
        refine ⟨buffer, member, ?_⟩
        rw [holds_iff_roundDown aligned] at inside ⊢
        rw [inside, sameChunk]
      omega
    obtain ⟨kept, member, keptStart⟩ :=
      walkBuffers_fillsGap request.ticks request.rw
        represents.sorted below above apart
        (isWalk ▸ walked.succeeded)
    rw [isWalk] at member
    refine (notCached ⟨kept, member, ?_⟩).elim
    rw [holds_iff_roundDown (resultAligned kept member), keptStart, sameChunk]

theorem appendBuffers_progress {request : Request}
    (honest : Honest opsRead device)
    {buffers : List StorageBuffer} {cursor : Transfer}
    (progress : Progress device array request buffers cursor)
    (atEnd :
      cursor.left = 0 ∨
        ∀ buffer ∈ buffers, buffer.start < roundDown cursor.off) :
    let result :=
      appendBuffers opsRead request.ticks request.rw buffers cursor
    Progress device array request result.buffers result.cursor ∧
      (result.failed = false → result.cursor.left = 0) ∧
      (result.failed = true → ∃ start, opsRead start = none) := by
  fun_induction appendBuffers opsRead request.ticks request.rw buffers cursor
    with
  | case1 buffers cursor finished =>
    exact ⟨progress, fun _ => finished, fun failed => by cases failed⟩
  | case2 buffers cursor pending isRead =>
    refine ⟨progress, fun succeeded => ?_, fun _ => ?_⟩
    · cases succeeded
    · exact ⟨_, Option.map_eq_none_iff.mp isRead⟩
  | case3 buffers cursor pending fresh isRead ih =>
    have freshStart := bufferRead_start isRead
    have below := atEnd.resolve_left pending
    have bounds := roundDown_bounds cursor.off
    have withFresh :
        Progress device array request (buffers ++ fresh :: []) cursor := by
      have noLater : Progress device array request (buffers ++ []) cursor := by
        simpa using progress
      exact noLater.insert honest isRead below (by simp)
    have moved := withFresh.transfer fresh rfl rfl (by omega) (by omega)
    refine ih moved ?_
    rcases transferSectors_finishes request.rw fresh cursor
        (by omega) (by omega) with done | past
    · exact .inl done
    · right
      intro buffer member
      apply lt_roundDown (moved.represents.aligned buffer member)
      rw [past]
      rcases List.mem_append.mp member with inOld | isFresh
      · have ends := withFresh.represents.earlier_ends inOld
        omega
      · refine Nat.le_of_eq ?_
        rw [List.mem_singleton.mp isFresh, transferSectors_start]

theorem storageBufferRw_of_loops (walked appended : LoopResult)
    (walk :
      walkBuffers opsRead request.ticks request.rw buffers
        request.cursor = walked) (walkSucceeded : walked.failed = false)
    (append :
      appendBuffers opsRead request.ticks request.rw walked.buffers
        walked.cursor = appended) (appendSucceeded : appended.failed = false) :
    storageBufferRw opsRead buffers request =
      { buffers := appended.buffers
        buf := appended.cursor.buf
        result := .ok (request.len - appended.cursor.left) } := by
  simp only [storageBufferRw, walk, walkSucceeded, append,
    appendSucceeded, Bool.false_eq_true, ↓reduceIte]

/-- An in-order call, whatever its loops leave behind. -/
theorem storageBufferRw_progress
    {buffers : List StorageBuffer} {request : Request}
    (honest : Honest opsRead device)
    (represents : Represents device array buffers)
    (inOrder : InOrder buffers request) :
    ∃ cursor moved,
      Progress device array request
        (storageBufferRw opsRead buffers request).buffers cursor ∧
      Moves opsRead request.ticks request.rw moved buffers request.cursor
        (storageBufferRw opsRead buffers request).buffers cursor ∧
      (storageBufferRw opsRead buffers request).buf = cursor.buf ∧
      ((storageBufferRw opsRead buffers request).result = .ok request.len ∧
          cursor.left = 0 ∨
        (storageBufferRw opsRead buffers request).result = .error Errno.EIO ∧
          ∃ start, opsRead start = none) := by
  have atStart : Progress device array request buffers request.cursor := by
    refine ⟨rfl, by simp [Request.cursor], ?_,
      by simp [Request.cursor], fun _ => rfl⟩
    cases direction : request.rw <;>
      simpa [written, direction, Request.cursor] using represents
  have walks : Walks opsRead device array request [] buffers request.cursor _ :=
    walkBuffers_walks honest atStart (.inr (by simp [Cached]))
  obtain ⟨walkMoved, walkMoves⟩ :=
    walkBuffers_moves opsRead request.ticks request.rw buffers request.cursor
  unfold storageBufferRw
  dsimp only
  split
  next failed =>
    exact ⟨_, _, walks.progress, walkMoves, rfl,
      .inr ⟨rfl, walks.refused failed⟩⟩
  next succeeded =>
    have walked := walks.complete (Bool.eq_false_iff.mpr succeeded)
    have atEnd := walkBuffers_before_append represents inOrder rfl rfl walked
    obtain ⟨progress, finished, refused⟩ :=
      appendBuffers_progress honest walked.progress atEnd
    obtain ⟨moved, moves, _⟩ := appendBuffers_moves _ _ walkMoves
    split
    next failed =>
      exact ⟨_, _, progress, moves, rfl, .inr ⟨rfl, refused failed⟩⟩
    next succeeded =>
      have done := finished (Bool.eq_false_iff.mpr succeeded)
      refine ⟨_, _, progress, moves, rfl, .inl ⟨?_, done⟩⟩
      exact congrArg (fun left => Except.ok (request.len - left)) done

theorem storageBufferRw_represents
    {buffers : List StorageBuffer} {request : Request}
    (serves : Serves opsRead device)
    (represents : Represents device array buffers)
    (inOrder : InOrder buffers request) :
    let outcome := storageBufferRw opsRead buffers request
    outcome.result = .ok request.len ∧
      Represents device (written array request request.len) outcome.buffers ∧
      (request.rw = .read →
        ∀ index < request.len,
          outcome.buf index = array (request.off + index)) := by
  obtain ⟨cursor, _, progress, _, sameBuf, ⟨result, finished⟩ | failed⟩ :=
    storageBufferRw_progress serves.honest represents inOrder
  · have complete := progress.remaining
    rw [finished, Nat.add_zero] at complete
    refine ⟨result, complete ▸ progress.represents, fun isRead index bound => ?_⟩
    rw [sameBuf]
    exact progress.delivered isRead index (by omega)
  · obtain ⟨start, refused⟩ := failed.2
    obtain ⟨data, isRead, _⟩ := serves start
    rw [refused] at isRead
    cases isRead

theorem represents_empty (device : Memory Sector) :
    Represents device device [] where
  aligned := by simp
  sorted := List.Pairwise.nil
  cached := by simp
  uncached := fun _ _ => rfl

theorem run_represents {past : List Request} (serves : Serves opsRead device)
    (run : Run (Guarded InOrder (Call opsRead)) [] past buffers) :
    Represents device (flatAfter device past) buffers := by
  refine run.invariant
    (fun past buffers => Represents device (flatAfter device past) buffers)
    (represents_empty device) ?_
  intro past source request target represents step
  obtain ⟨inOrder, count, _, same⟩ := step
  rw [flatAfter_append, ← same]
  exact (storageBufferRw_represents serves represents inOrder).2.1

/--
Along every run of in-order calls, a read delivers for each sector the most
recent write that covers it, or the device's own sector.
-/
theorem storageBufferRw_reads_flat_array
    {opsRead : OpsRead} {device : Memory Sector}
    (serves : Serves opsRead device) :
    ReadsFlatArray InOrder opsRead device := by
  intro past buffers request run inOrder isRead
  obtain ⟨result, _, delivered⟩ :=
    storageBufferRw_represents serves (run_represents serves run) inOrder
  exact ⟨result, delivered isRead⟩

/-- A sector of zero bytes. -/
def blankSector : Sector := Vector.replicate 512 0

/-- A sector that differs from `blankSector`. -/
def markedSector : Sector := Vector.replicate 512 1

/-- A driver for a device of blank sectors. -/
def blankRead : OpsRead :=
  fun _ => some fun _ => blankSector

/-- Write one marked sector in the second chunk of the device. -/
def writeSecondChunk : Request where
  rw := .write
  buf := fun _ => markedSector
  len := 1
  off := 128
  ticks := 0

/-- Read the first chunk and the sector behind it. -/
def readAcross : Request where
  rw := .read
  buf := fun _ => blankSector
  len := 129
  off := 0
  ticks := 1

/-- What `writeSecondChunk` leaves in an empty cache. -/
def secondChunk : StorageBuffer where
  start := 128
  data := Memory.copy (fun _ => blankSector) 0 (fun _ => markedSector) 0 1
  lastUsed := 0
  used := 1
  isDirty := true

theorem blankSector_ne_markedSector :
    blankSector ≠ markedSector := by
  intro same
  have first := congrArg (fun sector : Sector => sector[0]) same
  simp [blankSector, markedSector] at first

theorem blankRead_serves :
    Serves blankRead fun _ => blankSector :=
  fun _ => ⟨fun _ => blankSector, rfl, fun _ _ => rfl⟩

theorem bufferRead_blank (ticks start : Nat) :
    bufferRead blankRead ticks start =
      some
        { start := start
          data := fun _ => blankSector
          lastUsed := ticks
          used := 1
          isDirty := false } :=
  rfl

theorem writeSecondChunk_outcome :
    storageBufferRw blankRead [] writeSecondChunk =
      { buffers := [secondChunk]
        buf := fun _ => markedSector
        result := .ok 1 } := by
  refine storageBufferRw_of_loops ⟨[], _, false⟩
    ⟨[secondChunk], ⟨fun _ => markedSector, 1, 129, 0⟩, false⟩
    rfl rfl ?_ rfl
  rw [appendBuffers_step (by decide) (bufferRead_blank _ _),
    appendBuffers_done (by decide)]
  rfl

theorem readAcross_misses_write :
    (storageBufferRw blankRead [secondChunk] readAcross).buf 128 =
      blankSector := by
  rw [storageBufferRw_of_loops ⟨[secondChunk], readAcross.cursor, false⟩
    (appendBuffers blankRead 1 .read [secondChunk] readAcross.cursor)
    rfl rfl rfl]
  all_goals
    rw [appendBuffers_step (by decide) (bufferRead_blank _ _),
      appendBuffers_step (by decide) (bufferRead_blank _ _),
      appendBuffers_done (by decide)]
  rfl

theorem writeSecondChunk_run {guard : List StorageBuffer → Request → Prop}
    (allowed : guard [] writeSecondChunk) :
    Run (Guarded guard (Call blankRead)) [] [writeSecondChunk] [secondChunk] :=
  .single ⟨allowed, 1, by rw [writeSecondChunk_outcome],
    by rw [writeSecondChunk_outcome]⟩

/--
Without the condition a read can miss a cached write: the first chunk is
appended behind the second one, and the second one is then appended again.
-/
theorem storageBufferRw_misses_cached_write :
    ¬ ReadsFlatArray (fun _ _ => True) blankRead fun _ => blankSector := by
  intro reads
  have delivered :=
    (@reads _ _ readAcross (writeSecondChunk_run trivial) trivial
      rfl).2 128 (by decide)
  rw [readAcross_misses_write] at delivered
  exact blankSector_ne_markedSector delivered

/-- Read back the sector that `writeSecondChunk` wrote. -/
def readSecondChunk : Request where
  rw := .read
  buf := fun _ => blankSector
  len := 1
  off := 128
  ticks := 2

/-- A cached sector is read back as it was written. -/
theorem readSecondChunk_reads_flat_array :
    InOrder [] writeSecondChunk ∧ InOrder [secondChunk] readSecondChunk ∧
      (storageBufferRw blankRead [secondChunk] readSecondChunk).result = .ok 1 ∧
      (storageBufferRw blankRead [secondChunk] readSecondChunk).buf 0 =
        markedSector := by
  have writeInOrder : InOrder [] writeSecondChunk :=
    fun _ _ _ _ => .inl (by simp)
  have readInOrder : InOrder [secondChunk] readSecondChunk := by
    intro sector lower upper notCached
    refine (notCached ⟨secondChunk, by simp, ?_⟩).elim
    simp only [readSecondChunk] at lower upper
    simp only [secondChunk, bufferSectors]
    omega
  obtain ⟨result, delivered⟩ :=
    storageBufferRw_reads_flat_array blankRead_serves
      (writeSecondChunk_run writeInOrder) readInOrder rfl
  exact ⟨writeInOrder, readInOrder, result, delivered 0 (by decide)⟩

end Idylla.Storage
