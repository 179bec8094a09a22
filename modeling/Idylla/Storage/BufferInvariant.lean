import Idylla.Storage.Buffer

namespace Idylla.Storage

open Idylla.Lib

/-!
# What the loops of the buffer cache preserve

The cache stands for a flat array of sectors.  A list of buffers represents
that array when it is sorted by `start`, every buffer agrees with the array,
and every sector outside the buffers is still the device's.  Both loops of
`storage_buffer_rw` keep this true of the array as far as it has been written,
provided no buffer is ever put behind a larger one.
-/

/-- A sector lies in some buffer of the list. -/
def Cached (buffers : List StorageBuffer) (sector : Nat) : Prop :=
  ∃ buffer ∈ buffers,
    buffer.start ≤ sector ∧ sector < buffer.start + bufferSectors

/-- The array after the first `done` sectors of a request. -/
def written (array : Memory Sector) (request : Request) (done : Nat) :
    Memory Sector :=
  match request.rw with
  | .read => array
  | .write => array.copy request.off request.buf 0 done

/-- A sorted list of buffers that agrees with the array it stands for. -/
structure Represents
    (device array : Memory Sector)
    (buffers : List StorageBuffer) : Prop where
  aligned : ∀ buffer ∈ buffers, buffer.start % bufferSectors = 0
  sorted : buffers.Pairwise fun first second => first.start < second.start
  cached : ∀ buffer ∈ buffers, ∀ index < bufferSectors,
      buffer.data index = array (buffer.start + index)
  uncached : ∀ sector, ¬ Cached buffers sector → array sector = device sector

/-- `storage->ops->read` never fails and returns what the device stores. -/
def Serves (opsRead : OpsRead) (device : Memory Sector) : Prop :=
  ∀ start, ∃ data,
    opsRead start = some data ∧
      ∀ index < bufferSectors, data index = device (start + index)

namespace Represents

variable {device array : Memory Sector} {earlier later : List StorageBuffer}
  {buffer : StorageBuffer}

section

variable (represents : Represents device array (earlier ++ buffer :: later))

include represents

theorem earlier_ends {other : StorageBuffer} (member : other ∈ earlier) :
    other.start + bufferSectors ≤ buffer.start := by
  have smaller : other.start < buffer.start :=
    (List.pairwise_append.mp represents.sorted).2.2
      other member buffer (by simp)
  have otherAligned := represents.aligned other (by simp [member])
  have bufferAligned := represents.aligned buffer (by simp)
  unfold bufferSectors at *
  omega

theorem later_starts {other : StorageBuffer} (member : other ∈ later) :
    buffer.start + bufferSectors ≤ other.start := by
  have larger : buffer.start < other.start :=
    (List.pairwise_cons.mp
      (List.pairwise_append.mp represents.sorted).2.1).1 other member
  have otherAligned := represents.aligned other (by simp [member])
  have bufferAligned := represents.aligned buffer (by simp)
  unfold bufferSectors at *
  omega

/-- Writing inside one buffer writes the array it stands for. -/
theorem copy_into {changed : StorageBuffer}
    (source : Memory Sector) (sourceAt count : Nat) {target : Nat}
    (lower : buffer.start ≤ target)
    (upper : target + count ≤ buffer.start + bufferSectors)
    (sameStart : changed.start = buffer.start)
    (newData :
      changed.data =
        buffer.data.copy (target - buffer.start) source sourceAt count) :
    Represents device (array.copy target source sourceAt count)
      (earlier ++ changed :: later) where
  aligned := by
    intro other member
    simp only [List.mem_append, List.mem_cons] at member
    rcases member with inEarlier | rfl | inLater
    · exact represents.aligned other (by simp [inEarlier])
    · rw [sameStart]
      exact represents.aligned buffer (by simp)
    · exact represents.aligned other (by simp [inLater])
  sorted := by
    have sorted := represents.sorted
    simpa [List.pairwise_append, sameStart] using sorted
  cached := by
    intro other member index bound
    simp only [List.mem_append, List.mem_cons] at member
    rcases member with inEarlier | rfl | inLater
    · have ends := represents.earlier_ends inEarlier
      rw [Memory.copy_outside (by omega)]
      exact represents.cached other (by simp [inEarlier]) index bound
    · have agrees := represents.cached buffer (by simp) index bound
      rw [newData, sameStart]
      by_cases inside :
          target - buffer.start ≤ index ∧ index < target - buffer.start + count
      · rw [Memory.copy_inside inside.1 inside.2,
          Memory.copy_inside (by omega) (by omega)]
        congr 1
        omega
      · rw [Memory.copy_outside (by omega), Memory.copy_outside (by omega)]
        exact agrees
    · have starts := represents.later_starts inLater
      rw [Memory.copy_outside (by omega)]
      exact represents.cached other (by simp [inLater]) index bound
  uncached := by
    intro sector notCached
    have outside :
        ¬ (buffer.start ≤ sector ∧ sector < buffer.start + bufferSectors) := by
      intro inside
      exact notCached ⟨changed, by simp, by rw [sameStart]; exact inside⟩
    rw [Memory.copy_outside (by omega)]
    apply represents.uncached
    rintro ⟨other, member, inside⟩
    apply notCached
    simp only [List.mem_append, List.mem_cons] at member
    rcases member with inEarlier | rfl | inLater
    · exact ⟨other, by simp [inEarlier], inside⟩
    · exact (outside inside).elim
    · exact ⟨other, by simp [inLater], inside⟩

end

/-- A buffer read from the device fits between smaller and larger ones. -/
theorem insert (represents : Represents device array (earlier ++ later))
    (aligned : buffer.start % bufferSectors = 0)
    (afterEarlier : ∀ other ∈ earlier, other.start < buffer.start)
    (beforeLater : ∀ other ∈ later, buffer.start < other.start)
    (fromDevice :
      ∀ index < bufferSectors,
        buffer.data index = device (buffer.start + index)) :
    Represents device array (earlier ++ buffer :: later) where
  aligned := by
    intro other member
    simp only [List.mem_append, List.mem_cons] at member
    rcases member with inEarlier | rfl | inLater
    · exact represents.aligned other (by simp [inEarlier])
    · exact aligned
    · exact represents.aligned other (by simp [inLater])
  sorted := by
    obtain ⟨sortedEarlier, sortedLater, across⟩ :=
      List.pairwise_append.mp represents.sorted
    refine List.pairwise_append.mpr
      ⟨sortedEarlier, List.pairwise_cons.mpr ⟨beforeLater, sortedLater⟩, ?_⟩
    intro first inEarlier second member
    rcases List.mem_cons.mp member with rfl | inLater
    · exact afterEarlier first inEarlier
    · exact across first inEarlier second inLater
  cached := by
    intro other member index bound
    simp only [List.mem_append, List.mem_cons] at member
    rcases member with inEarlier | rfl | inLater
    · exact represents.cached other (by simp [inEarlier]) index bound
    · rw [fromDevice index bound]
      symm
      apply represents.uncached
      rintro ⟨cachedBuffer, cachedMember, inside⟩
      have cachedAligned := represents.aligned cachedBuffer cachedMember
      have different : cachedBuffer.start ≠ other.start := by
        rcases List.mem_append.mp cachedMember with
          inEarlier | inLater
        · exact Nat.ne_of_lt (afterEarlier cachedBuffer inEarlier)
        · exact Nat.ne_of_gt (beforeLater cachedBuffer inLater)
      unfold bufferSectors at *
      omega
    · exact represents.cached other (by simp [inLater]) index bound
  uncached := by
    intro sector notCached
    apply represents.uncached
    rintro ⟨other, member, inside⟩
    refine notCached ⟨other, ?_, inside⟩
    rcases List.mem_append.mp member with inEarlier | inLater
    · simp [inEarlier]
    · simp [inLater]

end Represents

/--
The state of a request in one of the loops: what has been transferred so far
is in the caller's memory or in the array, and nothing else has changed.
-/
structure Progress
    (device array : Memory Sector) (request : Request)
    (buffers : List StorageBuffer) (cursor : Transfer) : Prop where
  position : cursor.off = request.off + cursor.done
  remaining : cursor.done + cursor.left = request.len
  represents : Represents device (written array request cursor.done) buffers
  delivered : request.rw = .read →
      ∀ index < cursor.done, cursor.buf index = array (request.off + index)
  unread : request.rw = .write → cursor.buf = request.buf

theorem Progress.transfer {device array : Memory Sector} {request : Request}
    {earlier later : List StorageBuffer}
    {buffer : StorageBuffer} {cursor : Transfer} (touched : StorageBuffer)
    (progress :
      Progress device array request (earlier ++ buffer :: later) cursor)
    (sameStart : touched.start = buffer.start)
    (sameData : touched.data = buffer.data) (lower : buffer.start ≤ cursor.off)
    (upper : cursor.off ≤ buffer.start + bufferSectors) :
    Progress device array request
      (earlier ++ (transferSectors request.rw touched cursor).1 :: later)
      (transferSectors request.rw touched cursor).2 := by
  obtain ⟨position, remaining, represents, delivered, unread⟩ := progress
  cases direction : request.rw with
  | read =>
    simp only [written, direction] at represents
    refine ⟨?_, ?_, ?_, ?_, ?_⟩
    · simp only [transferSectors]
      omega
    · simp only [transferSectors]
      omega
    · simp only [transferSectors, written, direction]
      simpa using
        represents.copy_into cursor.buf 0 0
          lower upper sameStart (by simpa using sameData)
    · intro _ index bound
      simp only [transferSectors] at bound ⊢
      by_cases old : index < cursor.done
      · rw [Memory.copy_outside (by omega)]
        exact delivered direction index old
      · rw [Memory.copy_inside (by omega) (by omega), sameData,
          represents.cached buffer (by simp) _ (by omega)]
        congr 1
        omega
    · intro isWrite
      simp [direction] at isWrite
  | write =>
    have sameBuf := unread direction
    simp only [written, direction] at represents
    refine ⟨?_, ?_, ?_, ?_, ?_⟩
    · simp only [transferSectors]
      omega
    · simp only [transferSectors]
      omega
    · simp only [transferSectors, written, direction]
      rw [← Memory.copy_copy_adjacent, Nat.zero_add, ← position, sameBuf]
      refine represents.copy_into _ _ _ lower ?_ sameStart ?_
      · omega
      · simp only [sameStart, sameData]
    · intro isRead
      simp [direction] at isRead
    · intro _
      exact sameBuf

end Idylla.Storage
