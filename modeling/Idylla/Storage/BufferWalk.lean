import Idylla.Storage.BufferInvariant

namespace Idylla.Storage

open Idylla.Lib

/-!
# The two loops of `storage_buffer_rw`

The list walk is followed buffer by buffer with the part of the list behind
the loop variable as a parameter.  It always leaves a sorted list; the loop
that appends does so only while nothing in the list lies above the buffer it
appends.
-/

namespace LoopResult

@[simp] theorem behind_buffers (buffer : StorageBuffer) (result : LoopResult) :
    (result.behind buffer).buffers = buffer :: result.buffers := rfl

@[simp] theorem behind_cursor (buffer : StorageBuffer) (result : LoopResult) :
    (result.behind buffer).cursor = result.cursor := rfl

@[simp] theorem behind_failed (buffer : StorageBuffer) (result : LoopResult) :
    (result.behind buffer).failed = result.failed := rfl

end LoopResult

@[simp] theorem transferSectors_start
    (rw : StorageRw) (buffer : StorageBuffer) (cursor : Transfer) :
    (transferSectors rw buffer cursor).1.start = buffer.start := by
  cases rw <;> rfl

theorem transferSectors_off
    (rw : StorageRw) (buffer : StorageBuffer) (cursor : Transfer) :
    (transferSectors rw buffer cursor).2.off =
      cursor.off +
        min cursor.left (bufferSectors - (cursor.off - buffer.start)) := by
  cases rw <;> rfl

/-- What `storage->ops->read` gives for a whole buffer is the device's. -/
def Honest (opsRead : OpsRead) (device : Memory Sector) : Prop :=
  ∀ start data, opsRead start = some data →
    ∀ index < bufferSectors, data index = device (start + index)

variable {opsRead : OpsRead} {device : Memory Sector}

theorem Serves.honest (serves : Serves opsRead device) :
    Honest opsRead device := by
  intro start data isRead
  obtain ⟨served, isServed, agrees⟩ := serves start
  rw [isRead] at isServed
  cases isServed
  exact agrees

variable {buffer : StorageBuffer}

theorem bufferRead_fromDevice {ticks start : Nat}
    (honest : Honest opsRead device)
    (isRead : bufferRead opsRead ticks start = some buffer) :
    ∀ index < bufferSectors, buffer.data index = device (start + index) := by
  obtain ⟨data, hasData, rfl⟩ := Option.map_eq_some_iff.mp isRead
  exact honest start data hasData

theorem Progress.insert
    {opsRead : OpsRead} {device array : Memory Sector} {request : Request}
    {earlier later : List StorageBuffer} {fresh : StorageBuffer}
    {cursor : Transfer} {ticks off : Nat}
    (progress : Progress device array request (earlier ++ later) cursor)
    (honest : Honest opsRead device)
    (isRead : bufferRead opsRead ticks (roundDown off) = some fresh)
    (afterEarlier : ∀ other ∈ earlier, other.start < roundDown off)
    (beforeLater : ∀ other ∈ later, roundDown off < other.start) :
    Progress device array request (earlier ++ fresh :: later) cursor := by
  have freshStart := bufferRead_start isRead
  rw [← freshStart] at afterEarlier beforeLater
  refine { progress with represents := ?_ }
  refine progress.represents.insert ?_ afterEarlier beforeLater ?_
  · rw [freshStart]
    exact roundDown_aligned off
  · rw [freshStart]
    exact bufferRead_fromDevice honest isRead

theorem cached_append {first second : List StorageBuffer} {sector : Nat} :
    Cached (first ++ second) sector ↔
      Cached first sector ∨ Cached second sector := by
  simp [Cached, or_and_right, exists_or]

theorem cached_singleton {sector : Nat} :
    Cached [buffer] sector ↔
      buffer.start ≤ sector ∧ sector < buffer.start + bufferSectors := by
  simp [Cached]

/-- The list walk from the buffers `remaining` on, behind `earlier`. -/
structure Walked
    (device array : Memory Sector) (request : Request)
    (earlier remaining : List StorageBuffer)
    (cursor : Transfer) (result : LoopResult) : Prop where
  succeeded : result.failed = false
  progress :
    Progress device array request (earlier ++ result.buffers) result.cursor
  exhausted : result.cursor.left = 0 ∨
      ¬ Cached (earlier ++ result.buffers) result.cursor.off
  advances : cursor.off ≤ result.cursor.off
  keeps :
    ∀ buffer ∈ remaining, ∃ kept ∈ result.buffers, kept.start = buffer.start
  adds : ∀ kept ∈ result.buffers,
      (∃ buffer ∈ remaining, buffer.start = kept.start) ∨
        kept.start ≤ result.cursor.off

namespace Walked

variable {device array : Memory Sector} {request : Request}
  {earlier rest : List StorageBuffer} {buffer passed : StorageBuffer}
  {cursor : Transfer} {result : LoopResult}

theorem behind (moved : Transfer)
    (walked :
      Walked device array request (earlier ++ [passed]) rest moved result)
    (sameStart : passed.start = buffer.start)
    (forward : cursor.off ≤ moved.off) :
    Walked device array request earlier (buffer :: rest) cursor
      (result.behind passed) where
  succeeded := walked.succeeded
  progress := by
    simpa using walked.progress
  exhausted := by
    simpa using walked.exhausted
  advances := Nat.le_trans forward walked.advances
  keeps := by
    intro other member
    rcases List.mem_cons.mp member with rfl | inRest
    · exact ⟨passed, by simp, sameStart⟩
    · obtain ⟨kept, keptMember, same⟩ := walked.keeps other inRest
      exact ⟨kept, by simp [keptMember], same⟩
  adds := by
    intro kept member
    rcases List.mem_cons.mp member with rfl | inResult
    · exact .inl ⟨buffer, by simp, sameStart.symm⟩
    · rcases walked.adds kept inResult with
        ⟨other, otherMember, same⟩ | small
      · exact .inl ⟨other, by simp [otherMember], same⟩
      · exact .inr small

theorem inserted (moved : Transfer)
    (walked :
      Walked device array request (earlier ++ [passed]) rest moved result)
    (small : passed.start ≤ cursor.off) (forward : cursor.off ≤ moved.off) :
    Walked device array request earlier rest cursor (result.behind passed) where
  succeeded := walked.succeeded
  progress := by
    simpa using walked.progress
  exhausted := by
    simpa using walked.exhausted
  advances := Nat.le_trans forward walked.advances
  keeps := by
    intro other member
    obtain ⟨kept, keptMember, same⟩ := walked.keeps other member
    exact ⟨kept, by simp [keptMember], same⟩
  adds := by
    intro kept member
    rcases List.mem_cons.mp member with rfl | inResult
    · exact .inr (Nat.le_trans small (Nat.le_trans forward walked.advances))
    · exact walked.adds kept inResult

end Walked

/-- The list walk, when the driver may fail. -/
structure Walks
    (opsRead : OpsRead) (device array : Memory Sector) (request : Request)
    (earlier remaining : List StorageBuffer)
    (cursor : Transfer) (result : LoopResult) : Prop where
  progress :
    Progress device array request (earlier ++ result.buffers) result.cursor
  complete : result.failed = false →
      Walked device array request earlier remaining cursor result
  refused : result.failed = true → ∃ start, opsRead start = none

theorem Walks.pass
    {opsRead : OpsRead} {device array : Memory Sector} {request : Request}
    {earlier rest remaining : List StorageBuffer} {passed : StorageBuffer}
    {cursor moved : Transfer} {result : LoopResult}
    (walks :
      Walks opsRead device array request (earlier ++ [passed]) rest moved
        result)
    (lift :
      Walked device array request (earlier ++ [passed]) rest moved result →
        Walked device array request earlier remaining cursor
          (result.behind passed)) :
    Walks opsRead device array request earlier remaining cursor
      (result.behind passed) where
  progress := by
    simpa using walks.progress
  complete := fun succeeded => lift (walks.complete succeeded)
  refused := walks.refused

theorem transferSectors_finishes
    (rw : StorageRw) (touched : StorageBuffer) (cursor : Transfer)
    (lower : touched.start ≤ cursor.off)
    (upper : cursor.off ≤ touched.start + bufferSectors) :
    (transferSectors rw touched cursor).2.left = 0 ∨
      (transferSectors rw touched cursor).2.off =
        touched.start + bufferSectors := by
  rw [transferSectors_left, transferSectors_off]
  omega

theorem exhausted_transfer {array : Memory Sector}
    {rw : StorageRw} {cursor : Transfer} {earlier later : List StorageBuffer}
    {touched : StorageBuffer}
    (represents : Represents device array (earlier ++ buffer :: later))
    (sameStart : touched.start = buffer.start)
    (lower : buffer.start ≤ cursor.off)
    (upper : cursor.off ≤ buffer.start + bufferSectors) :
    (transferSectors rw touched cursor).2.left = 0 ∨
      ¬ Cached (earlier ++ [(transferSectors rw touched cursor).1])
        (transferSectors rw touched cursor).2.off := by
  rcases transferSectors_finishes rw touched cursor
      (by omega) (by omega) with finished | atEnd
  · exact .inl finished
  · right
    rw [cached_append, cached_singleton, transferSectors_start, atEnd]
    rintro (⟨other, member, inside⟩ | inside)
    · have ends := represents.earlier_ends member
      omega
    · omega

theorem walkBuffers_walks {array : Memory Sector} {request : Request}
    (honest : Honest opsRead device)
    {remaining earlier : List StorageBuffer} {cursor : Transfer}
    (progress : Progress device array request (earlier ++ remaining) cursor)
    (behind : cursor.left = 0 ∨ ¬ Cached earlier cursor.off) :
    Walks opsRead device array request earlier remaining cursor
      (walkBuffers opsRead request.ticks request.rw remaining cursor) := by
  induction remaining generalizing earlier cursor with
  | nil =>
    refine ⟨progress, fun _ => ?_, fun failed => by cases failed⟩
    exact ⟨rfl, progress, by simpa [walkBuffers] using behind,
      Nat.le_refl _, by simp, by simp [walkBuffers]⟩
  | cons buffer rest ih =>
    have progressSplit : Progress device array request
          ((earlier ++ [buffer]) ++ rest) cursor := by
      simpa using progress
    -- a buffer that does not hold the cursor is passed unchanged
    have passing :
        (cursor.left = 0 ∨
          ¬ (buffer.start ≤ cursor.off ∧
            cursor.off < buffer.start + bufferSectors)) →
        cursor.left = 0 ∨ ¬ Cached (earlier ++ [buffer]) cursor.off := by
      rw [cached_append, cached_singleton]
      rintro (finished | outside)
      · exact .inl finished
      · rcases behind with finished | notEarlier
        · exact .inl finished
        · exact .inr (not_or.mpr ⟨notEarlier, outside⟩)
    unfold walkBuffers
    by_cases started : buffer.start ≤ cursor.off
    · rw [if_pos started]
      by_cases ended : buffer.start + bufferSectors < cursor.off
      · rw [if_pos ended]
        cases rest with
        | nil =>
          refine ⟨progress, fun _ => ?_, fun failed => by cases failed⟩
          refine ⟨rfl, progress, ?_, Nat.le_refl _, by simp, by simp⟩
          exact passing (.inr (by omega))
        | cons next later =>
          by_cases nextStarted : next.start ≤ cursor.off
          · simp only [nextStarted, ↓reduceIte]
            exact (ih progressSplit (passing (.inr (by omega)))).pass
              fun walked => walked.behind _ rfl (Nat.le_refl _)
          · simp only [nextStarted, ↓reduceIte]
            cases isRead :
                bufferRead opsRead request.ticks (roundDown cursor.off) with
            | none =>
              refine ⟨progress, fun succeeded => ?_, fun _ => ?_⟩
              · cases succeeded
              · exact ⟨_, Option.map_eq_none_iff.mp isRead⟩
            | some fresh =>
              have freshStart := bufferRead_start isRead
              have bounds := roundDown_bounds cursor.off
              have bufferAligned := progress.represents.aligned buffer (by simp)
              have afterBuffer : buffer.start < roundDown cursor.off :=
                lt_roundDown bufferAligned (Nat.le_of_lt ended)
              have withFresh : Progress device array request
                    ((earlier ++ [buffer]) ++ fresh :: next :: later)
                    cursor := by
                refine progressSplit.insert honest isRead ?_ ?_
                · intro other member
                  rcases List.mem_append.mp member with
                    inEarlier | isBuffer
                  · have ends := progress.represents.earlier_ends inEarlier
                    omega
                  · rw [List.mem_singleton.mp isBuffer]
                    exact afterBuffer
                · intro other member
                  rcases List.mem_cons.mp member with
                    rfl | inLater
                  · omega
                  · have starts := progressSplit.represents.later_starts inLater
                    omega
              have moved :=
                withFresh.transfer (fresh.touch request.ticks) rfl
                  rfl (by omega) (by omega)
              refine (Walks.pass (ih (by simpa using moved) ?_) fun walked =>
                walked.inserted _ ?_ ?_).pass fun walked =>
                  walked.behind cursor rfl (Nat.le_refl _)
              · exact exhausted_transfer withFresh.represents rfl
                  (by omega) (by omega)
              · simp only [transferSectors_start, StorageBuffer.touch]
                omega
              · rw [transferSectors_off]
                omega
      · rw [if_neg ended]
        have moved :=
          progress.transfer (buffer.touch request.ticks) rfl rfl
            started (by omega)
        refine (ih (by simpa using moved) ?_).pass fun walked =>
          walked.behind _ ?_ ?_
        · exact exhausted_transfer progress.represents rfl started (by omega)
        · rw [transferSectors_start]
          rfl
        · rw [transferSectors_off]
          omega
    · rw [if_neg started]
      exact (ih progressSplit (passing (.inr (by omega)))).pass
        fun walked => walked.behind _ rfl (Nat.le_refl _)

end Idylla.Storage
