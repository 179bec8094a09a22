import Idylla.Storage.BufferRefinement

namespace Idylla.Storage

open Idylla.Lib

/-!
# Errors of the device under the buffer cache

`buffer_read` asks for a whole window and takes every result that is not
negative for success.  A driver that reads fewer sectors leaves the rest of
the buffer as `kalloc` gave it, and a write that fails has by then changed the
buffers in front of the one that could not be read.
-/

/--
What `storage->ops->read` would answer for every window during one call: a
negative error, or how many sectors it has read and the buffer behind it.  A
window is asked for at most once by a call on a sorted list.
-/
abbrev ReadResults := Nat → Option (Nat × Memory Sector)

/-- A call, the answers of the driver during it, and what it returned. -/
structure Attempt where
  request : Request
  answers : ReadResults
  result : Except Errno Nat

/-- The driver as `buffer_read` sees it. -/
def Attempt.opsRead (attempt : Attempt) : OpsRead :=
  fun start => (attempt.answers start).map Prod.snd

/-- One call of `storage_buffer_rw`, which may fail. -/
structure Attempted
    (device : Memory Sector) (buffers : List StorageBuffer) (attempt : Attempt)
    (after : List StorageBuffer) : Prop where
  counted : ∀ start count data, attempt.answers start = some (count, data) →
      count ≤ bufferSectors ∧
        ∀ index < count, data index = device (start + index)
  result : (storageBufferRw attempt.opsRead buffers attempt.request).result =
      attempt.result
  after :
    (storageBufferRw attempt.opsRead buffers attempt.request).buffers = after

/-- The contents come from the device or from a write that succeeded. -/
def Genuine (device : Memory Sector) (past : List Attempt)
    (sector : Nat) (contents : Sector) : Prop :=
  contents = device sector ∨
    ∃ attempt ∈ past,
      attempt.request.rw = .write ∧ attempt.result.isOk ∧
        attempt.request.off ≤ sector ∧
        sector < attempt.request.off + attempt.request.len ∧
        attempt.request.buf (sector - attempt.request.off) = contents

/-- The driver that works. -/
def working (device : Memory Sector) : OpsRead :=
  fun start => some fun index => device (start + index)

/-- What is asked of a call, whatever the driver answers. -/
structure NothingInvented
    (device : Memory Sector) (past : List Attempt)
    (buffers : List StorageBuffer) (attempt : Attempt)
    (after : List StorageBuffer) : Prop where
  genuine : ∀ count, attempt.result = .ok count → ∀ index < count,
      let contents :=
        (storageBufferRw attempt.opsRead buffers attempt.request).buf index
      HoldsSector after (attempt.request.off + index) contents ∧
        Genuine device (past ++ [attempt]) (attempt.request.off + index)
          contents
  restored : ∀ errno, attempt.result = .error errno →
      ∀ again : Request, again.rw = .read → again.len = 1 →
        (storageBufferRw (working device) after again).result =
            (storageBufferRw (working device) buffers again).result ∧
          (storageBufferRw (working device) after again).buf 0 =
            (storageBufferRw (working device) buffers again).buf 0

/-- In every run of calls that meet `guard`, no call invents a sector. -/
def NeverInvents (guard : List StorageBuffer → Attempt → Prop)
    (device : Memory Sector) : Prop :=
  ∀ {past buffers attempt after},
    Run (Guarded guard (Attempted device)) [] past buffers →
    guard buffers attempt →
    Attempted device buffers attempt after →
    NothingInvented device past buffers attempt after

/--
Every window that is read is read whole, and a write gets no error but for the
window of its first sector; the calls are in order.
-/
structure Careful (buffers : List StorageBuffer) (attempt : Attempt) :
    Prop where
  inOrder : InOrder buffers attempt.request
  whole : ∀ start count data,
      attempt.answers start = some (count, data) → count = bufferSectors
  unharmed : attempt.request.rw = .write →
      (∀ start, attempt.answers start ≠ none) ∨
        ¬ Cached buffers attempt.request.off ∧
          attempt.answers (roundDown attempt.request.off) = none

variable {device array : Memory Sector} {past : List Attempt}
  {buffers after : List StorageBuffer} {attempt : Attempt}

/-- A sorted list serves any one sector, also one that is not in order. -/
theorem storageBufferRw_one (represents : Represents device array buffers)
    {again : Request} (isRead : again.rw = .read) (single : again.len = 1) :
    (storageBufferRw (working device) buffers again).result = .ok 1 ∧
      (storageBufferRw (working device) buffers again).buf 0 =
        array again.off := by
  have serves : Serves (working device) device :=
    fun _ => ⟨_, rfl, fun _ _ => rfl⟩
  have atStart : Progress device array again buffers again.cursor := by
    refine ⟨rfl, by simp [Request.cursor], ?_,
      by simp [Request.cursor], fun _ => rfl⟩
    simpa [written, isRead] using represents
  have walks :
      Walks (working device) device array again [] buffers again.cursor _ :=
    walkBuffers_walks serves.honest atStart (.inr (by simp [Cached]))
  generalize isWalk :
    walkBuffers (working device) again.ticks again.rw buffers again.cursor =
      walked at walks
  have succeeded : walked.failed = false := by
    cases failed : walked.failed with
    | false => rfl
    | true =>
      obtain ⟨start, refused⟩ := walks.refused failed
      cases refused
  have complete := walks.complete succeeded
  have position := walks.progress.position
  have remaining := walks.progress.remaining
  by_cases finished : walked.cursor.left = 0
  · rw [storageBufferRw_of_loops walked _ isWalk succeeded
      (appendBuffers_done finished) rfl]
    refine ⟨?_, walks.progress.delivered isRead 0 (by omega)⟩
    rw [finished, single]
  · -- the sector is in no buffer, so the device has it
    have notCached := complete.exhausted.resolve_left finished
    have fromDevice := walks.progress.represents.uncached _ notCached
    have nothing : walked.cursor.done = 0 := by omega
    have bounds := roundDown_bounds walked.cursor.off
    have isFresh : bufferRead (working device) again.ticks
            (roundDown walked.cursor.off) = some _ :=
      rfl
    have all := transferSectors_left again.rw
      ⟨roundDown walked.cursor.off,
        fun index => device (roundDown walked.cursor.off + index),
        again.ticks, 1, false⟩ walked.cursor
    rw [storageBufferRw_of_loops walked _ isWalk succeeded
      ((appendBuffers_step finished isFresh).trans
        (appendBuffers_done (by rw [all]; dsimp only; omega))) rfl]
    refine ⟨?_, ?_⟩
    · rw [all, single]
      dsimp only
      congr 1
      omega
    · rw [isRead]
      dsimp only [transferSectors]
      rw [nothing, Memory.copy_inside (Nat.le_refl _) (by omega)]
      rw [nothing, Nat.add_zero] at position
      simp only [written, isRead] at fromDevice
      rw [← position, fromDevice]
      congr 1
      omega

theorem Updated.origin {Fresh : StorageBuffer → Prop}
    {Change : StorageBuffer → StorageBuffer → Prop}
    {before : List StorageBuffer} (updated : Updated Fresh Change before after)
    {new : StorageBuffer} (member : new ∈ after) :
    ∃ source, Change source new ∧ (source ∈ before ∨ Fresh source) := by
  induction updated with
  | nil => cases member
  | kept change _ ih =>
    rcases List.mem_cons.mp member with rfl | later
    · exact ⟨_, change, .inl List.mem_cons_self⟩
    · obtain ⟨source, changed, origin⟩ := ih later
      exact ⟨source, changed, origin.imp_left (List.mem_cons_of_mem _)⟩
  | inserted fresh change _ ih =>
    rcases List.mem_cons.mp member with rfl | later
    · exact ⟨_, change, .inr fresh⟩
    · exact ih later

theorem Moves.nothing {opsRead : OpsRead} {ticks moved : Nat} {rw : StorageRw}
    {first last : Transfer}
    (moves : Moves opsRead ticks rw moved buffers first after last)
    (notCached : ¬ Cached buffers first.off)
    (refused : opsRead (roundDown first.off) = none) : moved = 0 := by
  refine Nat.eq_zero_of_not_pos fun positive => ?_
  obtain ⟨new, member, lower, upper, _⟩ := moves.served 0 positive
  obtain ⟨source, changed, old | ⟨sector, _, _, isRead⟩⟩ :=
    moves.updated.origin member
  · rw [changed.start] at lower upper
    exact notCached ⟨source, old, lower, upper⟩
  · rw [changed.start, bufferRead_start isRead] at lower upper
    rw [(holds_iff_roundDown (roundDown_aligned sector)).mp ⟨lower, upper⟩,
      bufferRead, Nat.add_zero, refused] at isRead
    cases isRead

theorem Careful.progress (represents : Represents device array buffers)
    (careful : Careful buffers attempt)
    (attempted : Attempted device buffers attempt after) :
    ∃ cursor moved, Progress device array attempt.request after cursor ∧
      Moves attempt.opsRead attempt.request.ticks attempt.request.rw moved
        buffers attempt.request.cursor after cursor ∧
      (storageBufferRw attempt.opsRead buffers attempt.request).buf =
        cursor.buf ∧
      (attempt.result = .ok attempt.request.len ∧ cursor.left = 0 ∨
        attempt.result = .error Errno.EIO ∧
          written array attempt.request cursor.done = array) := by
  have honest : Honest attempt.opsRead device := by
    intro start data isRead
    obtain ⟨⟨count, _⟩, answered, rfl⟩ := Option.map_eq_some_iff.mp isRead
    rw [← careful.whole start count _ answered]
    exact (attempted.counted start count _ answered).2
  have call := storageBufferRw_progress honest represents careful.inOrder
  rw [attempted.after, attempted.result] at call
  obtain ⟨cursor, moved, progress, moves, sameBuf, ended⟩ := call
  refine ⟨cursor, moved, progress, moves, sameBuf, ended.imp_right ?_⟩
  rintro ⟨failed, start, refused⟩
  refine ⟨failed, ?_⟩
  have noAnswer := Option.map_eq_none_iff.mp refused
  unfold written
  cases direction : attempt.request.rw with
  | read => rfl
  | write =>
    rcases careful.unharmed direction with answered | ⟨notCached, first⟩
    · exact absurd noAnswer (answered start)
    · have nothing := moves.nothing notCached (Option.map_eq_none_iff.mpr first)
      have done := moves.done
      rw [nothing] at done
      rw [done]
      exact Memory.copy_zero _ _ _ _

theorem Genuine.later {sector : Nat} {contents : Sector}
    (genuine : Genuine device past sector contents) :
    Genuine device (past ++ [attempt]) sector contents :=
  genuine.imp_right fun ⟨other, member, wrote⟩ =>
    ⟨other, List.mem_append_left _ member, wrote⟩

theorem written_genuine
    (genuine : ∀ sector, Genuine device past sector (array sector))
    (succeeded : attempt.result = .ok attempt.request.len) (sector : Nat) :
    Genuine device (past ++ [attempt]) sector
      (written array attempt.request attempt.request.len sector) := by
  unfold written
  cases direction : attempt.request.rw with
  | read => exact (genuine sector).later
  | write =>
    dsimp only
    by_cases inside : attempt.request.off ≤ sector ∧
        sector < attempt.request.off + attempt.request.len
    · rw [Memory.copy_inside inside.1 inside.2, Nat.zero_add]
      refine .inr ⟨attempt, by simp, direction, ?_, inside.1, inside.2, rfl⟩
      rw [succeeded]
      rfl
    · rw [Memory.copy_outside (by omega)]
      exact (genuine sector).later

theorem run_genuine
    (run : Run (Guarded Careful (Attempted device)) [] past buffers) :
    ∃ array, Represents device array buffers ∧
      ∀ sector, Genuine device past sector (array sector) := by
  refine run.invariant
    (fun past buffers => ∃ array, Represents device array buffers ∧
      ∀ sector, Genuine device past sector (array sector))
    ⟨device, represents_empty device, fun _ => .inl rfl⟩ ?_
  rintro past source attempt target ⟨array, represents, genuine⟩
    ⟨careful, attempted⟩
  obtain ⟨cursor, _, progress, _, _, ⟨ok, finished⟩ | ⟨_, unchanged⟩⟩ :=
    careful.progress represents attempted
  · have remaining := progress.remaining
    rw [finished, Nat.add_zero] at remaining
    exact ⟨_, remaining ▸ progress.represents, written_genuine genuine ok⟩
  · exact ⟨array, unchanged ▸ progress.represents,
      fun sector => (genuine sector).later⟩

/-- In every careful run the cache invents and half-applies nothing. -/
theorem storageBufferRw_never_invents (device : Memory Sector) :
    NeverInvents Careful device := by
  intro past buffers attempt after run careful attempted
  obtain ⟨array, represents, genuine⟩ := run_genuine run
  obtain ⟨cursor, moved, progress, moves, sameBuf, ended⟩ :=
    careful.progress represents attempted
  refine ⟨fun count counts index below => ?_,
    fun errno fails again isRead single => ?_⟩
  · obtain ⟨ok, finished⟩ | ⟨failed, _⟩ := ended
    · cases ok.symm.trans counts
      have remaining := progress.remaining
      rw [finished, Nat.add_zero] at remaining
      have allMoved : moved = attempt.request.len := by
        have left := moves.left
        rw [finished, Nat.zero_add] at left
        exact left
      have held := moves.served index (allMoved ▸ below)
      rw [← sameBuf] at held
      simp only [Request.cursor, Nat.zero_add] at held
      refine ⟨held, ?_⟩
      obtain ⟨buffer, member, lower, upper, contents⟩ := held
      have agrees := progress.represents.cached buffer member
        (attempt.request.off + index - buffer.start) (by omega)
      rw [Nat.add_sub_cancel' lower, contents, remaining] at agrees
      rw [agrees]
      exact written_genuine genuine ok _
    · cases failed.symm.trans counts
  · obtain ⟨ok, _⟩ | ⟨_, unchanged⟩ := ended
    · cases ok.symm.trans fails
    · obtain ⟨okBefore, sectorBefore⟩ :=
        storageBufferRw_one represents isRead single
      obtain ⟨okAfter, sectorAfter⟩ := storageBufferRw_one
        (unchanged ▸ progress.represents) isRead single
      exact ⟨okAfter.trans okBefore.symm, sectorAfter.trans sectorBefore.symm⟩

/-- `writeSecondChunk`, with the window read whole. -/
def wholeWrite : Attempt where
  request := writeSecondChunk
  answers := fun _ => some (bufferSectors, fun _ => blankSector)
  result := .ok 1

theorem wholeWrite_invents_nothing :
    NothingInvented (fun _ => blankSector) [] [] wholeWrite [secondChunk] := by
  have careful : Careful [] wholeWrite := by
    refine ⟨fun _ _ _ _ => .inl (by simp), fun _ _ _ isRead => ?_,
      fun _ => .inl fun _ missing => by cases missing⟩
    cases isRead
    rfl
  have attempted :
      Attempted (fun _ => blankSector) [] wholeWrite [secondChunk] := by
    have outcome : storageBufferRw wholeWrite.opsRead [] _ = _ :=
      writeSecondChunk_outcome
    refine ⟨fun _ _ _ isRead => ?_, congrArg Outcome.result outcome,
      congrArg Outcome.buffers outcome⟩
    cases isRead
    exact ⟨Nat.le_refl _, fun _ _ => rfl⟩
  exact storageBufferRw_never_invents _ .start careful attempted

/-- A read of the second sector, of a window of which only one is read. -/
def shortRead : Attempt where
  request := { readSecondChunk with off := 1 }
  answers := fun _ => some (1, fun index =>
    if index = 0 then blankSector else markedSector)
  result := .ok 1

theorem shortRead_outcome :
    (storageBufferRw shortRead.opsRead [] shortRead.request).result = .ok 1 ∧
      (storageBufferRw shortRead.opsRead [] shortRead.request).buf 0 =
        markedSector := by
  rw [storageBufferRw_of_loops ⟨[], shortRead.request.cursor, false⟩ _
    rfl rfl ((appendBuffers_step (by decide) rfl).trans
      (appendBuffers_done (by decide))) rfl]
  exact ⟨rfl, rfl⟩

theorem storageBufferRw_invents_sector :
    ¬ NeverInvents (fun _ _ => True) fun _ => blankSector := by
  intro never
  have attempted : Attempted (fun _ => blankSector) [] shortRead
        (storageBufferRw shortRead.opsRead [] shortRead.request).buffers := by
    refine ⟨fun start count data isRead => ?_, shortRead_outcome.1, rfl⟩
    cases isRead
    refine ⟨by decide, fun index below => ?_⟩
    exact if_pos (Nat.lt_one_iff.mp below)
  have genuine := ((never .start trivial attempted).genuine 1 rfl 0
    (by decide)).2
  rw [shortRead_outcome.2] at genuine
  obtain fromDevice | ⟨attempt, member, isWrite, _⟩ := genuine
  · exact blankSector_ne_markedSector fromDevice.symm
  · cases List.mem_singleton.mp member
    cases isWrite

end Idylla.Storage
