import Idylla.Storage.BufferWalk

namespace Idylla.Storage

open Idylla.Lib

/-!
# The sectors one request moves

For any list of buffers, sorted or not: every buffer of the list after a
request comes from a buffer of the list before it or from the driver, it is
changed only in the sectors the loop variable `off` has passed, and for these
the cache and the caller's memory agree.
-/

/-- A list whose elements are changed and between which new ones stand. -/
inductive Updated
    (Fresh : StorageBuffer → Prop)
    (Change : StorageBuffer → StorageBuffer → Prop) :
    List StorageBuffer → List StorageBuffer → Prop where
  | nil : Updated Fresh Change [] []
  | kept {old new : StorageBuffer} {before after : List StorageBuffer}
      (change : Change old new)
      (rest : Updated Fresh Change before after) :
      Updated Fresh Change (old :: before) (new :: after)
  | inserted {read new : StorageBuffer} {before after : List StorageBuffer}
      (fresh : Fresh read)
      (change : Change read new)
      (rest : Updated Fresh Change before after) :
      Updated Fresh Change before (new :: after)

namespace Updated

variable {Fresh : StorageBuffer → Prop}
  {Change : StorageBuffer → StorageBuffer → Prop}

theorem refl (same : ∀ buffer, Change buffer buffer)
    (buffers : List StorageBuffer) : Updated Fresh Change buffers buffers := by
  induction buffers with
  | nil => exact nil
  | cons buffer rest ih =>
    exact kept (same buffer) ih

theorem mono {More : StorageBuffer → Prop}
    {Wider : StorageBuffer → StorageBuffer → Prop}
    (fresh : ∀ buffer, Fresh buffer → More buffer)
    (change : ∀ old new, Change old new → Wider old new)
    {before after : List StorageBuffer}
    (updated : Updated Fresh Change before after) :
    Updated More Wider before after := by
  induction updated with
  | nil => exact nil
  | kept changed _ ih =>
    exact kept (change _ _ changed) ih
  | inserted read changed _ ih =>
    exact inserted (fresh _ read) (change _ _ changed) ih

theorem append {before after moreBefore moreAfter : List StorageBuffer}
    (first : Updated Fresh Change before after)
    (second : Updated Fresh Change moreBefore moreAfter) :
    Updated Fresh Change (before ++ moreBefore) (after ++ moreAfter) := by
  induction first with
  | nil => exact second
  | kept change _ ih =>
    exact kept change ih
  | inserted fresh change _ ih =>
    exact inserted fresh change ih

end Updated

/-- The buffer the driver delivers for a sector from `lower` to `upper`. -/
def ReadFor (opsRead : OpsRead) (ticks lower upper : Nat)
    (buffer : StorageBuffer) : Prop :=
  ∃ sector, lower ≤ sector ∧ sector ≤ upper ∧
    bufferRead opsRead ticks (roundDown sector) = some buffer

/-- The data differs only in sectors from `lower` up to `upper`. -/
structure ChangedWithin
    (rw : StorageRw) (lower upper : Nat)
    (old new : StorageBuffer) : Prop where
  start : new.start = old.start
  read : rw = StorageRw.read → new.data = old.data
  outside : ∀ place, ¬ (lower ≤ new.start + place ∧ new.start + place < upper) →
      new.data place = old.data place

/-- A buffer holds a sector with the given contents. -/
def HoldsSector (buffers : List StorageBuffer) (sector : Nat)
    (contents : Sector) : Prop :=
  ∃ buffer ∈ buffers,
    buffer.start ≤ sector ∧ sector < buffer.start + bufferSectors ∧
      buffer.data (sector - buffer.start) = contents

/-- The loop variables and the buffers after `moved` sectors. -/
structure Moves
    (opsRead : OpsRead) (ticks : Nat) (rw : StorageRw) (moved : Nat)
    (before : List StorageBuffer) (first : Transfer)
    (after : List StorageBuffer) (last : Transfer) : Prop where
  off : last.off = first.off + moved
  done : last.done = first.done + moved
  left : last.left + moved = first.left
  updated : Updated (ReadFor opsRead ticks first.off last.off)
      (ChangedWithin rw first.off last.off)
      before after
  kept : ∀ place, ¬ (first.done ≤ place ∧ place < last.done) →
      last.buf place = first.buf place
  write : rw = StorageRw.write → last.buf = first.buf
  served : ∀ place < moved,
      HoldsSector after (first.off + place) (last.buf (first.done + place))

theorem ChangedWithin.refl
    (rw : StorageRw) (lower upper : Nat) (buffer : StorageBuffer) :
    ChangedWithin rw lower upper buffer buffer :=
  ⟨rfl, fun _ => rfl, fun _ _ => rfl⟩

variable {rw : StorageRw}

theorem ChangedWithin.widen
    {lower upper below above : Nat} {old new : StorageBuffer}
    (changed : ChangedWithin rw lower upper old new) (lowers : below ≤ lower)
    (raises : upper ≤ above) : ChangedWithin rw below above old new :=
  ⟨changed.start, changed.read,
    fun place outside => changed.outside place (by omega)⟩

variable {opsRead : OpsRead} {ticks : Nat} {buffer : StorageBuffer}

theorem ReadFor.widen {lower upper below above : Nat}
    (read : ReadFor opsRead ticks lower upper buffer) (lowers : below ≤ lower)
    (raises : upper ≤ above) : ReadFor opsRead ticks below above buffer := by
  obtain ⟨sector, least, most, isRead⟩ := read
  exact ⟨sector, by omega, by omega, isRead⟩

theorem HoldsSector.mono
    {buffers more : List StorageBuffer} {sector : Nat} {contents : Sector}
    (holds : HoldsSector buffers sector contents)
    (included : ∀ buffer ∈ buffers, buffer ∈ more) :
    HoldsSector more sector contents := by
  obtain ⟨buffer, member, inside⟩ := holds
  exact ⟨buffer, included buffer member, inside⟩

namespace Moves

variable {opsRead : OpsRead} {ticks : Nat} {rw : StorageRw}

theorem refl (buffers : List StorageBuffer) (cursor : Transfer) :
    Moves opsRead ticks rw 0 buffers cursor buffers cursor where
  off := rfl
  done := rfl
  left := rfl
  updated := Updated.refl (ChangedWithin.refl rw _ _) buffers
  kept := fun _ _ => rfl
  write := fun _ => rfl
  served := fun place inside => absurd inside (Nat.not_lt_zero place)

theorem beside
    {moved more : Nat} {before after moreBefore moreAfter : List StorageBuffer}
    {first middle last : Transfer}
    (front : Moves opsRead ticks rw moved before first after middle)
    (back : Moves opsRead ticks rw more moreBefore middle moreAfter last) :
    Moves opsRead ticks rw (moved + more)
      (before ++ moreBefore) first (after ++ moreAfter) last := by
  have offs := front.off
  have dones := front.done
  have lastOff := back.off
  have lastDone := back.done
  refine ⟨?_, ?_, ?_, ?_, ?_, ?_, ?_⟩
  · omega
  · omega
  · have := front.left
    have := back.left
    omega
  · refine Updated.append
      (front.updated.mono (fun _ read => read.widen ?_ ?_)
        (fun _ _ changed => changed.widen ?_ ?_))
      (back.updated.mono (fun _ read => read.widen ?_ ?_)
        (fun _ _ changed => changed.widen ?_ ?_)) <;> omega
  · intro place outside
    rw [back.kept place (by omega), front.kept place (by omega)]
  · intro isWrite
    rw [back.write isWrite, front.write isWrite]
  · intro place inside
    by_cases early : place < moved
    · rw [back.kept (first.done + place) (by omega)]
      exact (front.served place early).mono fun _ member =>
        List.mem_append_left _ member
    · have served := back.served (place - moved) (by omega)
      have sector : middle.off + (place - moved) = first.off + place := by
        omega
      have cell : middle.done + (place - moved) = first.done + place := by
        omega
      rw [sector, cell] at served
      exact served.mono fun _ member => List.mem_append_right _ member

end Moves

/-- The number of sectors one `memcpy` moves. -/
def sectsAt (buffer : StorageBuffer) (cursor : Transfer) : Nat :=
  min cursor.left (bufferSectors - (cursor.off - buffer.start))

theorem transferSectors_changed (rw : StorageRw)
    {buffer : StorageBuffer} {cursor : Transfer}
    (lower : buffer.start ≤ cursor.off) :
    ChangedWithin rw cursor.off (cursor.off + sectsAt buffer cursor)
      buffer (transferSectors rw buffer cursor).1 := by
  refine ⟨transferSectors_start _ _ _, ?_, ?_⟩
  · rintro rfl
    rfl
  · intro place outside
    rw [transferSectors_start] at outside
    unfold sectsAt at outside
    cases rw with
    | read => rfl
    | write => exact Memory.copy_outside (by omega)

theorem transferSectors_served (rw : StorageRw) {cursor : Transfer}
    (lower : buffer.start ≤ cursor.off) {place : Nat}
    (inside : place < sectsAt buffer cursor) :
    (transferSectors rw buffer cursor).1.data
        (cursor.off + place - buffer.start) =
      (transferSectors rw buffer cursor).2.buf (cursor.done + place) := by
  have index : cursor.off + place - buffer.start =
        cursor.off - buffer.start + place := by
    omega
  unfold sectsAt at inside
  cases rw with
  | read =>
    refine Eq.symm (Eq.trans (Memory.copy_inside (by omega) (by omega)) ?_)
    rw [index, Nat.add_sub_cancel_left]
    rfl
  | write =>
    rw [index]
    refine Eq.trans (Memory.copy_inside (by omega) (by omega)) ?_
    rw [Nat.add_sub_cancel_left]
    rfl

theorem transferSectors_moves {opsRead : OpsRead} {ticks : Nat} {rw : StorageRw}
    {before : List StorageBuffer} {buffer : StorageBuffer} {cursor : Transfer}
    (lower : buffer.start ≤ cursor.off)
    (updated :
      Updated
        (ReadFor opsRead ticks cursor.off (cursor.off + sectsAt buffer cursor))
        (ChangedWithin rw cursor.off (cursor.off + sectsAt buffer cursor))
        before [(transferSectors rw buffer cursor).1]) :
    Moves opsRead ticks rw (sectsAt buffer cursor) before cursor
      [(transferSectors rw buffer cursor).1]
      (transferSectors rw buffer cursor).2 := by
  have off := transferSectors_off rw buffer cursor
  have left := transferSectors_left rw buffer cursor
  have done : (transferSectors rw buffer cursor).2.done =
        cursor.done + sectsAt buffer cursor := by
    cases rw <;> rfl
  refine ⟨off, done, ?_, ?_, ?_, ?_, ?_⟩
  · unfold sectsAt
    omega
  · rw [off]
    exact updated
  · intro place outside
    rw [done] at outside
    unfold sectsAt at outside
    cases rw with
    | read => exact Memory.copy_outside (by omega)
    | write => rfl
  · rintro rfl
    rfl
  · intro place inside
    have room := inside
    unfold sectsAt at room
    refine ⟨_, List.mem_singleton_self _, ?_, ?_, ?_⟩
    · rw [transferSectors_start]
      omega
    · rw [transferSectors_start]
      omega
    · rw [transferSectors_start]
      exact transferSectors_served rw lower inside

theorem hit_moves {cursor : Transfer} (lower : buffer.start ≤ cursor.off) :
    Moves opsRead ticks rw (sectsAt buffer cursor) [buffer] cursor
      [(transferSectors rw (buffer.touch ticks) cursor).1]
      (transferSectors rw (buffer.touch ticks) cursor).2 := by
  have changed := @transferSectors_changed rw (buffer.touch ticks) cursor lower
  exact @transferSectors_moves _ _ _ _ (buffer.touch ticks) _ lower
    (Updated.kept ⟨changed.start, changed.read, changed.outside⟩ Updated.nil)

theorem read_holds {off : Nat}
    (isRead : bufferRead opsRead ticks (roundDown off) = some buffer) :
    buffer.start ≤ off := by
  rw [bufferRead_start isRead]
  exact (roundDown_bounds off).1

theorem insert_moves {opsRead : OpsRead} {ticks : Nat} {rw : StorageRw}
    {buffer used : StorageBuffer} {cursor : Transfer}
    (isRead : bufferRead opsRead ticks (roundDown cursor.off) = some buffer)
    (start : used.start = buffer.start) (data : used.data = buffer.data) :
    Moves opsRead ticks rw (sectsAt used cursor) [] cursor
      [(transferSectors rw used cursor).1]
      (transferSectors rw used cursor).2 := by
  have lower : used.start ≤ cursor.off := by
    rw [start]
    exact read_holds isRead
  have changed := @transferSectors_changed rw used cursor lower
  refine transferSectors_moves lower
    (Updated.inserted ⟨cursor.off, Nat.le_refl _, Nat.le_add_right _ _,
      isRead⟩ ⟨?_, ?_, ?_⟩ Updated.nil)
  · rw [changed.start, start]
  · intro isRead
    rw [changed.read isRead, data]
  · intro place outside
    rw [changed.outside place outside, data]

theorem walkBuffers_moves (opsRead : OpsRead) (ticks : Nat) (rw : StorageRw)
    (buffers : List StorageBuffer) (cursor : Transfer) :
    ∃ moved,
      Moves opsRead ticks rw moved buffers cursor
        (walkBuffers opsRead ticks rw buffers cursor).buffers
        (walkBuffers opsRead ticks rw buffers cursor).cursor := by
  induction buffers generalizing cursor with
  | nil => exact ⟨0, Moves.refl [] cursor⟩
  | cons buffer rest ih =>
    rw [walkBuffers.eq_def]
    dsimp only
    by_cases reached : buffer.start ≤ cursor.off
    · rw [if_pos reached]
      by_cases passed : buffer.start + bufferSectors < cursor.off
      · rw [if_pos passed]
        cases rest with
        | nil => exact ⟨0, Moves.refl [buffer] cursor⟩
        | cons next later =>
          dsimp only
          by_cases goesOn : next.start ≤ cursor.off
          · rw [if_pos goesOn]
            obtain ⟨moved, moves⟩ := ih cursor
            exact ⟨_, (Moves.refl [buffer] cursor).beside moves⟩
          · rw [if_neg goesOn]
            cases isRead : bufferRead opsRead ticks (roundDown cursor.off) with
            | none => exact ⟨0, Moves.refl _ cursor⟩
            | some inserted =>
              obtain ⟨moved, moves⟩ :=
                ih (transferSectors rw (inserted.touch ticks) cursor).2
              have insertion :=
                @insert_moves _ ticks rw _ (inserted.touch ticks) _
                  isRead rfl rfl
              exact ⟨_, (Moves.refl [buffer] cursor).beside
                (insertion.beside moves)⟩
      · rw [if_neg passed]
        obtain ⟨moved, moves⟩ :=
          ih (transferSectors rw (buffer.touch ticks) cursor).2
        exact ⟨_, (hit_moves reached).beside moves⟩
    · rw [if_neg reached]
      obtain ⟨moved, moves⟩ := ih cursor
      exact ⟨_, (Moves.refl [buffer] cursor).beside moves⟩

theorem appendBuffers_moves {before : List StorageBuffer} {first : Transfer}
    (buffers : List StorageBuffer) (cursor : Transfer) {moved : Nat}
    (moves : Moves opsRead ticks rw moved before first buffers cursor) :
    ∃ total,
      Moves opsRead ticks rw total before first
        (appendBuffers opsRead ticks rw buffers cursor).buffers
        (appendBuffers opsRead ticks rw buffers cursor).cursor ∧
      ((appendBuffers opsRead ticks rw buffers cursor).failed = false →
        (appendBuffers opsRead ticks rw buffers cursor).cursor.left = 0) := by
  fun_induction appendBuffers opsRead ticks rw buffers cursor
    generalizing moved with
  | case1 buffers cursor finished => exact ⟨moved, moves, fun _ => finished⟩
  | case2 buffers cursor pending isRead =>
    exact ⟨moved, moves, fun impossible => by cases impossible⟩
  | case3 buffers cursor pending appended isRead ih =>
    have insertion := @insert_moves _ ticks rw _ appended _ isRead rfl rfl
    have further := moves.beside insertion
    rw [List.append_nil] at further
    exact ih further

theorem storageBufferRw_moves (opsRead : OpsRead) (buffers : List StorageBuffer)
    (request : Request) :
    ∃ moved last,
      Moves opsRead request.ticks request.rw moved buffers request.cursor
        (storageBufferRw opsRead buffers request).buffers last ∧
      (storageBufferRw opsRead buffers request).buf = last.buf ∧
      ∀ count, (storageBufferRw opsRead buffers request).result = .ok count →
        count = moved := by
  obtain ⟨walked, walks⟩ :=
    walkBuffers_moves opsRead request.ticks request.rw buffers request.cursor
  unfold storageBufferRw
  dsimp only
  split
  · exact ⟨walked, _, walks, rfl, fun count counts => by cases counts⟩
  · obtain ⟨total, moves, finished⟩ := appendBuffers_moves _ _ walks
    split
    · exact ⟨total, _, moves, rfl, fun count counts => by cases counts⟩
    · refine ⟨total, _, moves, rfl, fun count counts => ?_⟩
      have left := moves.left
      cases counts
      change _ = request.len at left
      omega

end Idylla.Storage
