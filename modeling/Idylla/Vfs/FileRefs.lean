import Idylla.Lib.Counting
import Idylla.Vfs.FileTable

namespace Idylla.Vfs

open Idylla.Lib

/-!
# Reference counts of open files

The count of a file is the number of descriptors of all processes that point
to it, and its vnode or pipe end is released when the last of them is closed.
-/

/-- The descriptor of a process points to the file. -/
def FileTables.PointsTo (tables : FileTables) (file : Nat)
    (slot : Nat × Nat) : Prop :=
  ∃ filedes, tables.filedes slot.1 slot.2 = some filedes ∧ filedes.file = file

/-- What `sys_close` can release of a file. -/
def OpenFile.Releasable (file : OpenFile) : Prop :=
  file.type ≠ S_IFSOCK ∧ if file.type = S_IFIFO then file.dataptr ≠ none
    else file.vnode ≠ none

/-- What every call keeps true of the files and the descriptors. -/
structure FilesSound (tables : FileTables) : Prop where
  counted : ∀ pointer file, tables.files.cells pointer = some file →
      ∃ count : Nat,
        HasCount (tables.PointsTo pointer) count ∧ file.refs = count
  live : ∀ pointer slot, tables.PointsTo pointer slot →
      ∃ file, tables.files.cells pointer = some file ∧ file.Releasable
  opened :
    ∀ pointer slot, tables.PointsTo pointer slot → pointer ∈ tables.opened
  allocated : ∀ pointer ∈ tables.opened, pointer < tables.files.next
  unreleased :
    ∀ pointer slot, tables.PointsTo pointer slot → pointer ∉ tables.released
  unopened : ∀ pointer ∈ tables.released, pointer ∈ tables.opened
  once : ∀ pointer ∈ tables.opened, (∀ slot, ¬ tables.PointsTo pointer slot) →
      tables.released.count pointer = 1

namespace FileTables

variable {tables : FileTables} {proc fd : Nat}

theorem filedes_setFiledes (entry : Option FileDes) (otherProc other : Nat) :
    (tables.setFiledes proc fd entry).filedes otherProc other =
      if otherProc = proc ∧ other = fd then entry
      else tables.filedes otherProc other :=
  rfl

theorem pointsTo_fill (free : tables.filedes proc fd = none)
    (filedes : FileDes) (pointer : Nat) (slot : Nat × Nat) :
    (tables.setFiledes proc fd (some filedes)).PointsTo pointer slot ↔
      (slot = (proc, fd) ∧ filedes.file = pointer) ∨
        tables.PointsTo pointer slot := by
  obtain ⟨otherProc, other⟩ := slot
  simp only [PointsTo, filedes_setFiledes, Prod.mk.injEq]
  by_cases here : otherProc = proc ∧ other = fd
  · obtain ⟨rfl, rfl⟩ := here
    simp [free]
  · simp [here]

theorem pointsTo_clear (pointer : Nat) (slot : Nat × Nat) :
    (tables.setFiledes proc fd none).PointsTo pointer slot ↔
      slot ≠ (proc, fd) ∧ tables.PointsTo pointer slot := by
  obtain ⟨otherProc, other⟩ := slot
  simp only [PointsTo, filedes_setFiledes, ne_eq, Prod.mk.injEq]
  by_cases here : otherProc = proc ∧ other = fd
  · simp [here]
  · simp [here]

theorem pointsTo_clear_of_ne {filedes : FileDes}
    (isOpen : tables.filedes proc fd = some filedes) {pointer : Nat}
    (different : pointer ≠ filedes.file) (slot : Nat × Nat) :
    (tables.setFiledes proc fd none).PointsTo pointer slot ↔
      tables.PointsTo pointer slot := by
  rw [pointsTo_clear]
  refine ⟨And.right, fun old => ⟨?_, old⟩⟩
  rintro rfl
  obtain ⟨same, isSame, rfl⟩ := old
  rw [isOpen] at isSame
  exact different (by rw [Option.some.inj isSame])

theorem not_pointsTo_of_free (free : tables.filedes proc fd = none)
    (pointer : Nat) : ¬ tables.PointsTo pointer (proc, fd) := by
  rintro ⟨filedes, isOpen, -⟩
  simp [free] at isOpen

theorem pointsTo_congr {after : FileTables}
    (same : after.filedes = tables.filedes) (pointer : Nat) (slot : Nat × Nat) :
    after.PointsTo pointer slot ↔ tables.PointsTo pointer slot := by
  unfold PointsTo
  rw [same]

theorem cells_addRefs {file : OpenFile} {pointer : Nat}
    (live : tables.files.cells pointer = some file) (change : Int)
    (other : Nat) :
    (tables.addRefs pointer change).files.cells other =
      if other = pointer then some { file with refs := file.refs + change }
      else tables.files.cells other := by
  by_cases same : other = pointer
  · subst same
    simp [addRefs, live]
  · simp [addRefs, Heap.cells_modify_of_ne same, same]

end FileTables

/-- What is true of one file and of the descriptors that point to it. -/
structure SoundAt (tables : FileTables) (pointer : Nat) : Prop where
  counted : ∀ file, tables.files.cells pointer = some file →
      ∃ count : Nat,
        HasCount (tables.PointsTo pointer) count ∧ file.refs = count
  live : ∀ slot, tables.PointsTo pointer slot →
      ∃ file, tables.files.cells pointer = some file ∧ file.Releasable
  opened : ∀ slot, tables.PointsTo pointer slot → pointer ∈ tables.opened
  allocated : pointer ∈ tables.opened → pointer < tables.files.next
  unreleased : ∀ slot, tables.PointsTo pointer slot → pointer ∉ tables.released
  unopened : pointer ∈ tables.released → pointer ∈ tables.opened
  once : pointer ∈ tables.opened → (∀ slot, ¬ tables.PointsTo pointer slot) →
      tables.released.count pointer = 1

theorem filesSound_iff {tables : FileTables} :
    FilesSound tables ↔ ∀ pointer, SoundAt tables pointer :=
  ⟨fun sound pointer =>
      ⟨sound.counted pointer, sound.live pointer, sound.opened pointer,
        sound.allocated pointer, sound.unreleased pointer,
        sound.unopened pointer, sound.once pointer⟩,
    fun sound =>
      ⟨fun pointer => (sound pointer).counted,
        fun pointer => (sound pointer).live,
        fun pointer => (sound pointer).opened,
        fun pointer => (sound pointer).allocated,
        fun pointer => (sound pointer).unreleased,
        fun pointer => (sound pointer).unopened,
        fun pointer => (sound pointer).once⟩⟩

/-- Two tables have the same of a file. -/
structure SameFile (tables after : FileTables) (pointer : Nat) : Prop where
  cells : after.files.cells pointer = tables.files.cells pointer
  points : ∀ slot, after.PointsTo pointer slot ↔ tables.PointsTo pointer slot
  opened : pointer ∈ after.opened ↔ pointer ∈ tables.opened
  released : after.released.count pointer = tables.released.count pointer

theorem SoundAt.congr {tables after : FileTables} {pointer : Nat}
    (sound : SoundAt tables pointer) (same : SameFile tables after pointer)
    (further : tables.files.next ≤ after.files.next) :
    SoundAt after pointer := by
  have points : after.PointsTo pointer = tables.PointsTo pointer :=
    funext fun slot => propext (same.points slot)
  have released : pointer ∈ after.released ↔ pointer ∈ tables.released := by
    rw [← List.count_pos_iff, same.released, List.count_pos_iff]
  refine ⟨?_, ?_, ?_, ?_, ?_, ?_, ?_⟩
  · rw [points, same.cells]
    exact sound.counted
  · rw [points, same.cells]
    exact sound.live
  · rw [points, same.opened]
    exact sound.opened
  · exact fun isOpened =>
      Nat.lt_of_lt_of_le (sound.allocated (same.opened.mp isOpened)) further
  · rw [points, released]
    exact sound.unreleased
  · rw [released, same.opened]
    exact sound.unopened
  · rw [points, same.opened, same.released]
    exact sound.once

namespace FilesSound

variable {tables after : FileTables} {proc fd : Nat}

variable {file : OpenFile}

/-- All that has changed is one file. -/
theorem update (sound : FilesSound tables) (pointer : Nat)
    (here : SoundAt after pointer)
    (elsewhere : ∀ other, other ≠ pointer → SameFile tables after other)
    (further : tables.files.next ≤ after.files.next) : FilesSound after := by
  refine filesSound_iff.mpr fun other => ?_
  by_cases same : other = pointer
  · exact same ▸ here
  · exact (filesSound_iff.mp sound other).congr (elsewhere other same) further

theorem congr (sound : FilesSound tables)
    (sameCells :
      ∀ pointer, after.files.cells pointer = tables.files.cells pointer)
    (sameFiledes : after.filedes = tables.filedes)
    (sameOpened : after.opened = tables.opened)
    (sameReleased : after.released = tables.released)
    (further : tables.files.next ≤ after.files.next) : FilesSound after :=
  filesSound_iff.mpr fun pointer =>
    (filesSound_iff.mp sound pointer).congr
      ⟨sameCells pointer, FileTables.pointsTo_congr sameFiledes pointer,
        by rw [sameOpened], by rw [sameReleased]⟩ further

/-- A second descriptor for a file. -/
theorem dup (sound : FilesSound tables) (free : tables.filedes proc fd = none)
    {otherProc other : Nat} {filedes : FileDes}
    (isOpen : tables.filedes otherProc other = some filedes) (flags : Nat) :
    ∃ after,
      tables.dup filedes proc fd flags = some after ∧ FilesSound after ∧
        after.filedes =
          (tables.setFiledes proc fd
            (some { file := filedes.file, flags := flags })).filedes := by
  have points : tables.PointsTo filedes.file (otherProc, other) :=
    ⟨filedes, isOpen, rfl⟩
  obtain ⟨file, live, releasable⟩ := sound.live _ _ points
  have filled :=
    @FileTables.pointsTo_fill (tables.addRefs filedes.file 1) proc fd free
      { file := filedes.file, flags := flags }
  have cells := FileTables.cells_addRefs live 1
  have isCell := (cells filedes.file).trans (if_pos rfl)
  have absent := FileTables.not_pointsTo_of_free free filedes.file
  refine ⟨(tables.addRefs filedes.file 1).setFiledes proc fd
      (some { file := filedes.file, flags := flags }),
    by rw [FileTables.dup, live],
    sound.update filedes.file ⟨?_, fun _ _ => ⟨_, isCell, releasable⟩,
      fun _ _ => sound.opened _ _ points, sound.allocated _,
      fun _ _ => sound.unreleased _ _ points, sound.unopened _, ?_⟩ ?_
      (Nat.le_refl _), rfl⟩
  · intro cell cellNow
    obtain ⟨count, counted, isRefs⟩ := sound.counted _ file live
    refine ⟨count + 1, counted.insert absent fun slot => ?_, ?_⟩
    · exact (filled filedes.file slot).trans (by simp; rfl)
    · rw [← Option.some.inj (isCell.symm.trans cellNow)]
      show file.refs + 1 = _
      omega
  · intro _ nobody
    exact absurd ((filled _ _).mpr (.inl ⟨rfl, rfl⟩)) (nobody (proc, fd))
  · intro pointer different
    exact
      { cells := (cells pointer).trans (if_neg different)
        points := fun slot =>
          (filled pointer slot).trans (by simp [Ne.symm different]; rfl)
        opened := Iff.rfl
        released := rfl }

theorem install {after : FileTables} {cell : OpenFile} {flags : Nat}
    (sound : FilesSound tables) (free : tables.filedes proc fd = none)
    (oneRef : cell.refs = 1) (releasable : cell.Releasable)
    (newCell :
      ∀ pointer,
        after.files.cells pointer =
          if pointer = tables.files.next then some cell
          else tables.files.cells pointer)
    (newFiledes :
      after.filedes =
        (tables.setFiledes proc fd
          (some { file := tables.files.next, flags := flags })).filedes)
    (newOpened : after.opened = tables.opened ++ [tables.files.next])
    (sameReleased : after.released = tables.released)
    (further : tables.files.next < after.files.next) : FilesSound after := by
  have filled (pointer : Nat) (slot : Nat × Nat) :
      after.PointsTo pointer slot ↔
        (slot = (proc, fd) ∧ tables.files.next = pointer) ∨
          tables.PointsTo pointer slot :=
    (FileTables.pointsTo_congr newFiledes pointer slot).trans
      (FileTables.pointsTo_fill free _ pointer slot)
  have isCell := (newCell tables.files.next).trans (if_pos rfl)
  -- Nothing pointed to the new file, and it was neither opened nor released.
  have notOpened : tables.files.next ∉ tables.opened := fun isOpened =>
    Nat.lt_irrefl _ (sound.allocated _ isOpened)
  have nobody (slot : Nat × Nat) :
      ¬ tables.PointsTo tables.files.next slot := fun points =>
    notOpened (sound.opened _ slot points)
  have notReleased : tables.files.next ∉ after.released := by
    rw [sameReleased]
    exact fun isReleased => notOpened (sound.unopened _ isReleased)
  have isOpened : tables.files.next ∈ after.opened := by
    rw [newOpened]
    exact List.mem_append_right _ List.mem_cons_self
  refine sound.update tables.files.next
    ⟨?_, fun _ _ => ⟨cell, isCell, releasable⟩, fun _ _ => isOpened,
      fun _ => further, fun _ _ => notReleased,
      fun isReleased => absurd isReleased notReleased, ?_⟩ ?_
    (Nat.le_of_lt further)
  · intro file live
    refine ⟨1, ?_, ?_⟩
    · refine (hasCount_zero_iff.mpr nobody).insert (nobody (proc, fd)) ?_
      intro slot
      rw [filled]
      simp
    · rw [← Option.some.inj (isCell.symm.trans live), oneRef]
      rfl
  · intro _ nobodyNow
    exact absurd ((filled _ _).mpr (.inl ⟨rfl, rfl⟩)) (nobodyNow (proc, fd))
  · intro pointer different
    exact
      { cells := (newCell pointer).trans (if_neg different)
        points := fun slot => by
          rw [filled]
          simp [Ne.symm different]
        opened := by simp [newOpened, different]
        released := by rw [sameReleased] }

section Close

variable {filedes : FileDes}

/-- A descriptor is closed; what becomes of its file is told by `here`. -/
theorem close (sound : FilesSound tables)
    (isOpen : tables.filedes proc fd = some filedes)
    (filedesAfter : after.filedes = (tables.setFiledes proc fd none).filedes)
    (here : SoundAt after filedes.file)
    (otherCells :
      ∀ pointer, pointer ≠ filedes.file →
        after.files.cells pointer = tables.files.cells pointer)
    (sameOpened : after.opened = tables.opened)
    (sameReleased :
      ∀ pointer, pointer ≠ filedes.file →
        after.released.count pointer = tables.released.count pointer)
    (sameNext : after.files.next = tables.files.next) : FilesSound after := by
  refine sound.update filedes.file here (fun pointer different => ?_)
    (Nat.le_of_eq sameNext.symm)
  refine ⟨otherCells pointer different, fun slot => ?_, by rw [sameOpened],
    sameReleased pointer different⟩
  exact (FileTables.pointsTo_congr filedesAfter pointer slot).trans
    (FileTables.pointsTo_clear_of_ne isOpen different slot)

/-- One descriptor fewer points to the file. -/
theorem count_close (sound : FilesSound tables)
    (isOpen : tables.filedes proc fd = some filedes)
    (live : tables.files.cells filedes.file = some file)
    (filedesAfter : after.filedes = (tables.setFiledes proc fd none).filedes) :
    ∃ count : Nat, HasCount (after.PointsTo filedes.file) count ∧
      file.refs = (count + 1 : Nat) := by
  have points : tables.PointsTo filedes.file (proc, fd) :=
    ⟨filedes, isOpen, rfl⟩
  obtain ⟨count, counted, isRefs⟩ := sound.counted _ file live
  obtain ⟨fewer, rfl⟩ := Nat.exists_eq_add_of_lt (counted.pos points)
  rw [Nat.zero_add] at counted isRefs
  exact ⟨fewer, counted.erase points fun slot =>
    (FileTables.pointsTo_congr filedesAfter _ slot).trans
      (FileTables.pointsTo_clear _ slot), isRefs⟩

theorem closeKept (sound : FilesSound tables)
    (isOpen : tables.filedes proc fd = some filedes)
    (live : tables.files.cells filedes.file = some file)
    (others : file.refs - 1 ≠ 0)
    (cellsAfter :
      ∀ pointer,
        after.files.cells pointer =
          if pointer = filedes.file then
            some { file with refs := file.refs + -1 }
          else tables.files.cells pointer)
    (filedesAfter : after.filedes = (tables.setFiledes proc fd none).filedes)
    (sameOpened : after.opened = tables.opened)
    (sameReleased : after.released = tables.released)
    (sameNext : after.files.next = tables.files.next) : FilesSound after := by
  have points : tables.PointsTo filedes.file (proc, fd) :=
    ⟨filedes, isOpen, rfl⟩
  obtain ⟨file', live', releasable⟩ := sound.live _ _ points
  obtain rfl := Option.some.inj (live.symm.trans live')
  obtain ⟨count, counted, isRefs⟩ := sound.count_close isOpen live filedesAfter
  have isCell := (cellsAfter filedes.file).trans (if_pos rfl)
  refine sound.close isOpen filedesAfter
    ⟨?_, fun _ _ => ⟨_, isCell, releasable⟩, fun _ _ => ?_, fun _ => ?_,
      fun _ _ => ?_, fun _ => ?_, fun _ nobody => ?_⟩
    (fun pointer different => (cellsAfter pointer).trans (if_neg different))
    sameOpened (fun _ _ => by rw [sameReleased]) sameNext
  · intro cell cellNow
    refine ⟨count, counted, ?_⟩
    rw [← Option.some.inj (isCell.symm.trans cellNow)]
    show file.refs + -1 = _
    omega
  · rw [sameOpened]
    exact sound.opened _ _ points
  · rw [sameNext]
    exact sound.allocated _ (sound.opened _ _ points)
  · rw [sameReleased]
    exact sound.unreleased _ _ points
  · rw [sameOpened]
    exact sound.opened _ _ points
  · have isZero := counted.unique (hasCount_zero_iff.mpr nobody)
    omega

theorem closeLast (sound : FilesSound tables)
    (isOpen : tables.filedes proc fd = some filedes)
    (live : tables.files.cells filedes.file = some file)
    (last : file.refs - 1 = 0)
    (cellAfter :
      ∀ cell, after.files.cells filedes.file = some cell → cell.refs = 0)
    (otherCells :
      ∀ pointer, pointer ≠ filedes.file →
        after.files.cells pointer = tables.files.cells pointer)
    (filedesAfter : after.filedes = (tables.setFiledes proc fd none).filedes)
    (sameOpened : after.opened = tables.opened)
    (isReleased : after.released = tables.released ++ [filedes.file])
    (sameNext : after.files.next = tables.files.next) : FilesSound after := by
  have points : tables.PointsTo filedes.file (proc, fd) :=
    ⟨filedes, isOpen, rfl⟩
  have isOpened := sound.opened _ _ points
  obtain ⟨count, counted, isRefs⟩ := sound.count_close isOpen live filedesAfter
  obtain rfl : count = 0 := by omega
  have nobody := hasCount_zero_iff.mp counted
  refine sound.close isOpen filedesAfter
    ⟨fun cell isCell => ⟨0, counted, cellAfter cell isCell⟩,
      fun slot now => absurd now (nobody slot),
      fun slot now => absurd now (nobody slot), fun _ => ?_,
      fun slot now => absurd now (nobody slot), fun _ => ?_, fun _ _ => ?_⟩
    otherCells sameOpened (fun pointer different => ?_) sameNext
  · rw [sameNext]
    exact sound.allocated _ isOpened
  · rw [sameOpened]
    exact isOpened
  · rw [isReleased, List.count_append,
      List.count_eq_zero.mpr (sound.unreleased _ _ points)]
    simp
  · rw [isReleased, List.count_append]
    simp [Ne.symm different]

end Close

end FilesSound

end Idylla.Vfs
