import Idylla.Vfs.FileCalls

namespace Idylla.Vfs

open Idylla.Lib

/-!
# Duplicating onto a descriptor

`sys_dup2` closes the new descriptor before it looks at the old one again.  It
does what it is to do unless both are the same, or the new one is the last of a
named pipe, which `sys_close` takes for an end of `sys_pipe`.
-/

/-- A file is there, and its count is that of its descriptors. -/
def FileTables.Counted (tables : FileTables) (pointer : Nat) : Prop :=
  ∃ file, tables.files.cells pointer = some file ∧
    ∃ count : Nat, HasCount (tables.PointsTo pointer) count ∧ file.refs = count

/--
Descriptors whose files are counted.  A file that is no pipe has a vnode; there
are no sockets, which `sys_shutdown` would close.
-/
structure DescriptorsSound (tables : FileTables) : Prop where
  counted :
    ∀ pointer slot, tables.PointsTo pointer slot → tables.Counted pointer
  plain : ∀ pointer slot file, tables.PointsTo pointer slot →
      tables.files.cells pointer = some file →
        file.type ≠ S_IFSOCK ∧ (file.type ≠ S_IFIFO → file.vnode ≠ none)

/-- One descriptor of a file has been closed, and the file with the last. -/
structure ClosedOne
    (tables after : FileTables) (pointer : Nat)
    (slot : Nat × Nat) : Prop where
  last : (∀ other, tables.PointsTo pointer other → other = slot) →
      after.released = tables.released ++ [pointer]
  kept : ∀ other, other ≠ slot → tables.PointsTo pointer other →
      after.released = tables.released ∧ after.Counted pointer

/-- What `sys_dup2` is to have done when it returns the new descriptor. -/
structure Dup2Done
    (tables after : FileTables) (proc oldfd newfd : Nat)
    (filedes : FileDes) : Prop where
  old :
    ∃ entry, after.filedes proc oldfd = some entry ∧ entry.file = filedes.file
  new :
    ∃ entry, after.filedes proc newfd = some entry ∧ entry.file = filedes.file
  counted : after.Counted filedes.file
  closed : oldfd ≠ newfd → ∀ entry, tables.filedes proc newfd = some entry →
      ClosedOne tables after entry.file (proc, newfd)
  others : ∀ otherProc other, ¬ (otherProc = proc ∧ other = newfd) →
      after.filedes otherProc other = tables.filedes otherProc other

/-- The last descriptor of a file is not that of a named pipe. -/
def ClosesDefined (tables : FileTables) (proc fd : Nat) : Prop :=
  ∀ filedes file, tables.filedes proc fd = some filedes →
    tables.files.cells filedes.file = some file → file.refs = 1 →
      file.type = S_IFIFO → file.dataptr ≠ none

section Close

variable {tables closed : FileTables} {proc : Nat} {fd : Int}
  {filedes : FileDes} {file : OpenFile}

theorem FilesSound.descriptorsSound (sound : FilesSound tables) :
    DescriptorsSound tables where
  counted := fun pointer slot points => by
    obtain ⟨file, live, -⟩ := sound.live pointer slot points
    exact ⟨file, live, sound.counted pointer file live⟩
  plain := fun pointer slot file points isFile => by
    obtain ⟨other, live, notSocket, releasable⟩ :=
      sound.live pointer slot points
    obtain rfl := Option.some.inj (live.symm.trans isFile)
    refine ⟨notSocket, fun notFifo => ?_⟩
    rwa [if_neg notFifo] at releasable

theorem sysClose_clears {result : Except Errno Unit}
    (isOpen : tables.descriptor proc fd = some filedes)
    (returns : sysClose tables proc fd = some (closed, result)) :
    closed.filedes = (tables.setFiledes proc fd.toNat none).filedes := by
  unfold sysClose at returns
  rw [isOpen] at returns
  dsimp only at returns
  split at returns
  · cases returns
  split at returns
  · split at returns
    · cases returns
    split at returns
    · split at returns <;> cases returns
      rfl
    · split at returns <;> cases returns <;> rfl
  · cases returns
    rfl

theorem sysClose_undefined (isOpen : tables.descriptor proc fd = some filedes)
    (live : tables.files.cells filedes.file = some file) (last : file.refs = 1)
    (isFifo : file.type = S_IFIFO) (noPipe : file.dataptr = none) :
    sysClose tables proc fd = none := by
  have notSocket : file.type ≠ S_IFSOCK := by
    rw [isFifo]
    decide
  unfold sysClose
  rw [isOpen]
  dsimp only
  rw [live]
  dsimp only
  rw [if_pos (by omega), if_neg notSocket, if_pos isFifo, noPipe]

/-- What `sys_close` of a descriptor has done. -/
structure Closes
    (tables closed : FileTables) (proc fd : Nat)
    (filedes : FileDes) : Prop where
  cleared : closed.filedes = (tables.setFiledes proc fd none).filedes
  one : ClosedOne tables closed filedes.file (proc, fd)
  counted :
    ∀ pointer slot, closed.PointsTo pointer slot → closed.Counted pointer

theorem closes_of_cells {slot : Nat} (sound : DescriptorsSound tables)
    (isOpen : tables.filedes proc slot = some filedes)
    (live : tables.files.cells filedes.file = some file)
    (cleared : closed.filedes = (tables.setFiledes proc slot none).filedes)
    (otherCells :
      ∀ pointer, pointer ≠ filedes.file →
        closed.files.cells pointer = tables.files.cells pointer)
    (last : file.refs = 1 → closed.released = tables.released ++ [filedes.file])
    (kept : file.refs ≠ 1 →
      closed.released = tables.released ∧
        closed.files.cells filedes.file =
          some { file with refs := file.refs + -1 }) :
    Closes tables closed proc slot filedes := by
  have points : tables.PointsTo filedes.file (proc, slot) :=
    ⟨filedes, isOpen, rfl⟩
  have pointsAfter (pointer : Nat) (other : Nat × Nat) :
      closed.PointsTo pointer other ↔
        other ≠ (proc, slot) ∧ tables.PointsTo pointer other :=
    (FileTables.pointsTo_congr cleared pointer other).trans
      (FileTables.pointsTo_clear pointer other)
  obtain ⟨same, isSame, count, counted, isRefs⟩ := sound.counted _ _ points
  obtain rfl := Option.some.inj (live.symm.trans isSame)
  obtain ⟨fewer, rfl⟩ : ∃ fewer, count = fewer + 1 :=
    ⟨count - 1, by have := counted.pos points; omega⟩
  have left : HasCount (closed.PointsTo filedes.file) fewer :=
    counted.erase points (pointsAfter filedes.file)
  -- Another descriptor of the file shows that it was not the last.
  have keeps {other : Nat × Nat}
      (pointsOther : closed.PointsTo filedes.file other) :
      closed.released = tables.released ∧ closed.Counted filedes.file := by
    have positive := left.pos pointsOther
    obtain ⟨sameReleased, isCell⟩ := kept (by omega)
    refine ⟨sameReleased, _, isCell, fewer, left, ?_⟩
    show file.refs + -1 = _
    omega
  refine ⟨cleared, ⟨fun only => ?_, fun other different pointsOther => ?_⟩,
    fun pointer other pointsOther => ?_⟩
  · refine last ?_
    have isEmpty : fewer = 0 := by
      refine Nat.eq_zero_of_not_pos fun positive => ?_
      obtain ⟨other, pointsOther⟩ := left.exists positive
      obtain ⟨different, old⟩ := (pointsAfter _ _).mp pointsOther
      exact different (only other old)
    omega
  · exact keeps ((pointsAfter _ _).mpr ⟨different, pointsOther⟩)
  · by_cases same : pointer = filedes.file
    · subst same
      exact (keeps pointsOther).2
    · obtain ⟨-, old⟩ := (pointsAfter _ _).mp pointsOther
      obtain ⟨cell, isCell, others, countedOther, isCount⟩ :=
        sound.counted _ _ old
      refine ⟨cell, (otherCells pointer same).trans isCell, others,
        countedOther.congr fun item => ?_, isCount⟩
      exact (FileTables.pointsTo_congr cleared pointer item).trans
        (FileTables.pointsTo_clear_of_ne isOpen same item)

theorem sysClose_closes (sound : DescriptorsSound tables)
    (isOpen : tables.descriptor proc fd = some filedes)
    (defined : ClosesDefined tables proc fd.toNat) :
    ∃ closed,
      sysClose tables proc fd = some (closed, .ok ()) ∧
        Closes tables closed proc fd.toNat filedes := by
  obtain ⟨-, -, inTable⟩ := FileTables.descriptor_eq_some isOpen
  have points : tables.PointsTo filedes.file (proc, fd.toNat) :=
    ⟨filedes, inTable, rfl⟩
  obtain ⟨file, live, -⟩ := sound.counted _ _ points
  obtain ⟨notSocket, hasVnode⟩ := sound.plain _ _ file points live
  have cells := @FileTables.cells_addRefs
    (tables.setFiledes proc fd.toNat none) file filedes.file live (-1)
  have others (pointer : Nat) (different : pointer ≠ filedes.file) :=
    (cells pointer).trans (if_neg different)
  have isCell := (cells filedes.file).trans (if_pos rfl)
  unfold sysClose
  rw [isOpen]
  dsimp only
  rw [live]
  dsimp only
  by_cases last : file.refs = 1
  · have notKept {claim : Prop} : file.refs ≠ 1 → claim :=
      fun kept => absurd last kept
    rw [if_pos (by omega), if_neg notSocket]
    by_cases isFifo : file.type = S_IFIFO
    · obtain ⟨pipe, isPipe⟩ :=
        Option.ne_none_iff_exists'.mp
          (defined filedes file inTable live last isFifo)
      rw [if_pos isFifo, isPipe]
      exact ⟨_, rfl, closes_of_cells sound inTable live rfl others
        (fun _ => rfl) notKept⟩
    · obtain ⟨vnode, isVnode⟩ := Option.ne_none_iff_exists'.mp (hasVnode isFifo)
      rw [if_neg isFifo, isVnode]
      refine ⟨_, rfl, closes_of_cells sound inTable live rfl
        (fun pointer different => ?_) (fun _ => rfl) notKept⟩
      exact (Heap.cells_free_of_ne different).trans (others pointer different)
  · rw [if_neg (by omega)]
    exact ⟨_, rfl, closes_of_cells sound inTable live rfl others
      (fun isLast => absurd isLast last) fun _ => ⟨rfl, isCell⟩⟩

end Close

section Call

variable {tables : FileTables} {proc : Nat} {oldfd newfd : Int}
  {filedes : FileDes}

theorem counted_dup {closed : FileTables} {fd : Nat} (flags : Nat)
    (free : closed.filedes proc fd = none)
    (counted : closed.Counted filedes.file) :
    ∃ after, closed.dup filedes proc fd flags = some after ∧
      after.Counted filedes.file ∧
      after.filedes =
        (closed.setFiledes proc fd
          (some { file := filedes.file, flags := flags })).filedes ∧
      after.released = closed.released ∧
      ∀ pointer, pointer ≠ filedes.file →
        closed.Counted pointer → after.Counted pointer := by
  obtain ⟨file, live, count, isCount, isRefs⟩ := counted
  have filled :=
    @FileTables.pointsTo_fill (closed.addRefs filedes.file 1) proc fd free
      { file := filedes.file, flags := flags }
  have cells := FileTables.cells_addRefs live 1
  refine ⟨(closed.addRefs filedes.file 1).setFiledes proc fd
      (some { file := filedes.file, flags := flags }),
    by rw [FileTables.dup, live], ?_, rfl, rfl, ?_⟩
  · refine ⟨_, (cells filedes.file).trans (if_pos rfl), count + 1,
      isCount.insert (FileTables.not_pointsTo_of_free free _) fun other => ?_,
      ?_⟩
    · exact (filled filedes.file other).trans (by simp; rfl)
    · show file.refs + 1 = _
      omega
  · rintro pointer different ⟨cell, isCell, others, countedOther, isRefs⟩
    refine ⟨cell, ((cells pointer).trans (if_neg different)).trans isCell,
      others, countedOther.congr fun other => ?_, isRefs⟩
    exact (filled pointer other).trans (by simp [Ne.symm different]; rfl)

theorem sysDup2_done (sound : DescriptorsSound tables)
    (isOpen : tables.descriptor proc oldfd = some filedes)
    (inRange : 0 ≤ newfd ∧ newfd < OPEN_MAX) (distinct : oldfd ≠ newfd)
    (defined : ClosesDefined tables proc newfd.toNat) :
    ∃ after,
      sysDup2 tables proc oldfd newfd = some (after, .ok newfd.toNat) ∧
        Dup2Done tables after proc oldfd.toNat newfd.toNat filedes := by
  obtain ⟨notNegative, below, inTable⟩ := FileTables.descriptor_eq_some isOpen
  have apart : oldfd.toNat ≠ newfd.toNat := by omega
  have points : tables.PointsTo filedes.file (proc, oldfd.toNat) :=
    ⟨filedes, inTable, rfl⟩
  -- `newfd` has been closed where it was open; `oldfd` is untouched.
  have closes : ∃ closed,
        (if (tables.filedes proc newfd.toNat).isSome then
          (sysClose tables proc newfd).map Prod.fst
        else some tables) = some closed ∧
          closed.filedes = (tables.setFiledes proc newfd.toNat none).filedes ∧
          closed.Counted filedes.file ∧
          ∀ entry, tables.filedes proc newfd.toNat = some entry →
            ClosedOne tables closed entry.file (proc, newfd.toNat) := by
    cases target : tables.filedes proc newfd.toNat with
    | none =>
      refine ⟨tables, rfl, ?_, sound.counted _ _ points,
        fun _ isSome => by cases isSome⟩
      funext otherProc other
      rw [FileTables.filedes_setFiledes]
      split
      next here => rw [here.1, here.2, target]
      · rfl
    | some entry =>
      have isTarget : tables.descriptor proc newfd = some entry := by
        rw [FileTables.descriptor, if_neg (by omega), target]
      obtain ⟨closed, isClosed, cleared, one, counted⟩ :=
        sysClose_closes sound isTarget defined
      have pointsClosed : closed.PointsTo filedes.file (proc, oldfd.toNat) :=
        (FileTables.pointsTo_congr cleared _ _).mpr
          ((FileTables.pointsTo_clear _ _).mpr
            ⟨fun same => apart (congrArg Prod.snd same), points⟩)
      refine ⟨closed, by simp [isClosed], cleared,
        counted _ _ pointsClosed, fun other isSame => ?_⟩
      cases isSame
      exact one
  obtain ⟨closed, isClosed, cleared, counted, one⟩ := closes
  have isFree : closed.filedes proc newfd.toNat = none := by
    rw [cleared, FileTables.filedes_setFiledes, if_pos ⟨rfl, rfl⟩]
  have kept : closed.filedes proc oldfd.toNat = some filedes := by
    rw [cleared, FileTables.filedes_setFiledes,
      if_neg fun here => apart here.2, inTable]
  obtain ⟨after, isAfter, countedAfter, filled, sameReleased, others⟩ :=
    counted_dup 0 isFree counted
  refine ⟨after, ?_, ?_⟩
  · unfold sysDup2
    rw [isOpen]
    rw [if_neg (by omega), isClosed, Option.bind_some,
      FileTables.descriptor, if_neg (by omega), kept]
    simp [isAfter]
  · refine ⟨⟨filedes, ?_, rfl⟩,
      ⟨{ file := filedes.file, flags := 0 }, ?_, rfl⟩, countedAfter,
      fun _ entry isEntry => ?_, fun otherProc other different => ?_⟩
    · rw [filled, FileTables.filedes_setFiledes,
        if_neg fun here => apart here.2, kept]
    · rw [filled, FileTables.filedes_setFiledes, if_pos ⟨rfl, rfl⟩]
    · obtain ⟨last, keeps⟩ := one entry isEntry
      rw [← sameReleased] at last
      refine ⟨last, fun other isOther pointsOther => ?_⟩
      obtain ⟨notReleased, countedOther⟩ := keeps other isOther pointsOther
      refine ⟨sameReleased.trans notReleased, ?_⟩
      by_cases same : entry.file = filedes.file
      · rw [same]
        exact countedAfter
      · exact others _ same countedOther
    · rw [filled, FileTables.filedes_setFiledes, if_neg different, cleared,
        FileTables.filedes_setFiledes, if_neg different]

theorem sysDup2_same (isOpen : tables.descriptor proc oldfd = some filedes) :
    sysDup2 tables proc oldfd oldfd = none := by
  obtain ⟨notNegative, below, inTable⟩ := FileTables.descriptor_eq_some isOpen
  unfold sysDup2
  rw [isOpen]
  rw [if_neg (by omega), inTable, Option.isSome_some, if_pos rfl]
  cases isClosed : sysClose tables proc oldfd with
  | none =>
    rfl
  | some outcome =>
    obtain ⟨closed, result⟩ := outcome
    have cleared := sysClose_clears isOpen isClosed
    have noDescriptor : closed.descriptor proc oldfd = none := by
      rw [FileTables.descriptor, if_neg (by omega), cleared,
        FileTables.filedes_setFiledes, if_pos ⟨rfl, rfl⟩]
    simp [noDescriptor]

theorem sysDup2_undefined (isOpen : tables.descriptor proc oldfd = some filedes)
    (inRange : 0 ≤ newfd ∧ newfd < OPEN_MAX)
    (undefined : ¬ ClosesDefined tables proc newfd.toNat) :
    sysDup2 tables proc oldfd newfd = none := by
  obtain ⟨entry, undefined⟩ := Classical.not_forall.mp undefined
  obtain ⟨file, undefined⟩ := Classical.not_forall.mp undefined
  simp only [Classical.not_imp, Classical.not_not] at undefined
  obtain ⟨isEntry, live, last, isFifo, noPipe⟩ := undefined
  have isTarget : tables.descriptor proc newfd = some entry := by
    rw [FileTables.descriptor, if_neg (by omega), isEntry]
  unfold sysDup2
  rw [isOpen]
  rw [if_neg (by omega), isEntry, Option.isSome_some, if_pos rfl,
    sysClose_undefined isTarget live last isFifo noPipe]
  rfl

end Call

/--
`sys_dup2` makes the new descriptor a copy of the old one exactly if they are
different and the new one is not the last of a named pipe.
-/
theorem sysDup2_done_iff
    {tables : FileTables} {proc : Nat} {oldfd newfd : Int} {filedes : FileDes}
    (sound : DescriptorsSound tables)
    (isOpen : tables.descriptor proc oldfd = some filedes)
    (inRange : 0 ≤ newfd ∧ newfd < OPEN_MAX) :
    (∃ after,
      sysDup2 tables proc oldfd newfd = some (after, .ok newfd.toNat) ∧
        Dup2Done tables after proc oldfd.toNat newfd.toNat filedes) ↔
      oldfd ≠ newfd ∧ ClosesDefined tables proc newfd.toNat := by
  constructor
  · rintro ⟨after, isAfter, -⟩
    refine ⟨?_, Classical.byContradiction fun undefined => ?_⟩
    · rintro rfl
      rw [sysDup2_same isOpen] at isAfter
      cases isAfter
    · rw [sysDup2_undefined isOpen inRange undefined] at isAfter
      cases isAfter
  · rintro ⟨distinct, defined⟩
    exact sysDup2_done sound isOpen inRange distinct defined

/-- Process 1 has one regular file open twice. -/
def openTwice : FileTables :=
  let opened :=
    (sysOpenFile .boot 1 (.ok (⟨0, 5⟩, 0o100644)) (.ok ())).1
  (opened.addRefs 0 1).setFiledes 1 1 (some { file := 0, flags := 0 })

theorem openTwice_sound : DescriptorsSound openTwice := by
  have opened :=
    FilesSound.boot.sysOpenFile 1 (.ok (⟨0, 5⟩, 0o100644)) (.ok ())
      opensRegular_plain
  obtain ⟨after, isAfter, sound, -⟩ :=
    @FilesSound.dup _ 1 1 opened rfl 1 0 { file := 0, flags := 0 } rfl 0
  have isTwice : openTwice = after := Option.some.inj isAfter
  rw [isTwice]
  exact sound.descriptorsSound

theorem openTwice_defined : ClosesDefined openTwice 1 1 := by
  intro filedes file isOpen live last
  cases isOpen
  cases live
  exact absurd last (by decide)

/-- Descriptor 0 is duplicated onto descriptor 1. -/
theorem openTwice_done :
    ∃ after,
      sysDup2 openTwice 1 0 1 = some (after, .ok 1) ∧
        Dup2Done openTwice after 1 0 1 { file := 0, flags := 0 } :=
  (@sysDup2_done_iff openTwice 1 0 1 { file := 0, flags := 0 }
    openTwice_sound rfl (by decide)).mpr ⟨by decide, openTwice_defined⟩

/-- Descriptor 0 is duplicated onto itself. -/
theorem openTwice_not_done :
    DescriptorsSound openTwice ∧
      openTwice.descriptor 1 0 = some { file := 0, flags := 0 } ∧
      ¬ ∃ after,
        sysDup2 openTwice 1 0 0 = some (after, .ok 0) ∧
          Dup2Done openTwice after 1 0 0 { file := 0, flags := 0 } := by
  refine ⟨openTwice_sound, rfl, ?_⟩
  rintro ⟨after, isAfter, -⟩
  cases isAfter

end Idylla.Vfs
