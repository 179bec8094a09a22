import Idylla.Vfs.FileRefs

namespace Idylla.Vfs

open Idylla.Lib

/-!
# The calls keep the counts of open files exact

Each call is a chain of new files, second descriptors and closed descriptors.
The one way to a wrong release is to open a vnode whose type `sys_close` takes
for a pipe or a socket.
-/

namespace FileTables

variable {tables : FileTables}

theorem descriptor_eq_some {proc : Nat} {fd : Int} {filedes : FileDes}
    (isOpen : tables.descriptor proc fd = some filedes) :
    0 ≤ fd ∧ fd < OPEN_MAX ∧ tables.filedes proc fd.toNat = some filedes := by
  unfold descriptor at isOpen
  split at isOpen
  · cases isOpen
  · exact ⟨by omega, by omega, isOpen⟩

theorem freeDescriptor_free {proc start fd : Nat}
    (found : tables.freeDescriptor proc start = some fd) :
    tables.filedes proc fd = none := by
  have isFree := List.find?_some found
  simpa using isFree

end FileTables

/-- `sys_open` gets a vnode that is neither a pipe nor a socket. -/
def FileCall.OpensPlain (call : FileCall) : Prop :=
  ∀ proc vnode mode device, call = .opens proc (.ok (vnode, mode)) device →
    mode &&& S_IFMT ≠ S_IFIFO ∧ mode &&& S_IFMT ≠ S_IFSOCK

namespace FilesSound

variable {tables : FileTables}

variable (sound : FilesSound tables)

include sound

theorem allocFree (file : OpenFile) :
    FilesSound ((tables.allocFile file).freeFile tables.files.next) := by
  refine sound.congr ?_ rfl rfl rfl (Nat.le_succ _)
  intro pointer
  simp only [FileTables.freeFile, FileTables.allocFile, Heap.free, Heap.alloc]
  split
  next isNew =>
    rw [isNew]
    exact (tables.files.unallocated _ (Nat.le_refl _)).symm
  next => rfl

theorem sysOpenFile (proc : Nat) (target : Except Errno (Vnode × Nat))
    (device : Except Errno Unit)
    (plain : (FileCall.opens proc target device).OpensPlain) :
    FilesSound (Vfs.sysOpenFile tables proc target device).1 := by
  cases target with
  | error errno =>
    exact sound
  | ok opened =>
    obtain ⟨vnode, mode⟩ := opened
    obtain ⟨notFifo, notSocket⟩ := plain proc vnode mode device rfl
    unfold Vfs.sysOpenFile
    dsimp only
    split
    next => exact sound.allocFree _
    next fd isFree =>
      split
      next => exact sound.allocFree _
      next =>
        have free := FileTables.freeDescriptor_free isFree
        refine sound.install free rfl ⟨notSocket, ?_⟩ (fun _ => rfl) rfl
          rfl rfl (Nat.lt_succ_self _)
        rw [if_neg notFifo]
        simp

theorem sysClose_open {proc : Nat} {fd : Int} {filedes : FileDes}
    (isOpen : tables.descriptor proc fd = some filedes) :
    ∃ after,
      sysClose tables proc fd = some (after, .ok ()) ∧ FilesSound after ∧
        after.filedes = (tables.setFiledes proc fd.toNat none).filedes ∧
        ((∀ slot, tables.PointsTo filedes.file slot → slot = (proc, fd.toNat)) →
          after.released = tables.released ++ [filedes.file]) := by
  obtain ⟨-, -, inTable⟩ := FileTables.descriptor_eq_some isOpen
  have points : tables.PointsTo filedes.file (proc, fd.toNat) :=
    ⟨filedes, inTable, rfl⟩
  obtain ⟨file, live, notSocket, releasable⟩ := sound.live _ _ points
  have cells := @FileTables.cells_addRefs
    (tables.setFiledes proc fd.toNat none) file filedes.file live (-1)
  have others (pointer : Nat) (different : pointer ≠ filedes.file) :=
    (cells pointer).trans (if_neg different)
  unfold sysClose
  rw [isOpen]
  dsimp only
  rw [live]
  dsimp only
  by_cases last : file.refs - 1 = 0
  · rw [if_pos last, if_neg notSocket]
    by_cases isFifo : file.type = S_IFIFO
    · rw [if_pos isFifo] at releasable ⊢
      obtain ⟨pipe, isPipe⟩ := Option.ne_none_iff_exists'.mp releasable
      rw [isPipe]
      refine ⟨_, rfl, ?_, rfl, fun _ => rfl⟩
      refine sound.closeLast inTable live last ?_ others rfl rfl rfl rfl
      intro cell isCell
      have cellNow := (cells filedes.file).symm.trans isCell
      rw [if_pos rfl] at cellNow
      rw [← Option.some.inj cellNow]
      show file.refs + -1 = 0
      omega
    · rw [if_neg isFifo] at releasable ⊢
      obtain ⟨vnode, isVnode⟩ := Option.ne_none_iff_exists'.mp releasable
      rw [isVnode]
      refine ⟨_, rfl, ?_, rfl, fun _ => rfl⟩
      refine sound.closeLast inTable live last ?_ ?_ rfl rfl rfl rfl
      · intro cell isCell
        exact absurd (Heap.cells_free_same.symm.trans isCell) (by simp)
      · intro pointer different
        exact (Heap.cells_free_of_ne different).trans (others pointer different)
  · rw [if_neg last]
    refine ⟨_, rfl, ?_, rfl, ?_⟩
    · exact sound.closeKept inTable live last cells rfl rfl rfl rfl
    · intro only
      obtain ⟨count, counted, isRefs⟩ := sound.counted _ file live
      obtain ⟨fewer, rfl⟩ : ∃ fewer, count = fewer + 1 :=
        ⟨count - 1, by have := counted.pos points; omega⟩
      have nobody : HasCount (fun _ : Nat × Nat => False) fewer := by
        refine counted.erase points fun slot => ⟨False.elim, ?_⟩
        exact fun ⟨different, old⟩ => different (only slot old)
      have isZero := nobody.unique (hasCount_zero_iff.mpr fun _ h => h)
      omega

theorem sysClose (proc : Nat) (fd : Int) :
    ∃ after result,
      Vfs.sysClose tables proc fd = some (after, result) ∧
        FilesSound after := by
  cases isOpen : tables.descriptor proc fd with
  | none =>
    exact ⟨tables, .error .EBADF, by rw [Vfs.sysClose, isOpen], sound⟩
  | some filedes =>
    obtain ⟨after, isAfter, soundAfter, -⟩ := sound.sysClose_open isOpen
    exact ⟨after, _, isAfter, soundAfter⟩

theorem doSysDup (proc : Nat) (fd : Int) (start : Nat) :
    ∃ after result,
      Vfs.doSysDup tables proc fd start = some (after, result) ∧
        FilesSound after := by
  unfold Vfs.doSysDup
  cases isOpen : tables.descriptor proc fd with
  | none =>
    exact ⟨tables, _, rfl, sound⟩
  | some filedes =>
    cases isFree : tables.freeDescriptor proc start with
    | none =>
      exact ⟨tables, .error .EMFILE, by simp, sound⟩
    | some other =>
      obtain ⟨-, -, inTable⟩ := FileTables.descriptor_eq_some isOpen
      obtain ⟨after, isAfter, soundAfter, -⟩ :=
        sound.dup (FileTables.freeDescriptor_free isFree) inTable 0
      exact ⟨after, .ok other, by simp [isAfter], soundAfter⟩

/-- `sys_dup2` of different descriptors returns and keeps the counts. -/
theorem sysDup2 (proc : Nat) {oldfd newfd : Int} (distinct : oldfd ≠ newfd) :
    ∃ after result,
      Vfs.sysDup2 tables proc oldfd newfd = some (after, result) ∧
        FilesSound after := by
  unfold Vfs.sysDup2
  cases isOpen : tables.descriptor proc oldfd with
  | none =>
    exact ⟨tables, _, rfl, sound⟩
  | some filedes =>
    obtain ⟨notNegative, below, inTable⟩ := FileTables.descriptor_eq_some isOpen
    dsimp only
    split
    next => exact ⟨tables, _, rfl, sound⟩
    next inRange =>
      -- `newfd` has been closed where it was open; `oldfd` is untouched.
      have closes : ∃ closed,
            (if (tables.filedes proc newfd.toNat).isSome then
              (Vfs.sysClose tables proc newfd).map Prod.fst
            else some tables) = some closed ∧ FilesSound closed ∧
              closed.filedes proc newfd.toNat = none ∧
              closed.filedes proc oldfd.toNat = some filedes := by
        cases target : tables.filedes proc newfd.toNat with
        | none =>
          exact ⟨tables, rfl, sound, target, inTable⟩
        | some old =>
          have isTarget : tables.descriptor proc newfd = some old := by
            rw [FileTables.descriptor, if_neg inRange, target]
          obtain ⟨closed, isClosed, soundClosed, filedesClosed, -⟩ :=
            sound.sysClose_open isTarget
          refine ⟨closed, by simp [isClosed], soundClosed, ?_, ?_⟩
          · rw [filedesClosed, FileTables.filedes_setFiledes, if_pos ⟨rfl, rfl⟩]
          · rw [filedesClosed, FileTables.filedes_setFiledes,
              if_neg (by omega), inTable]
      obtain ⟨closed, isClosed, soundClosed, isFree, kept⟩ := closes
      obtain ⟨after, isAfter, soundAfter, -⟩ := soundClosed.dup isFree kept 0
      refine ⟨after, .ok newfd.toNat, ?_, soundAfter⟩
      rw [isClosed, Option.bind_some, FileTables.descriptor,
        if_neg (by omega), kept]
      simp [isAfter]

theorem sysPipe (proc : Nat) : FilesSound (Vfs.sysPipe tables proc).1 := by
  have fdrFree := tables.files.unallocated tables.files.next (by omega)
  have fdwFree := tables.files.unallocated (tables.files.next + 1) (by omega)
  -- What the two frees of the error path leave of the files.
  have freed (pointer : Nat) :
      (((((tables.files.alloc (pipeEnd tables.pipes.next)).alloc
        (pipeEnd tables.pipes.next)).free tables.files.next).free
          (tables.files.next + 1)).cells pointer) =
        tables.files.cells pointer := by
    show (if pointer = tables.files.next + 1 then none else
      if pointer = tables.files.next then none else
      if pointer = tables.files.next + 1 then _ else
      if pointer = tables.files.next then _ else _) = _
    by_cases isFdw : pointer = tables.files.next + 1
    · rw [if_pos isFdw, isFdw, fdwFree]
    · rw [if_neg isFdw]
      by_cases isFdr : pointer = tables.files.next
      · rw [if_pos isFdr, isFdr, fdrFree]
      · rw [if_neg isFdr, if_neg isFdw, if_neg isFdr]
  have further : tables.files.next ≤ tables.files.next + 1 + 1 := by omega
  have releasable : (pipeEnd tables.pipes.next).Releasable :=
    ⟨(by decide : S_IFIFO ≠ S_IFSOCK), by simp [pipeEnd]⟩
  unfold Vfs.sysPipe
  dsimp only
  split
  next => exact sound.congr freed rfl rfl rfl further
  next first isFirst =>
    have firstFree : tables.filedes proc first = none :=
      FileTables.freeDescriptor_free isFirst
    split
    next =>
      refine sound.congr freed ?_ rfl rfl further
      funext otherProc other
      show (if otherProc = proc ∧ other = first then none else
        if otherProc = proc ∧ other = first then _ else _) = _
      by_cases here : otherProc = proc ∧ other = first
      · rw [if_pos here, here.1, here.2, firstFree]
      · rw [if_neg here, if_neg here]
        rfl
    next second isSecond =>
      have secondFree := FileTables.freeDescriptor_free isSecond
      let reading : FileTables :=
        { tables with
          files := tables.files.alloc (pipeEnd tables.pipes.next)
          filedes :=
            (tables.setFiledes proc first
              (some { file := tables.files.next, flags := 0 })).filedes
          opened := tables.opened ++ [tables.files.next] }
      have soundReading : FilesSound reading :=
        sound.install firstFree rfl releasable (fun _ => rfl) rfl rfl rfl
          (Nat.lt_succ_self _)
      exact soundReading.install secondFree rfl releasable
        (fun _ => rfl) rfl rfl rfl (Nat.lt_succ_self _)

theorem closeDescriptors (proc count : Nat) :
    ∃ after,
      Vfs.closeDescriptors tables proc count = some after ∧
        FilesSound after := by
  induction count with
  | zero =>
    exact ⟨tables, rfl, sound⟩
  | succ fd ih =>
    obtain ⟨before, isBefore, soundBefore⟩ := ih
    rw [Vfs.closeDescriptors, isBefore, Option.bind_some]
    split
    next =>
      obtain ⟨after, result, isAfter, soundAfter⟩ :=
        soundBefore.sysClose proc fd
      exact ⟨after, by rw [isAfter]; rfl, soundAfter⟩
    next => exact ⟨before, rfl, soundBefore⟩

theorem cloneDescriptors {child : Nat}
    (zeroed : ∀ fd, tables.filedes child fd = none) (parent count : Nat) :
    ∃ after,
      Vfs.cloneDescriptors tables child parent count = some after ∧
        FilesSound after ∧
        ∀ fd, count ≤ fd → after.filedes child fd = none := by
  induction count with
  | zero =>
    exact ⟨tables, rfl, sound, fun fd _ => zeroed fd⟩
  | succ fd ih =>
    obtain ⟨before, isBefore, soundBefore, zeroedBefore⟩ := ih
    rw [Vfs.cloneDescriptors, isBefore, Option.bind_some]
    cases isOpen : before.filedes parent fd with
    | none =>
      exact ⟨before, rfl, soundBefore,
        fun other above => zeroedBefore other (by omega)⟩
    | some filedes =>
      obtain ⟨after, isAfter, soundAfter, filedesAfter⟩ :=
        soundBefore.dup (zeroedBefore fd (Nat.le_refl _)) isOpen filedes.flags
      refine ⟨after, isAfter, soundAfter, ?_⟩
      intro other above
      rw [filedesAfter, FileTables.filedes_setFiledes, if_neg (by omega)]
      exact zeroedBefore other (by omega)

end FilesSound

theorem FilesSound.run {tables : FileTables}
    (sound : FilesSound tables) (call : FileCall)
    (promised : call.Promised tables) (plain : call.OpensPlain) :
    ∃ after, call.run tables = some after ∧ FilesSound after := by
  have returns {Result : Type} {outcome : Option (FileTables × Result)}
      (isSound :
        ∃ after result, outcome = some (after, result) ∧ FilesSound after) :
      ∃ after, outcome.map Prod.fst = some after ∧ FilesSound after := by
    obtain ⟨after, result, isAfter, soundAfter⟩ := isSound
    exact ⟨after, by rw [isAfter]; rfl, soundAfter⟩
  cases call with
  | opens proc target device =>
    exact ⟨_, rfl, sound.sysOpenFile proc target device plain⟩
  | close proc fd =>
    exact returns (sound.sysClose proc fd)
  | dup proc fd =>
    exact returns (sound.doSysDup proc fd 0)
  | dupfd proc fd start =>
    refine returns ?_
    unfold sysFcntlDupfd
    cases tables.descriptor proc fd with
    | none =>
      exact ⟨tables, _, rfl, sound⟩
    | some filedes =>
      exact sound.doSysDup proc fd start
  | dup2 proc oldfd newfd =>
    exact returns (sound.sysDup2 proc (promised.2 proc oldfd newfd rfl))
  | pipe proc =>
    exact ⟨_, rfl, sound.sysPipe proc⟩
  | clone child parent =>
    obtain ⟨after, isAfter, soundAfter, -⟩ :=
      sound.cloneDescriptors (promised.1 child parent rfl) parent OPEN_MAX
    exact ⟨after, isAfter, soundAfter⟩
  | free proc =>
    exact sound.closeDescriptors proc OPEN_MAX

theorem FilesSound.boot : FilesSound .boot := by
  have nobody (pointer : Nat) (slot : Nat × Nat) :
      ¬ FileTables.boot.PointsTo pointer slot := by
    rintro ⟨filedes, isOpen, -⟩
    cases isOpen
  refine ⟨?_, ?_, ?_, ?_, ?_, ?_, ?_⟩
  · intro pointer file live
    cases live
  · exact fun pointer slot points => absurd points (nobody pointer slot)
  · exact fun pointer slot points => absurd points (nobody pointer slot)
  · exact fun pointer isOpened => absurd isOpened List.not_mem_nil
  · exact fun pointer slot points => absurd points (nobody pointer slot)
  · exact fun pointer isReleased => absurd isReleased List.not_mem_nil
  · exact fun pointer isOpened => absurd isOpened List.not_mem_nil

/--
The counts of the files are exact, no descriptor dangles, and what is open
from a file is released exactly once, when its last descriptor is closed.
-/
structure FilesExact (tables : FileTables) : Prop where
  counted : ∀ pointer file, tables.files.cells pointer = some file →
      ∃ count : Nat,
        HasCount (tables.PointsTo pointer) count ∧ file.refs = count
  live : ∀ pointer slot, tables.PointsTo pointer slot →
      tables.files.cells pointer ≠ none
  unreleased : ∀ pointer slot, tables.PointsTo pointer slot →
      tables.released.count pointer = 0
  once : ∀ pointer ∈ tables.opened, (∀ slot, ¬ tables.PointsTo pointer slot) →
      tables.released.count pointer = 1
  atLastClose : ∀ proc fd filedes, tables.descriptor proc fd = some filedes →
      (∀ slot, tables.PointsTo filedes.file slot → slot = (proc, fd.toNat)) →
      ∃ after,
        sysClose tables proc fd = some (after, .ok ()) ∧
          after.released = tables.released ++ [filedes.file]

theorem FilesSound.exact {tables : FileTables} (sound : FilesSound tables) :
    FilesExact tables := by
  refine ⟨sound.counted, ?_, ?_, sound.once, ?_⟩
  · intro pointer slot points
    obtain ⟨file, live, -⟩ := sound.live pointer slot points
    rw [live]
    exact Option.some_ne_none file
  · intro pointer slot points
    exact List.count_eq_zero.mpr (sound.unreleased pointer slot points)
  · intro proc fd filedes isOpen only
    obtain ⟨after, isAfter, -, -, releases⟩ := sound.sysClose_open isOpen
    exact ⟨after, isAfter, releases only⟩

/--
In every run that opens neither pipes nor sockets by a path the counts are
exact, and every call that keeps its callers' promises returns.
-/
theorem files_exact {calls : List FileCall} {tables : FileTables}
    (run :
      Run (Guarded (fun _ call => call.OpensPlain) FileStep) .boot calls
        tables) :
    FilesExact tables ∧
      ∀ call : FileCall, call.Promised tables → call.OpensPlain →
        ∃ after, FileStep tables call after := by
  have sound : FilesSound tables := by
    refine Run.invariant (fun _ tables => FilesSound tables) .boot ?_ run
    rintro past source call target soundSource ⟨plain, promised, isTarget⟩
    obtain ⟨after, isAfter, soundAfter⟩ := soundSource.run call promised plain
    obtain rfl := Option.some.inj (isTarget.symm.trans isAfter)
    exact soundAfter
  refine ⟨sound.exact, fun call promised plain => ?_⟩
  obtain ⟨after, isAfter, -⟩ := sound.run call promised plain
  exact ⟨after, promised, isAfter⟩

/-- Process 1 opens a vnode of this mode. -/
def opensMode (mode : Nat) : FileCall :=
  .opens 1 (.ok (⟨0, 5⟩, mode)) (.ok ())

theorem opensMode_promised (mode : Nat) (tables : FileTables) :
    (opensMode mode).Promised tables := by
  constructor
  · intro child parent isClone
    cases isClone
  · intro proc oldfd newfd isDup2
    cases isDup2

theorem opensRegular_plain : (opensMode 0o100644).OpensPlain := by
  rintro proc vnode mode device isOpens
  cases isOpens
  exact ⟨by decide, by decide⟩

/-- A regular file that is open is counted exactly. -/
theorem files_exact_regular :
    FilesExact (sysOpenFile .boot 1 (.ok (⟨0, 5⟩, 0o100644)) (.ok ())).1 :=
  (files_exact (.single ⟨opensRegular_plain,
    opensMode_promised 0o100644 .boot, rfl⟩)).1

/-- A named pipe is opened, and closing it takes its vnode for a pipe end. -/
theorem files_not_exact :
    ¬ ∀ calls tables, Run FileStep .boot calls tables → FilesExact tables := by
  intro always
  have exact := always _ _ (.single ⟨opensMode_promised 0o010644 .boot, rfl⟩)
  obtain ⟨after, isAfter, -⟩ :=
    exact.atLastClose 1 0 { file := 0, flags := 0 } (by rfl) (by
      rintro ⟨proc, fd⟩ ⟨filedes, isOpen, -⟩
      have isOpen :
          (if proc = 1 ∧ fd = 0 then some { file := 0, flags := 0 }
            else none) = some filedes := isOpen
      split at isOpen
      next here =>
        rw [here.1, here.2]
        rfl
      next => cases isOpen)
  cases isAfter

end Idylla.Vfs
