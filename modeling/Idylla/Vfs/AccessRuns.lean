import Idylla.Vfs.OpenAccess

namespace Idylla.Vfs

open Idylla.Lib

/-!
# Access in runs of calls

`dup`, `dup2`, `F_DUPFD`, a fork and a close leave every descriptor with a
file that descriptors have led to before, so that what `sys_open` has checked
holds for all of them.
-/

/-- Descriptors lead to files that descriptors have led to before. -/
structure FileTables.Copies (before after : FileTables) : Prop where
  next : before.files.next ≤ after.files.next
  points :
    ∀ file slot, after.PointsTo file slot → ∃ old, before.PointsTo file old

namespace FileTables.Copies

variable {tables middle after : FileTables}

theorem refl (tables : FileTables) : tables.Copies tables :=
  ⟨Nat.le_refl _, fun _ slot points => ⟨slot, points⟩⟩

theorem trans (first : tables.Copies middle) (second : middle.Copies after) :
    tables.Copies after := by
  refine ⟨Nat.le_trans first.next second.next, fun file slot points => ?_⟩
  obtain ⟨old, pointed⟩ := second.points file slot points
  exact first.points file old pointed

theorem congr (next : tables.files.next ≤ after.files.next)
    (same : after.filedes = tables.filedes) : tables.Copies after :=
  ⟨next, fun file slot points =>
    ⟨slot, (FileTables.pointsTo_congr same file slot).mp points⟩⟩

theorem clear (tables : FileTables) (proc fd : Nat) :
    tables.Copies (tables.setFiledes proc fd none) :=
  ⟨Nat.le_refl _, fun file slot points =>
    ⟨slot, ((FileTables.pointsTo_clear file slot).mp points).2⟩⟩

theorem pointsTo_set {proc fd file : Nat} {filedes : FileDes} {slot : Nat × Nat}
    (points : (tables.setFiledes proc fd (some filedes)).PointsTo file slot) :
    filedes.file = file ∨ tables.PointsTo file slot := by
  obtain ⟨entry, isEntry, rfl⟩ := points
  rw [FileTables.filedes_setFiledes] at isEntry
  split at isEntry
  · cases isEntry
    exact .inl rfl
  · exact .inr ⟨entry, isEntry, rfl⟩

theorem dup {filedes : FileDes} {proc fd flags : Nat} {slot : Nat × Nat}
    (points : tables.PointsTo filedes.file slot)
    (isAfter : tables.dup filedes proc fd flags = some after) :
    tables.Copies after := by
  unfold FileTables.dup at isAfter
  split at isAfter
  · cases isAfter
  · cases isAfter
    refine ⟨Nat.le_refl _, fun file other pointsAfter => ?_⟩
    rcases pointsTo_set pointsAfter with rfl | pointed
    · exact ⟨slot, points⟩
    · exact ⟨other, pointed⟩

variable {proc : Nat}

theorem sysClose {fd : Int} {result : Except Errno Unit}
    (isAfter : Vfs.sysClose tables proc fd = some (after, result)) :
    tables.Copies after := by
  unfold Vfs.sysClose at isAfter
  split at isAfter
  · cases isAfter
    exact .refl tables
  next filedes isOpen =>
    have cleared (next : FileTables)
        (sameNext : next.files.next = tables.files.next)
        (same : next.filedes = (tables.setFiledes proc fd.toNat none).filedes) :
        tables.Copies next :=
      (clear tables proc fd.toNat).trans
        (.congr (Nat.le_of_eq sameNext.symm) same)
    split at isAfter
    · cases isAfter
    · split at isAfter
      · split at isAfter
        · cases isAfter
        · split at isAfter
          · split at isAfter
            · cases isAfter
            · cases isAfter
              exact cleared _ rfl rfl
          · split at isAfter
            · cases isAfter
              exact cleared _ rfl rfl
            · cases isAfter
              exact cleared _ rfl rfl
      · cases isAfter
        exact cleared _ rfl rfl

theorem pointsTo_of_descriptor {fd : Int} {filedes : FileDes}
    (isOpen : tables.descriptor proc fd = some filedes) :
    tables.PointsTo filedes.file (proc, fd.toNat) :=
  ⟨filedes, (FileTables.descriptor_eq_some isOpen).2.2, rfl⟩

theorem doSysDup {proc start : Nat} {fd : Int} {result : Except Errno Nat}
    (isAfter : Vfs.doSysDup tables proc fd start = some (after, result)) :
    tables.Copies after := by
  unfold Vfs.doSysDup at isAfter
  split at isAfter
  · cases isAfter
    exact .refl tables
  next filedes isOpen =>
    split at isAfter
    · cases isAfter
      exact .refl tables
    next other isFree =>
      obtain ⟨copied, isCopied, isSame⟩ := Option.map_eq_some_iff.mp isAfter
      cases isSame
      exact .dup (pointsTo_of_descriptor isOpen) isCopied

theorem sysDup2 {oldfd newfd : Int} {result : Except Errno Nat}
    (isAfter : Vfs.sysDup2 tables proc oldfd newfd = some (after, result)) :
    tables.Copies after := by
  unfold Vfs.sysDup2 at isAfter
  split at isAfter
  · cases isAfter
    exact .refl tables
  · split at isAfter
    · cases isAfter
      exact .refl tables
    · obtain ⟨closed, isClosed, isRest⟩ := Option.bind_eq_some_iff.mp isAfter
      have closes : tables.Copies closed := by
        split at isClosed
        · obtain ⟨⟨ended, result⟩, isEnded, rfl⟩ :=
            Option.map_eq_some_iff.mp isClosed
          exact .sysClose isEnded
        · cases isClosed
          exact .refl tables
      split at isRest
      · cases isRest
      next filedes isOpen =>
        obtain ⟨copied, isCopied, isSame⟩ := Option.map_eq_some_iff.mp isRest
        cases isSame
        exact closes.trans (.dup (pointsTo_of_descriptor isOpen) isCopied)

theorem closeDescriptors {proc count : Nat}
    (isAfter : Vfs.closeDescriptors tables proc count = some after) :
    tables.Copies after := by
  induction count generalizing after with
  | zero =>
    cases isAfter
    exact .refl tables
  | succ fd ih =>
    obtain ⟨before, isBefore, isRest⟩ := Option.bind_eq_some_iff.mp isAfter
    refine (ih isBefore).trans ?_
    split at isRest
    · obtain ⟨⟨ended, result⟩, isEnded, rfl⟩ := Option.map_eq_some_iff.mp isRest
      exact .sysClose isEnded
    · cases isRest
      exact .refl _

theorem cloneDescriptors {child parent count : Nat}
    (isAfter : Vfs.cloneDescriptors tables child parent count = some after) :
    tables.Copies after := by
  induction count generalizing after with
  | zero =>
    cases isAfter
    exact .refl tables
  | succ fd ih =>
    obtain ⟨before, isBefore, isRest⟩ := Option.bind_eq_some_iff.mp isAfter
    refine (ih isBefore).trans ?_
    split at isRest
    · cases isRest
      exact .refl _
    next filedes isOpen =>
      have points : before.PointsTo filedes.file (parent, fd) :=
        ⟨filedes, isOpen, rfl⟩
      exact .dup points isRest

end FileTables.Copies

/-- What every call keeps true of the files and of what has made them. -/
structure AccessSound (state : AccessState) : Prop where
  known : ∀ file slot, state.tables.PointsTo file slot →
      ∃ opening, state.opening file = some opening
  allocated : ∀ file opening, state.opening file = some opening →
      file < state.tables.files.next
  requests : ∀ file request, state.opening file = some (.open request) →
      state.mode file = request.flags ∧ request.Permitted

namespace AccessSound

variable {state after : AccessState} {tables : FileTables}

theorem copies (sound : AccessSound state)
    (copies : state.tables.Copies tables) :
    AccessSound { state with tables := tables } where
  known := by
    intro file slot points
    obtain ⟨old, pointed⟩ := copies.points file slot points
    exact sound.known file old pointed
  allocated := fun file opening isOpening =>
    Nat.lt_of_lt_of_le (sound.allocated file opening isOpening) copies.next
  requests := sound.requests

/-- A new file is filled in; descriptors lead to it and to earlier ones. -/
theorem note (sound : AccessSound state) {file mode : Nat} {opening : Opening}
    (isNew : state.tables.files.next ≤ file)
    (requests :
      ∀ request, opening = .open request →
        mode = request.flags ∧ request.Permitted)
    (next : file < tables.files.next)
    (points :
      ∀ other slot, tables.PointsTo other slot →
        other = file ∨ ∃ opening, state.opening other = some opening) :
    AccessSound { state.note file mode opening with tables := tables } := by
  constructor
  · intro other slot pointsTo
    show ∃ opening, (if other = file then _ else _) = some opening
    by_cases same : other = file
    · exact ⟨opening, if_pos same⟩
    · rw [if_neg same]
      exact (points other slot pointsTo).resolve_left same
  · intro other isOther isOpening
    have isOpening :
        (if other = file then some opening else state.opening other) =
          some isOther :=
      isOpening
    split at isOpening
    next same => exact same ▸ next
    next =>
      have before := sound.allocated other isOther isOpening
      show other < tables.files.next
      omega
  · intro other request isOpening
    have isOpening :
        (if other = file then some opening else state.opening other) =
          some (.open request) :=
      isOpening
    show (if other = file then mode else state.mode other) = _ ∧ _
    split at isOpening
    next same =>
      rw [if_pos same]
      exact requests request (Option.some.inj isOpening)
    next differs =>
      rw [if_neg differs]
      exact sound.requests other request isOpening

theorem sysOpen (sound : AccessSound state)
    {proc : Nat} {request : OpenRequest} {device : Except Errno Unit}
    {result : Except Errno Nat} (fair : request.Fair)
    (isAfter : state.sysOpen proc request device = some (after, result)) :
    AccessSound after := by
  obtain ⟨target, isTarget, opened⟩ := Option.map_eq_some_iff.mp isAfter
  cases target with
  | error err =>
    cases opened
    exact sound
  | ok pair =>
    cases opened
    have permitted := fair.permitted isTarget
    refine sound.note (Nat.le_refl _) ?_ ?_ ?_
    · intro other isOther
      cases isOther
      exact ⟨rfl, permitted⟩
    · unfold sysOpenFile
      dsimp only
      split
      · exact Nat.lt_succ_self _
      · split
        · exact Nat.lt_succ_self _
        · exact Nat.lt_succ_self _
    · intro file slot points
      unfold sysOpenFile at points
      dsimp only at points
      split at points
      · exact .inr (sound.known file slot points)
      · split at points
        · exact .inr (sound.known file slot points)
        · rcases FileTables.Copies.pointsTo_set points with isNew | pointed
          · exact .inl isNew.symm
          · exact .inr (sound.known file slot pointed)

theorem sysPipe (sound : AccessSound state) (proc : Nat) :
    AccessSound (state.sysPipe proc) := by
  have noRequest (request : OpenRequest) : Opening.pipe ≠ .open request := by
    rintro ⟨⟩
  have first : AccessSound
        { state.note state.tables.files.next 0 .pipe with
          tables :=
            state.tables.allocFile (pipeEnd state.tables.pipes.next) } := by
    refine sound.note (Nat.le_refl _)
      (fun request isPipe => absurd isPipe (noRequest request))
      (Nat.lt_succ_self _) fun other slot points => .inr ?_
    exact sound.known other slot points
  refine first.note (Nat.le_refl _)
    (fun request isPipe => absurd isPipe (noRequest request)) ?_ ?_
  · unfold Vfs.sysPipe
    dsimp only
    split
    · exact Nat.lt_succ_self _
    · split
      · exact Nat.lt_succ_self _
      · exact Nat.lt_succ_self _
  · have known {file : Nat} {slot : Nat × Nat}
        (points : state.tables.PointsTo file slot) :
        ∃ opening,
          (state.note state.tables.files.next 0 .pipe).opening file =
            some opening := by
      obtain ⟨opening, isOpening⟩ := sound.known file slot points
      have before := sound.allocated file opening isOpening
      exact ⟨opening, (if_neg (Nat.ne_of_lt before)).trans isOpening⟩
    have isReading : (state.note state.tables.files.next 0 .pipe).opening
            state.tables.files.next = some .pipe :=
      if_pos rfl
    intro file slot points
    unfold Vfs.sysPipe at points
    dsimp only at points
    split at points
    · exact .inr (known points)
    · split at points
      · obtain ⟨-, placed⟩ := (FileTables.pointsTo_clear file slot).mp points
        rcases FileTables.Copies.pointsTo_set placed with rfl | pointed
        · exact .inr ⟨_, isReading⟩
        · exact .inr (known pointed)
      · rcases FileTables.Copies.pointsTo_set points with isWriting | placed
        · exact .inl isWriting.symm
        · rcases FileTables.Copies.pointsTo_set placed with rfl | pointed
          · exact .inr ⟨_, isReading⟩
          · exact .inr (known pointed)

/-- A call by the class rule. -/
theorem step (sound : AccessSound state) {call : AccessCall} (fair : call.Fair)
    (called : AccessStep state call after) : AccessSound after := by
  have copied {file : FileCall}
      (isAfter : AccessCall.run.copied state file = some after)
      (copies :
        ∀ tables, file.run state.tables = some tables →
          state.tables.Copies tables) :
      AccessSound after := by
    obtain ⟨tables, isTables, rfl⟩ := Option.map_eq_some_iff.mp isAfter
    exact sound.copies (copies tables isTables)
  cases call with
  | opens proc request device =>
    obtain ⟨⟨ended, result⟩, isEnded, rfl⟩ := Option.map_eq_some_iff.mp called
    exact sound.sysOpen fair isEnded
  | pipe proc =>
    cases called
    exact sound.sysPipe proc
  | close proc fd =>
    refine copied called fun tables isTables => ?_
    obtain ⟨⟨ended, result⟩, isEnded, rfl⟩ := Option.map_eq_some_iff.mp isTables
    exact .sysClose isEnded
  | dup proc fd =>
    refine copied called fun tables isTables => ?_
    obtain ⟨⟨ended, result⟩, isEnded, rfl⟩ := Option.map_eq_some_iff.mp isTables
    exact .doSysDup isEnded
  | dupfd proc fd start =>
    refine copied called fun tables isTables => ?_
    obtain ⟨⟨ended, result⟩, isEnded, rfl⟩ := Option.map_eq_some_iff.mp isTables
    unfold sysFcntlDupfd at isEnded
    split at isEnded
    · cases isEnded
      exact .refl _
    · exact .doSysDup isEnded
  | dup2 proc oldfd newfd =>
    refine copied called fun tables isTables => ?_
    obtain ⟨⟨ended, result⟩, isEnded, rfl⟩ := Option.map_eq_some_iff.mp isTables
    exact .sysDup2 isEnded
  | clone child parent =>
    exact copied called fun tables isTables => .cloneDescriptors isTables
  | free proc =>
    exact copied called fun tables isTables => .closeDescriptors isTables

theorem boot : AccessSound .boot where
  known := by
    rintro file slot ⟨filedes, isOpen, -⟩
    cases isOpen
  allocated := by
    intro file opening isOpening
    cases isOpening
  requests := by
    intro file request isOpening
    cases isOpening

end AccessSound

section Transfers

variable {filedes : Nat → Option WritableFile} {fd : Nat}

theorem sysRead_reaches {reads : Nat → Bool}
    (reaches : (sysRead reads filedes fd).Reaches) :
    ∃ file, filedes fd = some file ∧ (file.mode + 1) &&& _FREAD = _FREAD := by
  unfold sysRead at reaches
  split at reaches
  · cases reaches
  · split at reaches
    · cases reaches
    next file isFile =>
      split at reaches
      · cases reaches
      next mode => exact ⟨file, isFile, Classical.not_not.mp mode⟩

theorem sysWrite_reaches {fs : Filesystems} {process : Process} {len : Nat}
    (reaches : (sysWrite fs ⟨process, filedes⟩ fd len).Reaches) :
    ∃ file, filedes fd = some file ∧ (file.mode + 1) &&& _FWRITE = _FWRITE := by
  unfold sysWrite at reaches
  split at reaches
  · cases reaches
  · split at reaches
    · cases reaches
    next file isFile =>
      split at reaches
      · cases reaches
      next mode => exact ⟨file, isFile, Classical.not_not.mp mode⟩

theorem AccessState.mode_filesOf
    {state : AccessState} {pos : Nat → Int} {proc : Nat} {filedes : FileDes}
    {file : WritableFile} (isOpen : state.tables.filedes proc fd = some filedes)
    (isFile : state.filesOf pos proc fd = some file) :
    file.mode = state.mode filedes.file := by
  unfold filesOf at isFile
  rw [isOpen, Option.bind_some] at isFile
  obtain ⟨cell, -, rfl⟩ := Option.map_eq_some_iff.mp isFile
  rfl

end Transfers

theorem AccessSound.followsClass {state : AccessState}
    (sound : AccessSound state) : state.FollowsClass := by
  intro proc fd filedes isOpen
  obtain ⟨opening, isOpening⟩ :=
    sound.known filedes.file (proc, fd) ⟨filedes, isOpen, rfl⟩
  cases opening with
  | pipe =>
    exact .inl isOpening
  | «open» request =>
    obtain ⟨isMode, permitted⟩ := sound.requests filedes.file request isOpening
    refine .inr ⟨request, isOpening, permitted, ?_, ?_⟩
    · intro reads pos reaches
      obtain ⟨file, isFile, mode⟩ := sysRead_reaches reaches
      rw [AccessState.mode_filesOf isOpen isFile, isMode] at mode
      rw [mode]
      decide
    · intro fs process pos len reaches
      obtain ⟨file, isFile, mode⟩ := sysWrite_reaches reaches
      rw [AccessState.mode_filesOf isOpen isFile, isMode] at mode
      rw [mode]
      decide

theorem AccessState.sysOpen_opening
    {state after : AccessState} {proc fd : Nat} {request : OpenRequest}
    {device : Except Errno Unit}
    (isOpen : state.sysOpen proc request device = some (after, .ok fd)) :
    ∃ filedes, after.tables.filedes proc fd = some filedes ∧
      after.opening filedes.file = some (.open request) := by
  obtain ⟨target, -, opened⟩ := Option.map_eq_some_iff.mp isOpen
  cases target with
  | error err =>
    cases opened
  | ok pair =>
    have isTables := congrArg (fun result => result.1.tables) opened
    have isOpenings := congrArg (fun result => result.1.opening) opened
    have isResult := congrArg Prod.snd opened
    refine ⟨{ file := state.tables.files.next, flags := 0 }, ?_, ?_⟩
    · unfold sysOpenFile at isTables isResult
      dsimp only at isTables isResult
      rw [← isTables]
      split at isResult
      · cases isResult
      · split at isResult
        · cases isResult
        · cases isResult
          exact if_pos ⟨rfl, rfl⟩
    · rw [← isOpenings]
      exact if_pos rfl

/--
In every run in which no member of the group gets the owner's rights by a
`sys_open`, every descriptor follows the class rule, and so does the next
`sys_open` exactly if it does not give those rights either.
-/
theorem access_followsClass {calls : List AccessCall} {state : AccessState}
    (run :
      Run (Guarded (fun _ call => call.Fair) AccessStep) .boot calls state) :
    state.FollowsClass ∧
      (∀ proc request device after fd,
        state.sysOpen proc request device = some (after, .ok fd) →
        ∃ filedes, after.tables.filedes proc fd = some filedes ∧
          after.opening filedes.file = some (.open request)) ∧
      ∀ request : OpenRequest,
        (∀ (state after : AccessState) proc device fd,
            state.sysOpen proc request device = some (after, .ok fd) →
              request.Permitted) ↔
          request.Fair := by
  have sound : AccessSound state :=
    run.invariant (fun _ state => AccessSound state) .boot
      fun sound called => sound.step called.1 called.2
  exact ⟨sound.followsClass,
    fun _ _ _ _ _ isOpen => AccessState.sysOpen_opening isOpen,
    fun request => request.fair_iff⟩

/-- A filesystem with the file `f`, inode 3, for its owner only. -/
def privateFile : Namespace where
  mountpoint mp :=
    { rootVnode := { mp := mp, ino := 1 }
      parentVnode := none
      flags := 0
      ops := { creat := true, mknod := true, mkdir := true, unlink := true } }
  vfsmountedhere _ := none
  attributes vnode :=
    { mode := if vnode.ino = 3 then 0o100600 else S_IFDIR + 0o755
      uid := 100
      gid := 100 }
  opens _ := true
  lookup vnode name :=
    if vnode = { mp := 0, ino := 1 } ∧ name = ['f'] then some 3 else none
  readlink _ := none

/-- A user of group 100 opens `f` for reading and writing. -/
def opensPrivateFile (user : Nat) : OpenRequest where
  ns := privateFile
  process :=
    { uid := user
      euid := user
      gid := 100
      egid := 100
      umask := 0o022
      vnodeRoot := { mp := 0, ino := 1 }
      vnodeCurrent := { mp := 0, ino := 1 } }
  path := ['/', 'f']
  flags := 2
  mode := 0
  created := .error .ENOENT

/-- The owner opens the file. -/
theorem opensPrivateFile_followsClass :
    ∃ state,
      AccessStep .boot (.opens 1 (opensPrivateFile 100) (.ok ())) state ∧
        state.FollowsClass := by
  obtain ⟨state, opened⟩ : ∃ state,
        AccessStep .boot (.opens 1 (opensPrivateFile 100) (.ok ())) state :=
    Option.isSome_iff_exists.mp rfl
  have fair : (AccessCall.opens 1 (opensPrivateFile 100) (.ok ())).Fair := by
    intro ns vnode isFound
    cases isFound
    exact .inr (.inl rfl)
  exact ⟨state, opened, (access_followsClass (.single ⟨fair, opened⟩)).1⟩

/-- A member of the group opens the file, which is its owner's alone. -/
theorem opensPrivateFile_not_followsClass :
    ¬ ∀ calls state, Run AccessStep .boot calls state → state.FollowsClass := by
  intro follows
  have opened : AccessStep .boot (.opens 1 (opensPrivateFile 101) (.ok ())) _ :=
    rfl
  rcases follows _ _ (.single opened) 1 0 { file := 0, flags := 0 } rfl with
    isPipe | ⟨request, isRequest, permitted, -⟩
  · cases isPipe
  · cases isRequest
    have permits := permitted privateFile { mp := 0, ino := 3 } rfl
    revert permits
    unfold ClassPermits
    decide

end Idylla.Vfs
