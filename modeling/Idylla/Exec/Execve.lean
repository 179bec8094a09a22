import Idylla.Exec.Elf32
import Idylla.Ramfs.Inode
import Idylla.Vfs.DescriptorDup
import Idylla.Vfs.Dup2

namespace Idylla.Exec

open Idylla.Lib Idylla.Vfs

/-!
# What executing a program leaves of a process

`sys_execve` opens the executable in the table of its caller.  Every exit with
an error closes it again; the call that goes to user mode does not.
-/

/-- `FD_CLOEXEC` -/
def FD_CLOEXEC : Nat := 1

/-- `S_ISUID` -/
def S_ISUID : Nat := 0o004000

/-- `S_ISGID` -/
def S_ISGID : Nat := 0o002000

/-- What a call of `sys_execve` finds. -/
structure ExecRequest (Space : Type) where
  /-- The outcome of `sys_access`. -/
  access : Except Errno Unit
  /-- The vnode that `sys_open` finds and may read. -/
  target : Except Errno Vnode
  mode : Nat
  uid : Int
  gid : Int
  /-- The outcome of `cdev_open` or `bdev_open`. -/
  device : Except Errno Unit
  /-- What `vm_space_create` returns. -/
  space : Option Space
  /-- `elf_execve`, with the space it leaves and the entry point. -/
  load : Space → Space × LoadResult (BitVec 32)

/-- The tables, the address spaces, and the process that calls. -/
structure ExecState (Space : Type) where
  tables : FileTables
  spaces : Heap Space
  vmspace : Option Nat
  euid : Int
  egid : Int

/-- `st_mode` of `sys_fstat` for a descriptor that `sys_open` has returned. -/
def ExecRequest.stMode {Space : Type} (request : ExecRequest Space) : Nat :=
  if request.mode &&& S_IFMT = S_IFIFO then S_IFIFO ||| 0o600
  else request.mode

section Calls

variable {Space : Type} (shutdown : Nat → Nat → FileTables → FileTables)
  (proc : Nat)

/--
`sys_close`, with `sys_shutdown` for the last descriptor of a socket.  The
descriptor is cleared before `sys_shutdown` is called.
-/
def closeFile (tables : FileTables) (fd : Nat) : Option FileTables :=
  match tables.descriptor proc fd with
  | none => some tables
  | some filedes =>
    match tables.files.cells filedes.file with
    | none => none
    | some file =>
      if file.refs - 1 = 0 ∧ file.type = S_IFSOCK then
        some
          (shutdown proc fd
            ((tables.setFiledes proc fd none).addRefs filedes.file (-1)))
      else
        (sysClose tables proc fd).map Prod.fst

/-- The close-on-exec loop over the first descriptors. -/
def closeOnExec (tables : FileTables) : Nat → Option FileTables
  | 0 => some tables
  | fd + 1 =>
    (closeOnExec tables fd).bind fun before =>
      match before.filedes proc fd with
      | none => some before
      | some filedes =>
        if filedes.flags &&& FD_CLOEXEC ≠ 0 then
          closeFile shutdown proc before fd
        else
          some before

/-- The exits behind `sys_open`: the executable is closed. -/
def execveFails (state : ExecState Space) (fd : Nat)
    (errno : Errno) : ExecState Space × LoadResult (BitVec 32) :=
  match closeFile shutdown proc state.tables fd with
  | none => (state, .undefined)
  | some tables => ({ state with tables := tables }, .returns (.error errno))

/--
`sys_execve`, less the user stack.  The call that returns an entry point is the
one that goes to user mode.
-/
def sysExecve (request : ExecRequest Space)
    (state : ExecState Space) : ExecState Space × LoadResult (BitVec 32) :=
  match request.access with
  | .error errno => (state, .returns (.error errno))
  | .ok () =>
    match
      sysOpenFile state.tables proc
        (request.target.map fun vnode => (vnode, request.mode))
        request.device
    with
    | (tables, .error errno) =>
      ({ state with tables := tables }, .returns (.error errno))
    | (tables, .ok fd) =>
      let opened := { state with tables := tables }
      let type := request.stMode &&& S_IFMT
      if type ≠ Ramfs.S_IFREG then
        execveFails shutdown proc opened fd
          (if type = S_IFDIR then .EISDIR else .EACCES)
      else
        match request.space with
        | none => execveFails shutdown proc opened fd .ENOMEM
        | some space =>
          let vmspace := state.spaces.next
          let (loaded, result) := request.load space
          let created :=
            { opened with spaces := state.spaces.alloc loaded }
          match result with
          | .returns (.error errno) =>
            execveFails shutdown proc
              { opened with spaces := created.spaces.free vmspace }
              fd errno
          | .panics => (created, .panics)
          | .undefined => (created, .undefined)
          | .returns (.ok entry) =>
            let switched :=
              { created with
                vmspace := some vmspace
                spaces := match state.vmspace with
                  | none => created.spaces
                  | some old => created.spaces.free old }
            -- `fd` is the index of the loop from here on.
            match closeOnExec shutdown proc switched.tables OPEN_MAX
            with
            | none => (switched, .undefined)
            | some tables =>
              ({ switched with
                  tables := tables
                  euid :=
                    if request.stMode &&& S_ISUID = S_ISUID then
                      request.uid
                    else state.euid
                  egid :=
                    if request.stMode &&& S_ISGID = S_ISGID then
                      request.gid
                    else state.egid },
                .returns (.ok entry))

end Calls

/-- A table without the descriptors that are closed on `execve`. -/
def withoutCloexec (slots : Nat → Option FileDes) (fd : Nat) : Option FileDes :=
  (slots fd).filter fun filedes => filedes.flags &&& FD_CLOEXEC = 0

/-- Nothing has changed that the process sees. -/
structure ExecUnchanged
    {Space : Type}
    (state after : ExecState Space) : Prop where
  filedes : after.tables.filedes = state.tables.filedes
  spaces : ∀ space, after.spaces.cells space = state.spaces.cells space
  vmspace : after.vmspace = state.vmspace
  euid : after.euid = state.euid
  egid : after.egid = state.egid

/--
`sys_execve` keeps the descriptors that it is to keep, or it changes nothing.
-/
def ExecvePreserves {Space : Type} (proc : Nat) (state : ExecState Space)
    (outcome : ExecState Space × LoadResult (BitVec 32)) : Prop :=
  match outcome.2 with
  | .returns (.ok _) =>
    ∀ fd, fd < OPEN_MAX →
      outcome.1.tables.filedes proc fd =
        withoutCloexec (state.tables.filedes proc) fd
  | .returns (.error _) => ExecUnchanged state outcome.1
  | .panics | .undefined => False

/--
A step of the call fails.  Named pipes are left out: `sys_close` takes the
unset `dataptr` of a file that `sys_open` has made for a pipe.
-/
def ExecRequest.Refused {Space : Type} (request : ExecRequest Space)
    (slots : Nat → Option FileDes) : Prop :=
  (∃ errno, request.access = .error errno) ∨
    (∃ errno, request.target = .error errno) ∨
    (∀ fd, ¬ LowestFree slots 0 fd) ∨
    ((request.mode &&& S_IFMT = S_IFCHR ∨ request.mode &&& S_IFMT = S_IFBLK) ∧
      ∃ errno, request.device = .error errno) ∨
    request.mode &&& S_IFMT ≠ S_IFIFO ∧
      (request.mode &&& S_IFMT ≠ Ramfs.S_IFREG ∨ request.space = none ∨
        ∃ space errno, request.space = some space ∧
          (request.load space).2 = .returns (.error errno))

section Tables

variable {shutdown : Nat → Nat → FileTables → FileTables} {proc : Nat}
  {tables after : FileTables} {filedes : FileDes}

theorem closeFile_filedes
    (keeps :
      ∀ proc fd tables, (shutdown proc fd tables).filedes = tables.filedes)
    {fd : Nat} (inside : fd < OPEN_MAX)
    (isOpen : tables.filedes proc fd = some filedes)
    (returns : closeFile shutdown proc tables fd = some after) :
    after.filedes = (tables.setFiledes proc fd none).filedes := by
  have isDescriptor : tables.descriptor proc fd = some filedes := by
    unfold FileTables.descriptor
    rw [if_neg (by omega)]
    exact isOpen
  unfold closeFile at returns
  rw [isDescriptor] at returns
  dsimp only at returns
  split at returns
  · cases returns
  split at returns
  · cases returns
    exact keeps proc fd _
  · obtain ⟨⟨closed, result⟩, isClosed, rfl⟩ :=
      Option.map_eq_some_iff.mp returns
    exact sysClose_clears isDescriptor isClosed

theorem closeOnExec_turn
    (keeps :
      ∀ proc fd tables, (shutdown proc fd tables).filedes = tables.filedes)
    {count : Nat} {before : FileTables} (inside : count < OPEN_MAX)
    (isBefore : closeOnExec shutdown proc tables count = some before)
    (returns : closeOnExec shutdown proc tables (count + 1) = some after)
    (fd : Nat) :
    after.filedes proc fd =
      if fd = count then withoutCloexec (before.filedes proc) fd
      else before.filedes proc fd := by
  unfold closeOnExec at returns
  rw [isBefore, Option.bind_some] at returns
  unfold withoutCloexec
  split at returns
  next isFree =>
    cases returns
    split
    next isFd =>
      rw [isFd, isFree]
      rfl
    next => rfl
  next filedes isOpen =>
    split at returns
    next flagged =>
      rw [closeFile_filedes keeps inside isOpen returns]
      show (if proc = proc ∧ fd = count then none
        else before.filedes proc fd) = _
      by_cases isFd : fd = count
      · rw [if_pos ⟨rfl, isFd⟩, if_pos isFd, isFd, isOpen]
        exact (if_neg (by simpa using flagged)).symm
      · rw [if_neg fun both => isFd both.2, if_neg isFd]
    next unflagged =>
      cases returns
      split
      next isFd =>
        rw [isFd, isOpen]
        exact (if_pos (by simpa using unflagged)).symm
      next => rfl

theorem closeOnExec_filedes
    (keeps :
      ∀ proc fd tables, (shutdown proc fd tables).filedes = tables.filedes)
    {count : Nat} (bounded : count ≤ OPEN_MAX)
    (returns : closeOnExec shutdown proc tables count = some after) (fd : Nat) :
    after.filedes proc fd =
      if fd < count then withoutCloexec (tables.filedes proc) fd
      else tables.filedes proc fd := by
  induction count generalizing after with
  | zero =>
    cases returns
    rfl
  | succ count ih =>
    obtain ⟨before, isBefore, -⟩ := Option.bind_eq_some_iff.mp returns
    have soFar := ih (Nat.le_of_lt bounded) isBefore
    rw [closeOnExec_turn keeps bounded isBefore returns]
    unfold withoutCloexec at soFar ⊢
    rw [soFar]
    by_cases isFd : fd = count
    · rw [if_pos isFd, if_neg (by omega), if_pos (by omega)]
    · rw [if_neg isFd]
      by_cases below : fd < count
      · rw [if_pos below, if_pos (by omega)]
      · rw [if_neg below, if_neg (by omega)]

/-- The executable has been opened. -/
structure ExecOpened
    (tables after : FileTables) (proc fd : Nat) (vnode : Vnode)
    (type : Nat) : Prop where
  lowest : LowestFree (tables.filedes proc) 0 fd
  filedes : after.filedes =
      (tables.setFiledes proc fd
        (some { file := tables.files.next, flags := 0 })).filedes
  file : after.files.cells tables.files.next =
      some { refs := 1, vnode := some vnode, dataptr := none, type := type }

theorem sysOpenFile_cases
    (tables : FileTables) (proc mode : Nat) (target : Except Errno Vnode)
    (device : Except Errno Unit) :
    (∃ after errno,
      sysOpenFile tables proc (target.map fun vnode => (vnode, mode)) device =
          (after, .error errno) ∧
        after.filedes = tables.filedes ∧
          ((∃ errno, target = .error errno) ∨
            (∀ fd, ¬ LowestFree (tables.filedes proc) 0 fd) ∨
              (mode &&& S_IFMT = S_IFCHR ∨ mode &&& S_IFMT = S_IFBLK) ∧
                ∃ errno, device = .error errno)) ∨
    ∃ after fd vnode, target = .ok vnode ∧
      ((mode &&& S_IFMT = S_IFCHR ∨ mode &&& S_IFMT = S_IFBLK) →
        device = .ok ()) ∧
      sysOpenFile tables proc (target.map fun vnode => (vnode, mode)) device =
        (after, .ok fd) ∧
      ExecOpened tables after proc fd vnode (mode &&& S_IFMT) := by
  cases target with
  | error errno =>
    exact .inl ⟨tables, errno, rfl, rfl, .inl ⟨errno, rfl⟩⟩
  | ok vnode =>
    let created :=
      tables.allocFile
        { refs := 1
          vnode := some vnode
          dataptr := none
          type := mode &&& S_IFMT }
    unfold sysOpenFile
    dsimp only [Except.map]
    cases isFree : created.freeDescriptor proc 0 with
    | none =>
      exact .inl ⟨_, _, rfl, rfl, .inr (.inl (firstFree_none_iff.mp isFree))⟩
    | some fd =>
      have lowest := firstFree_some_iff.mp isFree
      by_cases isDevice : mode &&& S_IFMT = S_IFCHR ∨ mode &&& S_IFMT = S_IFBLK
      · rw [if_pos isDevice]
        cases device with
        | error errno =>
          exact .inl ⟨_, _, rfl, rfl, .inr (.inr ⟨isDevice, errno, rfl⟩)⟩
        | ok done =>
          exact .inr ⟨_, fd, vnode, rfl, fun _ => rfl, rfl, lowest, rfl,
            Heap.cells_alloc_next⟩
      · rw [if_neg isDevice]
        exact .inr ⟨_, fd, vnode, rfl,
          fun device => absurd device isDevice, rfl, lowest, rfl,
          Heap.cells_alloc_next⟩

namespace ExecOpened

variable {fd type : Nat} {vnode : Vnode}

theorem filedes_fd (opened : ExecOpened tables after proc fd vnode type) :
    after.filedes proc fd = some { file := tables.files.next, flags := 0 } := by
  rw [opened.filedes]
  exact if_pos ⟨rfl, rfl⟩

theorem descriptor (opened : ExecOpened tables after proc fd vnode type) :
    after.descriptor proc fd =
      some { file := tables.files.next, flags := 0 } := by
  have inside := opened.lowest.upper
  unfold FileTables.descriptor
  rw [if_neg (by omega)]
  exact opened.filedes_fd

theorem closeFile
    (keeps :
      ∀ proc fd tables, (shutdown proc fd tables).filedes = tables.filedes)
    (opened : ExecOpened tables after proc fd vnode type)
    (notFifo : type ≠ S_IFIFO) :
    ∃ closed, Exec.closeFile shutdown proc after fd = some closed ∧
      closed.filedes = tables.filedes := by
  obtain ⟨closed, isClosed⟩ :
      ∃ closed, Exec.closeFile shutdown proc after fd = some closed := by
    unfold Exec.closeFile
    rw [opened.descriptor]
    dsimp only
    rw [opened.file]
    dsimp only
    by_cases isSocket : type = S_IFSOCK
    · exact ⟨_, if_pos ⟨rfl, isSocket⟩⟩
    · rw [if_neg fun both => isSocket both.2]
      unfold sysClose
      rw [opened.descriptor]
      dsimp only
      rw [opened.file]
      dsimp only
      rw [if_pos (show (1 : Int) - 1 = 0 from rfl), if_neg isSocket,
        if_neg notFifo]
      exact ⟨_, rfl⟩
  refine ⟨closed, isClosed, ?_⟩
  rw [closeFile_filedes keeps opened.lowest.upper opened.filedes_fd isClosed]
  funext otherProc other
  show (if otherProc = proc ∧ other = fd then none
    else after.filedes otherProc other) = _
  by_cases same : otherProc = proc ∧ other = fd
  · rw [if_pos same, same.1, same.2, opened.lowest.free]
  · rw [if_neg same, opened.filedes]
    exact if_neg same

theorem closeFile_fifo
    (opened : ExecOpened tables after proc fd vnode S_IFIFO) :
    Exec.closeFile shutdown proc after fd = none := by
  unfold Exec.closeFile
  rw [opened.descriptor]
  dsimp only
  rw [opened.file]
  dsimp only
  rw [if_neg (by decide),
    sysClose_undefined opened.descriptor opened.file rfl rfl rfl]
  rfl

theorem closeOnExec
    (keeps :
      ∀ proc fd tables, (shutdown proc fd tables).filedes = tables.filedes)
    (opened : ExecOpened tables after proc fd vnode type) {closed : FileTables}
    (returns : Exec.closeOnExec shutdown proc after OPEN_MAX = some closed) :
    closed.filedes proc fd ≠ withoutCloexec (tables.filedes proc) fd := by
  have inside := opened.lowest.upper
  rw [closeOnExec_filedes keeps (Nat.le_refl _) returns, if_pos inside]
  unfold withoutCloexec
  rw [opened.filedes_fd, opened.lowest.free]
  simp

end ExecOpened

end Tables

section Execve

variable {Space : Type} {shutdown : Nat → Nat → FileTables → FileTables}
  {proc fd : Nat} {request : ExecRequest Space} {state : ExecState Space}
  {tables : FileTables} {vnode : Vnode} {type : Nat}

theorem execveFails_preserves
    (keeps :
      ∀ proc fd tables, (shutdown proc fd tables).filedes = tables.filedes)
    (opened : ExecOpened state.tables tables proc fd vnode type)
    (notFifo : type ≠ S_IFIFO) {spaces : Heap Space}
    (same : ∀ space, spaces.cells space = state.spaces.cells space)
    (errno : Errno) :
    ExecvePreserves proc state
      (execveFails shutdown proc
        { state with tables := tables, spaces := spaces } fd errno) := by
  obtain ⟨closed, isClosed, isFiledes⟩ := opened.closeFile keeps notFifo
  unfold execveFails
  rw [isClosed]
  exact ⟨isFiledes, same, rfl, rfl, rfl⟩

theorem execveFails_fifo
    (opened : ExecOpened state.tables tables proc fd vnode S_IFIFO)
    (errno : Errno) :
    ¬ ExecvePreserves proc state
      (execveFails shutdown proc { state with tables := tables } fd errno) := by
  unfold execveFails
  rw [opened.closeFile_fifo]
  exact id

theorem refused_iff_of_opened {slots : Nat → Option FileDes}
    (isAccess : request.access = .ok ()) (isTarget : request.target = .ok vnode)
    (noDevice :
      (request.mode &&& S_IFMT = S_IFCHR ∨ request.mode &&& S_IFMT = S_IFBLK) →
        request.device = .ok ()) (lowest : LowestFree slots 0 fd) :
    request.Refused slots ↔
      request.mode &&& S_IFMT ≠ S_IFIFO ∧
        (request.mode &&& S_IFMT ≠ Ramfs.S_IFREG ∨ request.space = none ∨
          ∃ space errno, request.space = some space ∧
            (request.load space).2 = .returns (.error errno)) := by
  constructor
  · rintro (⟨errno, isError⟩ | ⟨errno, isError⟩ | noSlot |
      ⟨isDevice, errno, isError⟩ | later)
    · rw [isAccess] at isError
      cases isError
    · rw [isTarget] at isError
      cases isError
    · exact absurd lowest (noSlot fd)
    · rw [noDevice isDevice] at isError
      cases isError
    · exact later
  · exact fun later => .inr (.inr (.inr (.inr later)))

end Execve

/--
`sys_execve` preserves the descriptors exactly if a step of the call fails, and
the executable is not a named pipe.
-/
theorem sysExecve_preserves_iff
    {Space : Type} {shutdown : Nat → Nat → FileTables → FileTables}
    (keeps :
      ∀ proc fd tables, (shutdown proc fd tables).filedes = tables.filedes)
    (proc : Nat) (request : ExecRequest Space) (state : ExecState Space) :
    ExecvePreserves proc state (sysExecve shutdown proc request state) ↔
      request.Refused (state.tables.filedes proc) := by
  unfold sysExecve
  cases isAccess : request.access with
  | error errno =>
    exact iff_of_true ⟨rfl, fun _ => rfl, rfl, rfl, rfl⟩
      (.inl ⟨errno, isAccess⟩)
  | ok granted =>
    rcases sysOpenFile_cases state.tables proc request.mode request.target
        request.device with
      ⟨tables, errno, isError, isFiledes, reason⟩ |
      ⟨tables, fd, vnode, isTarget, noDevice, isOpen, opened⟩
    · rw [isError]
      refine iff_of_true ⟨isFiledes, fun _ => rfl, rfl, rfl, rfl⟩ ?_
      rcases reason with noTarget | noSlot | noDevice
      · exact .inr (.inl noTarget)
      · exact .inr (.inr (.inl noSlot))
      · exact .inr (.inr (.inr (.inl noDevice)))
    rw [isOpen]
    dsimp only
    rw [refused_iff_of_opened isAccess isTarget noDevice opened.lowest]
    by_cases isFifo : request.mode &&& S_IFMT = S_IFIFO
    · have isType : request.stMode &&& S_IFMT = S_IFIFO := by
        unfold ExecRequest.stMode
        rw [if_pos isFifo]
        decide
      rw [isFifo] at opened
      rw [isType, if_pos (by decide)]
      exact iff_of_false (execveFails_fifo opened _)
        fun refused => refused.1 isFifo
    have isMode : request.stMode = request.mode := if_neg isFifo
    rw [isMode]
    by_cases isReg : request.mode &&& S_IFMT = Ramfs.S_IFREG
    · rw [if_neg fun notReg => notReg isReg]
      cases isSpace : request.space with
      | none =>
        exact iff_of_true
          (execveFails_preserves keeps opened isFifo (fun _ => rfl) _)
          ⟨isFifo, .inr (.inl rfl)⟩
      | some space =>
        dsimp only
        -- With a space only an error of the loader refuses the call.
        have not_refused
            (noError :
              ∀ errno, (request.load space).2 ≠ .returns (.error errno)) :
            ¬ (request.mode &&& S_IFMT ≠ S_IFIFO ∧
              (request.mode &&& S_IFMT ≠ Ramfs.S_IFREG ∨ some space = none ∨
                ∃ other errno, some space = some other ∧
                  (request.load other).2 = .returns (.error errno))) := by
          rintro ⟨-, notReg | noSpace | ⟨other, errno, isOther, isError⟩⟩
          · exact notReg isReg
          · cases noSpace
          · cases isOther
            exact noError errno isError
        cases isLoaded : (request.load space).2 with
        | returns result =>
          cases result with
          | error errno =>
            exact iff_of_true
              (execveFails_preserves keeps opened isFifo
                (fun other => Heap.cells_alloc_free) _)
              ⟨isFifo, .inr (.inr ⟨space, errno, rfl, isLoaded⟩)⟩
          | ok entry =>
            refine iff_of_false ?_ (not_refused fun errno isError => ?_)
            · cases isClosed : closeOnExec shutdown proc tables OPEN_MAX with
              | none =>
                exact id
              | some closed =>
                exact fun same =>
                  opened.closeOnExec keeps isClosed
                    (same fd opened.lowest.upper)
            · rw [isLoaded] at isError
              cases isError
        | panics | undefined =>
          refine iff_of_false id (not_refused fun errno isError => ?_)
          rw [isLoaded] at isError
          cases isError
    · rw [if_pos isReg]
      exact iff_of_true
        (execveFails_preserves keeps opened isFifo (fun _ => rfl) _)
        ⟨isFifo, .inl isReg⟩

/-- The process has one address space and nothing open. -/
def nothingOpen : ExecState Unit where
  tables := .boot
  spaces := Heap.empty.alloc ()
  vmspace := some 0
  euid := 0
  egid := 0

/-- A program that is loaded. -/
def program : ExecRequest Unit where
  access := .ok ()
  target := .ok ⟨0, 5⟩
  mode := 0o100755
  uid := 0
  gid := 0
  device := .ok ()
  space := some ()
  load := fun space => (space, .returns (.ok 0x40000000))

/-- A file that is no program. -/
def noProgram : ExecRequest Unit :=
  { program with load := fun space => (space, .returns (.error .ENOEXEC)) }

/-- What is no program leaves the process as it was. -/
theorem noProgram_preserves :
    ExecvePreserves 1 nothingOpen
      (sysExecve (fun _ _ tables => tables) 1 noProgram nothingOpen) :=
  (sysExecve_preserves_iff (fun _ _ _ => rfl) 1 noProgram nothingOpen).mpr
    (.inr (.inr (.inr (.inr ⟨by decide, .inr (.inr ⟨(), _, rfl, rfl⟩)⟩))))

/-- A program gets a descriptor of its executable. -/
theorem program_not_preserves :
    ¬ ExecvePreserves 1 nothingOpen
      (sysExecve (fun _ _ tables => tables) 1 program nothingOpen) := by
  intro same
  have atZero := same 0 (by decide)
  cases atZero

end Idylla.Exec
