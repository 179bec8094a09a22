import Idylla.Lib.Heap
import Idylla.Lib.Run
import Idylla.Vfs.VnodeGet

namespace Idylla.Vfs

open Idylla.Lib

/-!
# Open files

The descriptor tables of all processes and the `struct file`s they point to.
`none` stands for what C leaves undefined, a pointer to a freed file or an
uninitialised `dataptr`, and for `sys_shutdown`, which is not in the sources.
-/

/-- How many descriptors a process has. -/
def OPEN_MAX : Nat := 64

/-- A pipe. -/
def S_IFIFO : Nat := 0o010000

/-- A socket. -/
def S_IFSOCK : Nat := 0o140000

/-- `struct file`, less what only reading and writing use. -/
structure OpenFile where
  refs : Int
  vnode : Option Vnode
  dataptr : Option Nat
  type : Nat

/-- `struct filedes`. -/
structure FileDes where
  file : Nat
  flags : Nat
  deriving Repr, DecidableEq

/--
The files, the reference counts of the pipes and the descriptors by process.
`opened` logs the files that got a descriptor from a call that succeeded, and
`released` those whose vnode or pipe end has been released.
-/
structure FileTables where
  files : Heap OpenFile
  pipes : Heap Int
  filedes : Nat → Nat → Option FileDes
  opened : List Nat
  released : List Nat

namespace FileTables

variable (tables : FileTables)

/-- `proc->filedes[fd] = filedes`. -/
def setFiledes (proc fd : Nat) (entry : Option FileDes) : FileTables :=
  { tables with
    filedes := fun otherProc other =>
      if otherProc = proc ∧ other = fd then entry
      else tables.filedes otherProc other }

/-- `kalloc` of a file. -/
def allocFile (file : OpenFile) : FileTables :=
  { tables with files := tables.files.alloc file }

/-- `kfree` of a file. -/
def freeFile (file : Nat) : FileTables :=
  { tables with files := tables.files.free file }

/-- A change of `file->refs`. -/
def addRefs (file : Nat) (change : Int) : FileTables :=
  { tables with
    files := tables.files.modify file fun cell =>
      { cell with refs := cell.refs + change } }

/-- `pipe_free`. -/
def pipeFree (pipe : Nat) : FileTables :=
  { tables with pipes := tables.pipes.modify pipe fun refs => refs - 1 }

/-- The vnode or the pipe end of a file has been released. -/
def logReleased (file : Nat) : FileTables :=
  { tables with released := tables.released ++ [file] }

/-- The file has got its first descriptor. -/
def logOpened (file : Nat) : FileTables :=
  { tables with opened := tables.opened ++ [file] }

/-- `proc->filedes[fd]` behind the check of the descriptor. -/
def descriptor (proc : Nat) (fd : Int) : Option FileDes :=
  if fd < 0 ∨ OPEN_MAX ≤ fd then none else tables.filedes proc fd.toNat

/-- The first free descriptor from `start` on. -/
def freeDescriptor (proc start : Nat) : Option Nat :=
  (List.range' start (OPEN_MAX - start)).find? fun fd =>
    (tables.filedes proc fd).isNone

/-- `atomic_inc(&file->refs)` and a new descriptor for the file. -/
def dup (filedes : FileDes) (proc fd flags : Nat) : Option FileTables :=
  match tables.files.cells filedes.file with
  | none => none
  | some _ =>
    some
      ((tables.addRefs filedes.file 1).setFiledes proc fd
        (some { file := filedes.file, flags := flags }))

end FileTables

/--
`sys_open` from the allocation of the file on.  `target` is the outcome of the
part that resolves the path, creates the file and checks the access: the vnode
with its mode.  `device` is the outcome of `cdev_open` or `bdev_open`.
-/
def sysOpenFile (tables : FileTables) (proc : Nat)
    (target : Except Errno (Vnode × Nat))
    (device : Except Errno Unit) : FileTables × Except Errno Nat :=
  match target with
  | .error errno => (tables, .error errno)
  | .ok (vnode, mode) =>
    let file := tables.files.next
    let type := mode &&& S_IFMT
    let created :=
      tables.allocFile
        { refs := 1, vnode := some vnode, dataptr := none, type := type }
    match created.freeDescriptor proc 0 with
    | none => (created.freeFile file, .error .EMFILE)
    | some fd =>
      match if type = S_IFCHR ∨ type = S_IFBLK then device else .ok () with
      | .error errno => (created.freeFile file, .error errno)
      | .ok () =>
        ((created.setFiledes proc fd
          (some { file := file, flags := 0 })).logOpened file, .ok fd)

/-- `sys_close`. -/
def sysClose (tables : FileTables) (proc : Nat)
    (fd : Int) : Option (FileTables × Except Errno Unit) :=
  match tables.descriptor proc fd with
  | none => some (tables, .error .EBADF)
  | some filedes =>
    match tables.files.cells filedes.file with
    | none => none
    | some file =>
      let cleared :=
        (tables.setFiledes proc fd.toNat none).addRefs filedes.file (-1)
      if file.refs - 1 = 0 then
        if file.type = S_IFSOCK then
          none
        else if file.type = S_IFIFO then
          match file.dataptr with
          | none => none
          | some pipe =>
            some ((cleared.pipeFree pipe).logReleased filedes.file, .ok ())
        else
          match file.vnode with
          | none => some (cleared, .ok ())
          | some _ =>
            some
              ((cleared.freeFile filedes.file).logReleased filedes.file, .ok ())
      else
        some (cleared, .ok ())

/-- `do_sys_dup`; a negative `start` is out of the table. -/
def doSysDup (tables : FileTables) (proc : Nat) (fd : Int)
    (start : Nat) : Option (FileTables × Except Errno Nat) :=
  match tables.descriptor proc fd with
  | none => some (tables, .error .EBADF)
  | some filedes =>
    match tables.freeDescriptor proc start with
    | none => some (tables, .error .EMFILE)
    | some other =>
      (tables.dup filedes proc other 0).map fun after => (after, .ok other)

/-- `sys_dup`. -/
def sysDup (tables : FileTables) (proc : Nat)
    (fd : Int) : Option (FileTables × Except Errno Nat) :=
  doSysDup tables proc fd 0

/-- `sys_fcntl` with `F_DUPFD`. -/
def sysFcntlDupfd (tables : FileTables) (proc : Nat) (fd : Int)
    (start : Nat) : Option (FileTables × Except Errno Nat) :=
  match tables.descriptor proc fd with
  | none => some (tables, .error .EBADF)
  | some _ => doSysDup tables proc fd start

/-- `sys_dup2`. -/
def sysDup2 (tables : FileTables) (proc : Nat)
    (oldfd newfd : Int) : Option (FileTables × Except Errno Nat) :=
  match tables.descriptor proc oldfd with
  | none => some (tables, .error .EBADF)
  | some _ =>
    if newfd < 0 ∨ OPEN_MAX ≤ newfd then
      some (tables, .error .EBADF)
    else
      let closed :=
        if (tables.filedes proc newfd.toNat).isSome then
          (sysClose tables proc newfd).map Prod.fst
        else
          some tables
      closed.bind fun closed =>
        match closed.descriptor proc oldfd with
        | none => none
        | some filedes =>
          (closed.dup filedes proc newfd.toNat 0).map fun after =>
            (after, .ok newfd.toNat)

/-- One end of a pipe. -/
def pipeEnd (pipe : Nat) : OpenFile where
  refs := 1
  vnode := none
  dataptr := some pipe
  type := S_IFIFO

/-- `sys_pipe`. -/
def sysPipe (tables : FileTables)
    (proc : Nat) : FileTables × Except Errno (Nat × Nat) :=
  let pipe := tables.pipes.next
  let fdr := tables.files.next
  let fdw := fdr + 1
  let created :=
    ({ tables with pipes := tables.pipes.alloc 2 }.allocFile
      (pipeEnd pipe)).allocFile (pipeEnd pipe)
  let freed (tables : FileTables) :=
    (({ tables with pipes := tables.pipes.free pipe }.freeFile
      fdr).freeFile fdw)
  match created.freeDescriptor proc 0 with
  | none => (freed created, .error .EMFILE)
  | some first =>
    let placed :=
      created.setFiledes proc first (some { file := fdr, flags := 0 })
    match placed.freeDescriptor proc first with
    | none => (freed (placed.setFiledes proc first none), .error .EMFILE)
    | some second =>
      (((placed.setFiledes proc second
        (some { file := fdw, flags := 0 })).logOpened fdr).logOpened
          fdw, .ok (first, second))

/-- The loop of `vfs_free` over the first descriptors of a process. -/
def closeDescriptors (tables : FileTables)
    (proc : Nat) : Nat → Option FileTables
  | 0 => some tables
  | fd + 1 =>
    (closeDescriptors tables proc fd).bind fun before =>
      if (before.filedes proc fd).isSome then
        (sysClose before proc fd).map Prod.fst
      else
        some before

/-- `vfs_free`, less the directories of the process. -/
def vfsFree (tables : FileTables) (proc : Nat) : Option FileTables :=
  closeDescriptors tables proc OPEN_MAX

/-- The loop of `vfs_clone` over the first descriptors of the parent. -/
def cloneDescriptors (tables : FileTables)
    (child parent : Nat) : Nat → Option FileTables
  | 0 => some tables
  | fd + 1 =>
    (cloneDescriptors tables child parent fd).bind fun before =>
      match before.filedes parent fd with
      | none => some before
      | some filedes => before.dup filedes child fd filedes.flags

/-- `vfs_clone`, less the directories of the process. -/
def vfsClone (tables : FileTables) (child parent : Nat) : Option FileTables :=
  cloneDescriptors tables child parent OPEN_MAX

/-- The calls on open files. -/
inductive FileCall where
  | opens (proc : Nat) (target : Except Errno (Vnode × Nat))
      (device : Except Errno Unit)
  | close (proc : Nat) (fd : Int)
  | dup (proc : Nat) (fd : Int)
  | dupfd (proc : Nat) (fd : Int) (start : Nat)
  | dup2 (proc : Nat) (oldfd newfd : Int)
  | pipe (proc : Nat)
  | clone (child parent : Nat)
  | free (proc : Nat)

/-- The tables after a call. -/
def FileCall.run (tables : FileTables) : FileCall → Option FileTables
  | .opens proc target device =>
    some (sysOpenFile tables proc target device).1
  | .close proc fd => (sysClose tables proc fd).map Prod.fst
  | .dup proc fd => (sysDup tables proc fd).map Prod.fst
  | .dupfd proc fd start =>
    (sysFcntlDupfd tables proc fd start).map Prod.fst
  | .dup2 proc oldfd newfd =>
    (sysDup2 tables proc oldfd newfd).map Prod.fst
  | .pipe proc => some (sysPipe tables proc).1
  | .clone child parent => vfsClone tables child parent
  | .free proc => vfsFree tables proc

/--
What the callers of a call promise: `vfs_clone` gets a child that `proc_init`
has zeroed, and `sys_dup2` two different descriptors.
-/
def FileCall.Promised (call : FileCall) (tables : FileTables) : Prop :=
  (∀ child parent, call = .clone child parent →
      ∀ fd, tables.filedes child fd = none) ∧
    ∀ proc oldfd newfd, call = .dup2 proc oldfd newfd → oldfd ≠ newfd

/-- A call that returns. -/
def FileStep (tables : FileTables) (call : FileCall)
    (after : FileTables) : Prop :=
  call.Promised tables ∧ call.run tables = some after

/-- No file is open. -/
def FileTables.boot : FileTables where
  files := .empty
  pipes := .empty
  filedes := fun _ _ => none
  opened := []
  released := []

end Idylla.Vfs
