import Idylla.Vfs.FileTable
import Idylla.Vfs.EntryCalls

namespace Idylla.Vfs

/-!
# Read-only mounts

The calls that change a filesystem, up to the operation of its driver.  Each
of them tests `MS_RDONLY` on its own: the calls that create an entry on the
directory they change, `sys_write` and `sys_chmod` on the file.  `sys_unlink`
tests the file and changes the directory, which another walk has found.
-/

/-- Read enabled, in the flags of a file plus one. -/
def _FREAD : Nat := 0x0001

/-- Write enabled, in the flags of a file plus one. -/
def _FWRITE : Nat := 0x0002

/-- Every write goes to the end of the file. -/
def _FAPPEND : Nat := 0x0008

/-- Truncate the file when it is opened. -/
def _FTRUNC : Nat := 0x0400

/-- Which operations on files a filesystem's `struct vnode_ops` provides. -/
structure FileOps where
  write : Bool
  flush : Bool
  deriving Repr, DecidableEq

/-- The mounted filesystems, the file operations by mountpoint. -/
structure Filesystems where
  ns : Namespace
  fileOps : Nat → FileOps
  size : Vnode → Int

/-- `struct file`, as `sys_write` reads it. -/
structure WritableFile where
  mode : Nat
  type : Nat
  pos : Int
  vnode : Option Vnode

/-- A process with the files behind its descriptors. -/
structure Caller where
  process : Process
  filedes : Nat → Option WritableFile

/-- What a driver is asked to change. -/
inductive DriverOperation where
  | entry (name : List Char) (operation : EntryOperation)
  | write (len : Nat) (pos : Int)
  | flush (mode : Nat)
  deriving Repr, DecidableEq

/-- How a call ends, or what it asks the driver of a vnode to do. -/
inductive CallOutcome where
  | overrun
  | refused (err : Errno)
  | opens (vnode : Vnode)
  /-- The data goes to a pipe or to a character device. -/
  | transfers
  /-- The vnode alone has changed: its driver has no `flush`. -/
  | cached
  | performs (vnode : Vnode) (operation : DriverOperation)

/-- The outcome of a call on an entry. -/
def EntryOutcome.toCall : EntryOutcome → CallOutcome
  | .overrun => .overrun
  | .refused err => .refused err
  | .opens vnode => .opens vnode
  | .performs directory name operation =>
    .performs directory (.entry name operation)

/-- `sys_ftruncate`, which returns before its first test. -/
def sysFtruncate : CallOutcome :=
  .refused .ENOSYS

section Calls

variable (fs : Filesystems) (caller : Caller)

/-- `sys_open` on a vnode that exists; what truncation returns is dropped. -/
def openVnode (vnode : Vnode) (flags : Nat) : CallOutcome :=
  let wanted :=
    (if (flags + 1) &&& _FREAD ≠ 0 then 4 else 0) |||
      (if (flags + 1) &&& _FWRITE ≠ 0 then 2 else 0)
  if ¬ doSysAccess fs.ns vnode wanted caller.process then
    .refused .EACCES
  else if flags &&& _FTRUNC ≠ 0 then
    match sysFtruncate with
    | .performs truncated operation => .performs truncated operation
    | _ => .opens vnode
  else
    .opens vnode

/-- `sys_lseek` of `SEEK_END` with offset 0. -/
def seekEnd (file : WritableFile) : WritableFile :=
  match file.vnode with
  | none => file
  | some vnode =>
    if 0 ≤ fs.size vnode then
      { file with pos := fs.size vnode }
    else
      file

/-- `sys_write` behind the checks of the descriptor. -/
def writeFile (file : WritableFile) (len : Nat) : CallOutcome :=
  if file.type &&& S_IFMT = S_IFIFO then
    .transfers
  else if file.type &&& S_IFMT = S_IFCHR then
    .transfers
  else if file.type &&& S_IFMT = S_IFBLK then
    .refused .ENOSYS
  else if file.type &&& S_IFMT = S_IFDIR then
    .refused .EISDIR
  else
    match file.vnode with
    | none => .refused .ENOTSUP
    | some vnode =>
      if (fs.fileOps vnode.mp).write then
        if fs.ns.readOnly vnode then
          .refused .EROFS
        else
          .performs vnode (.write len file.pos)
      else
        .refused .ENOTSUP

/-- `sys_write`. -/
def sysWrite (fd : Int) (len : Nat) : CallOutcome :=
  if fd < 0 ∨ OPEN_MAX ≤ fd then
    .refused .EBADF
  else
    match caller.filedes fd.toNat with
    | none => .refused .EBADF
    | some file =>
      if (file.mode + 1) &&& _FWRITE ≠ _FWRITE then
        .refused .EACCES
      else if file.mode &&& _FAPPEND ≠ 0 then
        writeFile fs (seekEnd fs file) len
      else
        writeFile fs file len

/-- `sys_chmod`. -/
def sysChmod (path : List Char) (mode : Nat) : CallOutcome :=
  match vnodeGet fs.ns caller.process true path with
  | .error err => .refused err
  | .ok vnode =>
    let attributes := fs.ns.attributes vnode
    if fs.ns.readOnly vnode then
      .refused .EROFS
    else if attributes.uid ≠ caller.process.uid ∧
        attributes.uid ≠ caller.process.euid ∧
        caller.process.uid ≠ 0 ∧ caller.process.euid ≠ 0 then
      .refused .EACCES
    else if (fs.fileOps vnode.mp).flush then
      .performs vnode
        (.flush ((attributes.mode &&& S_IFMT) ||| (mode &&& 0o777)))
    else
      .cached

/-- The calls that change a filesystem, on a path or a descriptor. -/
inductive ChangingCall where
  | sysOpen (path : List Char) (flags mode : Nat)
  | sysWrite (fd : Int) (len : Nat)
  | sysMknod (path : List Char) (mode dev : Nat)
  | sysMkdir (path : List Char) (mode : Nat)
  | sysChmod (path : List Char) (mode : Nat)
  | sysUnlink (path : List Char)

/-- What a call does. -/
def ChangingCall.run : ChangingCall → CallOutcome
  | .sysOpen path flags mode =>
    match Vfs.sysOpen fs.ns caller.process path flags mode with
    | .opens vnode => openVnode fs caller vnode flags
    | outcome => outcome.toCall
  | .sysWrite fd len => Vfs.sysWrite fs caller fd len
  | .sysMknod path mode dev =>
    (Vfs.sysMknod fs.ns caller.process path mode dev).toCall
  | .sysMkdir path mode =>
    (Vfs.sysMkdir fs.ns caller.process path mode).toCall
  | .sysChmod path mode => Vfs.sysChmod fs caller path mode
  | .sysUnlink path => (Vfs.sysUnlink fs.ns caller.process path).toCall

end Calls

section Entries

variable {ns : Namespace} {process : Process} {path : List Char}
  {directory : Vnode} {name : List Char} {operation : EntryOperation}

end Entries

section AllCalls

variable {fs : Filesystems} {caller : Caller} {vnode : Vnode}
  {operation : DriverOperation}

end AllCalls

end Idylla.Vfs
