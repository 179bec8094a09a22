import Mathlib.Algebra.Group.Int.Defs
import Mathlib.Algebra.Group.Nat.Defs
import Idylla.Vfs.VnodeGet

namespace Idylla.Vfs

/-!
# Calls on directory entries

`sys_open` with `_FCREAT`, `sys_mknod`, `sys_mkdir` and `sys_unlink` up to
the operation of the filesystem driver: which directory vnode and which name
each of them hands over.
-/

/-- Create the file when it does not exist. -/
def _FCREAT : Nat := 0x0200

/-- Refuse to open a file that exists. -/
def _FEXCL : Nat := 0x0800

/-- The driver operation a call ends in, with its attribute arguments. -/
inductive EntryOperation where
  | creat (mode uid gid : Nat)
  | mknod (mode dev uid gid : Nat)
  | mkdir (mode uid gid : Nat)
  | unlink
  deriving Repr, DecidableEq

/-- How a call ends, or what it asks the driver to do. -/
inductive EntryOutcome where
  /-- `vfs_path_split` left its buffers. -/
  | overrun
  | refused (err : Errno)
  /-- `sys_open` goes on with a vnode that exists. -/
  | opens (vnode : Vnode)
  | performs (directory : Vnode) (name : List Char) (operation : EntryOperation)

/-- Whether the filesystem of a vnode has an operation. -/
def Namespace.supports (ns : Namespace) (vnode : Vnode) : EntryOperation → Bool
  | .creat .. => (ns.mountpoint vnode.mp).ops.creat
  | .mknod .. => (ns.mountpoint vnode.mp).ops.mknod
  | .mkdir .. => (ns.mountpoint vnode.mp).ops.mkdir
  | .unlink => (ns.mountpoint vnode.mp).ops.unlink

/-- `mode & ~mask`. -/
def clearBits (mode mask : Nat) : Nat :=
  mode ^^^ (mode &&& mask)

section Calls

variable (ns : Namespace) (process : Process)

/-- Hands the entry to the driver where it has the operation. -/
def callDriver (directory : Vnode) (name : List Char)
    (operation : EntryOperation) : EntryOutcome :=
  if ns.supports directory operation then
    .performs directory name operation
  else
    .refused .ENOTSUP

/--
The split of a path, the walk to its directory and the test that the
directory may be changed, as all four calls make them.
-/
def entryParent (path : List Char) :
    Except EntryOutcome (Vnode × List Char) :=
  match vfsPathSplit path with
  | none => .error .overrun
  | some target =>
    match vnodeGet ns process true target.path with
    | .error err => .error (.refused err)
    | .ok vnode =>
      if doSysAccess ns vnode 3 process then
        .ok (vnode, target.name)
      else
        .error (.refused .EACCES)

/-- The common end of the calls that create an entry. -/
def createEntry (path : List Char)
    (operation : EntryOperation) : EntryOutcome :=
  match entryParent ns process path with
  | .error outcome => outcome
  | .ok (vnode, name) =>
    if ns.readOnly vnode then
      .refused .EROFS
    else
      callDriver ns vnode name operation

/-- `sys_open` up to the creation of the file. -/
def sysOpen (path : List Char) (flags mode : Nat) : EntryOutcome :=
  match vnodeGet ns process true path with
  | .error err =>
    if err = .ENOENT ∧ flags &&& _FCREAT ≠ 0 then
      createEntry ns process path
        (.creat (clearBits (mode &&& 0o777) process.umask)
          process.uid process.gid)
    else
      .refused err
  | .ok vnode =>
    if flags &&& _FEXCL ≠ 0 then
      .refused .EEXIST
    else
      .opens vnode

/-- `sys_mknod`; only root makes device files. -/
def sysMknod (path : List Char) (mode dev : Nat) : EntryOutcome :=
  if (mode &&& S_IFMT = S_IFBLK ∨ mode &&& S_IFMT = S_IFCHR) ∧
      process.euid ≠ 0 ∧ process.uid ≠ 0 then
    .refused .EPERM
  else
    match vnodeGet ns process true path with
    | .ok _ => .refused .EEXIST
    | .error _ =>
      createEntry ns process path
        (.mknod (clearBits mode process.umask) dev process.uid process.gid)

/-- `sys_mkdir`. -/
def sysMkdir (path : List Char) (mode : Nat) : EntryOutcome :=
  match vnodeGet ns process true path with
  | .ok _ => .refused .EEXIST
  | .error _ =>
    createEntry ns process path
      (.mkdir (clearBits mode process.umask) process.uid process.gid)

/-- `sys_unlink` up to the removal of the entry. -/
def sysUnlink (path : List Char) : EntryOutcome :=
  match vnodeGet ns process true path with
  | .error err => .refused err
  | .ok vnode =>
    if ns.readOnly vnode then
      .refused .EROFS
    else if ns.isDir vnode then
      .refused .EISDIR
    else
      match entryParent ns process path with
      | .error outcome => outcome
      | .ok (parent, name) => callDriver ns parent name .unlink

/-- The calls that act on a directory entry. -/
inductive EntryCall where
  | sysOpen (flags mode : Nat)
  | sysMknod (mode dev : Nat)
  | sysMkdir (mode : Nat)
  | sysUnlink

/-- What a call does with a path. -/
def EntryCall.run (path : List Char) : EntryCall → EntryOutcome
  | .sysOpen flags mode => Vfs.sysOpen ns process path flags mode
  | .sysMknod mode dev => Vfs.sysMknod ns process path mode dev
  | .sysMkdir mode => Vfs.sysMkdir ns process path mode
  | .sysUnlink => Vfs.sysUnlink ns process path

end Calls

section Handed

variable {ns : Namespace} {process : Process} {path : List Char}
  {directory : Vnode} {name : List Char} {operation : EntryOperation}

theorem entryParent_ok
    (parent : entryParent ns process path = .ok (directory, name)) :
    ∃ split,
      vfsPathSplit path = some split ∧
        vnodeGet ns process true split.path = .ok directory ∧
        split.name = name := by
  unfold entryParent at parent
  cases splits : vfsPathSplit path with
  | none =>
    simp [splits] at parent
  | some split =>
    cases resolved : vnodeGet ns process true split.path with
    | error err =>
      simp [splits, resolved] at parent
    | ok vnode =>
      by_cases granted : doSysAccess ns vnode 3 process = true
      · simp only [splits, resolved, granted, ↓reduceIte,
          Except.ok.injEq, Prod.mk.injEq] at parent
        exact ⟨split, rfl, by rw [resolved, parent.1], parent.2⟩
      · simp [splits, resolved, granted] at parent

theorem entryParent_ne_performs :
    entryParent ns process path ≠
      .error (.performs directory name operation) := by
  unfold entryParent
  cases vfsPathSplit path with
  | none =>
    simp
  | some split =>
    cases resolved : vnodeGet ns process true split.path with
    | error err =>
      simp [resolved]
    | ok vnode =>
      by_cases granted : doSysAccess ns vnode 3 process = true <;>
        simp [resolved, granted]

variable {asked : EntryOperation}

theorem callDriver_performs {parent : Vnode} {entry : List Char}
    (performed :
      callDriver ns parent entry asked = .performs directory name operation) :
    parent = directory ∧ entry = name ∧ operation = asked := by
  unfold callDriver at performed
  split at performed <;> simp_all

theorem createEntry_calls_driver
    (performed :
      createEntry ns process path asked = .performs directory name operation) :
    entryParent ns process path = .ok (directory, name) ∧
      operation = asked := by
  unfold createEntry at performed
  cases parent : entryParent ns process path with
  | error outcome =>
    rw [parent] at performed
    exact absurd (parent.trans (congrArg _ performed)) entryParent_ne_performs
  | ok found =>
    simp only [parent] at performed
    split at performed
    · simp at performed
    · obtain ⟨isDirectory, isName, isAsked⟩ := callDriver_performs performed
      rw [← isDirectory, ← isName]
      exact ⟨rfl, isAsked⟩

theorem createEntry_performs
    (performed :
      createEntry ns process path asked = .performs directory name operation) :
    entryParent ns process path = .ok (directory, name) :=
  (createEntry_calls_driver performed).1

theorem EntryCall.run_performs {call : EntryCall}
    (performed :
      call.run ns process path = .performs directory name operation) :
    entryParent ns process path = .ok (directory, name) := by
  cases call with
  | sysOpen flags mode =>
    simp only [EntryCall.run, Vfs.sysOpen] at performed
    split at performed
    · split at performed
      · exact createEntry_performs performed
      · simp at performed
    · split at performed <;> simp at performed
  | sysMknod mode dev =>
    simp only [EntryCall.run, Vfs.sysMknod] at performed
    split at performed
    · simp at performed
    · split at performed
      · simp at performed
      · exact createEntry_performs performed
  | sysMkdir mode =>
    simp only [EntryCall.run, Vfs.sysMkdir] at performed
    split at performed
    · simp at performed
    · exact createEntry_performs performed
  | sysUnlink =>
    simp only [EntryCall.run, Vfs.sysUnlink] at performed
    split at performed
    · simp at performed
    · split at performed
      · simp at performed
      · split at performed
        · simp at performed
        · cases parent : entryParent ns process path with
          | error outcome =>
            simp only [parent] at performed
            exact absurd (parent.trans (congrArg _ performed))
              entryParent_ne_performs
          | ok found =>
            simp only [parent] at performed
            obtain ⟨isDirectory, isName, -⟩ := callDriver_performs performed
            rw [← isDirectory, ← isName]

end Handed

end Idylla.Vfs
