import Idylla.Ramfs.Mount
import Idylla.Vfs.FileTable

namespace Idylla.Ramfs

open Idylla.Lib Idylla.Vfs

/-!
# System calls that reach a ramfs mount

Walks, `sys_open`, `sys_close`, `sys_mknod`, `sys_mkdir`, `sys_chmod` and
`sys_unlink` as they change one mount.  The other filesystems of a call are
whatever its caller finds there.
-/

/-- Who calls, and the filesystems around the mount at that time. -/
structure Caller where
  process : Process
  around : Namespace

namespace RamfsMount

variable (mp : Nat) (mount : RamfsMount)

/-- The attributes of a vnode of the mount, cached or not. -/
def attributes (ino : Nat) : VnodeAttributes :=
  match mount.vnodes ino, mount.inodeTable ino with
  | some vnode, _ =>
    { mode := vnode.mode, uid := vnode.uid, gid := vnode.gid }
  | none, some inode =>
    { mode := inode.mode, uid := inode.uid, gid := inode.gid }
  | none, none => { mode := 0, uid := 0, gid := 0 }

/-- What a walk sees: ramfs below the mountpoint `mp`, else what is around. -/
def view (around : Namespace) : Namespace where
  mountpoint := fun other =>
    if other = mp then
      { around.mountpoint mp with
        rootVnode := { mp := mp, ino := RAMFS_ROOT_INODE }
        ops := { creat := true, mknod := true, mkdir := true, unlink := true } }
    else
      around.mountpoint other
  vfsmountedhere := around.vfsmountedhere
  attributes := fun vnode =>
    if vnode.mp = mp then mount.attributes vnode.ino
    else around.attributes vnode
  opens := fun vnode =>
    if vnode.mp = mp then
      (mount.vnodes vnode.ino).isSome || vnode.ino ≤ mount.inodes
    else
      around.opens vnode
  lookup := fun vnode name =>
    if vnode.mp = mp then mount.ramfsLookup vnode.ino name
    else around.lookup vnode name
  readlink := fun vnode =>
    if vnode.mp = mp then none else around.readlink vnode

/-- The vnodes of the mount that lookups have found are cached. -/
def cacheFound : List Lookup → RamfsMount → Option RamfsMount
  | [], mount => some mount
  | lookup :: lookups, mount =>
    if lookup.directory.mp = mp then
      match mount.ramfsLookup lookup.directory.ino lookup.name with
      | none => cacheFound lookups mount
      | some ino => (mount.vnodeCache ino).bind (cacheFound lookups)
    else
      cacheFound lookups mount

/-- `vnode_get`, for what it leaves in the cache. -/
def walk (caller : Caller) (path : List Char)
    (followlink : Bool) : Option RamfsMount :=
  cacheFound mp
    (resolve (mount.view mp caller.around) caller.process followlink
      path).lookups
    mount

/--
The end of `sys_unlink`: `vnode->nlink--`, and `vnode_free` or `flush`.  The
directory is still held, also when it is the vnode itself.
-/
def dropLink (ino : Nat) (isDirectory : Bool) : Option RamfsMount :=
  match mount.vnodes ino with
  | none => none
  | some vnode =>
    let vnode :=
      { vnode with nlink := (vnode.nlink + (nlinkMod - 1)) % nlinkMod }
    let mount := mount.setVnode ino (some vnode)
    if vnode.nlink = 0 ∧ vnode.refcount = 0 ∧ ¬ isDirectory then
      mount.vnodeFree ino
    else
      mount.ramfsFlush ino

/-- What `sys_unlink` does with the vnode when the driver has returned 0. -/
def finishUnlink (caller : Caller) (path : List Char) (directory : Vnode)
    (after : RamfsMount) : Option RamfsMount :=
  match vnodeGet (mount.view mp caller.around) caller.process true path with
  | .error _ => none
  | .ok vnode =>
    if vnode.mp = mp then
      after.dropLink vnode.ino (directory = vnode)
    else
      some after

/--
The calls of `EntryCall`; `elsewhere` is what the driver of another filesystem
returns.
-/
def entry (caller : Caller) (path : List Char) (call : EntryCall)
    (elsewhere : Bool) : Option RamfsMount :=
  match call.run (mount.view mp caller.around) caller.process path with
  | .overrun => none
  | .refused _ => some mount
  | .opens _ => some mount
  | .performs directory name operation =>
    (if directory.mp = mp then
        mount.driverCall directory.ino name operation
      else
        some (mount, elsewhere)).bind fun (after, returnsZero) =>
      if operation = .unlink ∧ returnsZero then
        mount.finishUnlink mp caller path directory after
      else
        some after

/-- The permissions that `sys_open` asks for. -/
def openAccess (flags : Nat) : Nat :=
  (if (flags + 1) &&& 0x0001 = 0 then 0 else 4) |||
    (if (flags + 1) &&& 0x0002 = 0 then 0 else 2)

/--
`sys_open` from the vnode of the path on; `descriptor` tells whether there is a
free descriptor and the device can be opened.
-/
def openFile (caller : Caller) (path : List Char) (flags : Nat)
    (descriptor : Bool) : Option RamfsMount :=
  let ns := mount.view mp caller.around
  match vnodeGet ns caller.process true path with
  | .error _ => some mount
  | .ok vnode =>
    if ¬ doSysAccess ns vnode (openAccess flags) caller.process then
      some mount
    else if ¬ descriptor ∨ vnode.mp ≠ mp then
      some mount
    else
      (mount.vnodeHold vnode.ino).map fun mount =>
        { mount with
          files :=
            mount.files.alloc { ino := vnode.ino, type := ns.fileType vnode } }

/-- `sys_close` of the last descriptor of a file. -/
def closeFile (file : Nat) : Option RamfsMount :=
  match mount.files.cells file with
  | none => none
  | some closed =>
    let mount := { mount with files := mount.files.free file }
    if closed.type = S_IFSOCK ∨ closed.type = S_IFIFO then
      some mount
    else
      (mount.vnodeRel closed.ino).bind fun mount => mount.vnodeFree closed.ino

/-- The vnode of the mount that `sys_chmod` changes and flushes. -/
def chmodTarget (caller : Caller) (path : List Char) : Option Nat :=
  let ns := mount.view mp caller.around
  match vnodeGet ns caller.process true path with
  | .error _ => none
  | .ok vnode =>
    let owner := (ns.attributes vnode).uid
    if ns.readOnly vnode then
      none
    else if owner ≠ caller.process.uid ∧ owner ≠ caller.process.euid ∧
        caller.process.uid ≠ 0 ∧ caller.process.euid ≠ 0 then
      none
    else if vnode.mp = mp then
      some vnode.ino
    else
      none

/-- `sys_chmod` -/
def sysChmod (caller : Caller) (path : List Char)
    (mode : Nat) : Option RamfsMount :=
  match mount.chmodTarget mp caller path with
  | none => some mount
  | some ino =>
    match mount.vnodes ino with
    | none => none
    | some vnode =>
      let mode := (vnode.mode &&& S_IFMT) ||| (mode &&& 0o777)
      (mount.setVnode ino (some { vnode with mode := mode })).ramfsFlush ino

end RamfsMount

theorem type_of_chmod (old mode : Nat) :
    ((old &&& S_IFMT) ||| (mode &&& 0o777)) &&& S_IFMT = old &&& S_IFMT := by
  have disjoint : 0o777 &&& S_IFMT = 0 := rfl
  rw [Nat.and_or_distrib_right, Nat.and_assoc, Nat.and_self, Nat.and_assoc,
    disjoint, Nat.and_zero, Nat.or_zero]

/--
The calls; `hold` and `release` are those by which a process makes a vnode its
root or current directory and leaves it.
-/
inductive MountCall where
  | walk (caller : Caller) (path : List Char) (followlink : Bool)
  | entry (caller : Caller) (path : List Char) (call : EntryCall)
      (elsewhere : Bool)
  | openFile (caller : Caller) (path : List Char) (flags : Nat)
      (descriptor : Bool)
  | closeFile (file : Nat)
  | chmod (caller : Caller) (path : List Char) (mode : Nat)
  | hold (ino : Nat)
  | release (ino : Nat)

/-- The mount after a call; `none` where C leaves it undefined. -/
def MountCall.run (mp : Nat) (mount : RamfsMount) :
    MountCall → Option RamfsMount
  | .walk caller path followlink => mount.walk mp caller path followlink
  | .entry caller path call elsewhere =>
    mount.entry mp caller path call elsewhere
  | .openFile caller path flags descriptor =>
    mount.openFile mp caller path flags descriptor
  | .closeFile file => mount.closeFile file
  | .chmod caller path mode => mount.sysChmod mp caller path mode
  | .hold ino => mount.vnodeHold ino
  | .release ino => mount.vnodeRel ino

/-- A call as a transition of the mount at the mountpoint `mp`. -/
def MountStep (mp : Nat) (mount : RamfsMount) (call : MountCall)
    (next : RamfsMount) : Prop :=
  call.run mp mount = some next

/-- `ramfs_mount`, and `vnode_new` of the root. -/
def RamfsMount.mounted : RamfsMount :=
  let root := RamfsInode.new (S_IFDIR ||| 0o755) 0
  let table : RamfsMount :=
    { inodes := 1
      inodeTable := fun ino =>
        if ino = RAMFS_ROOT_INODE then some root else none
      vnodes := fun _ => none
      files := .empty
      log := [] }
  let filled :=
    (table.ramfsPutEntry RAMFS_ROOT_INODE RAMFS_ROOT_INODE
      ['.']).ramfsPutEntry RAMFS_ROOT_INODE RAMFS_ROOT_INODE ['.', '.']
  filled.setVnode RAMFS_ROOT_INODE
    ((filled.inodeTable RAMFS_ROOT_INODE).map fun inode =>
      { inode.opened with refcount := 1 })

end Idylla.Ramfs
