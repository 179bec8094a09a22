import Idylla.Lib.Heap
import Idylla.Lib.Run
import Idylla.Ramfs.Inode
import Idylla.Vfs.EntryCalls

namespace Idylla.Ramfs

open Idylla.Lib Idylla.Vfs

/-!
# Calls on a ramfs mount

The inode table of one mount, the vnodes that the mount caches and the files
that are open on it, under the calls of `kernel/vfs.c`.  A walk along a path is
a call of its own: before it goes on, every other call has cached what its
walks find.  `none` stands for what C leaves undefined.
-/

/--
`struct vnode`, the fields that `ramfs_open` fills in.  References that a call
holds only while it runs are left out of `refcount`.
-/
structure CachedVnode where
  mode : Nat
  uid : Nat
  gid : Nat
  nlink : Nat
  size : Nat
  rdev : Nat
  refcount : Nat

/-- `struct file`, less what only reading and writing use. -/
structure RamfsFile where
  ino : Nat
  type : Nat

/-- What a call that returns 0 has done to the entries of a directory. -/
inductive EntryEvent where
  | made (dir : Nat) (name : List Char) (ino : Nat)
  | removed (dir : Nat) (name : List Char)

/--
A mount with `super->inode_table` by number.  `log` records what has been done
to the entries of directories.
-/
structure RamfsMount where
  inodes : Nat
  inodeTable : Nat → Option RamfsInode
  vnodes : Nat → Option CachedVnode
  files : Heap RamfsFile
  log : List EntryEvent

/-- `ramfs_open`, behind the test of the number. -/
def RamfsInode.opened (inode : RamfsInode) : CachedVnode where
  mode := inode.mode
  uid := inode.uid
  gid := inode.gid
  nlink := inode.nlink
  size := inode.size
  rdev := inode.rdev
  refcount := 0

/--
`ramfs_flush`.  The size is copied before it is compared, so that the data are
never reallocated.
-/
def RamfsInode.flushed (inode : RamfsInode)
    (vnode : CachedVnode) : RamfsInode :=
  { inode with
    mode := vnode.mode
    uid := vnode.uid
    gid := vnode.gid
    size := vnode.size
    nlink := vnode.nlink
    rdev := vnode.rdev }

namespace RamfsMount

variable (mount : RamfsMount)

/-- One slot of the inode table replaced. -/
def setInode (ino : Nat) (inode : Option RamfsInode) : RamfsMount :=
  { mount with
    inodeTable := fun other =>
      if other = ino then inode else mount.inodeTable other }

/-- One vnode of the cache replaced. -/
def setVnode (ino : Nat) (vnode : Option CachedVnode) : RamfsMount :=
  { mount with
    vnodes := fun other => if other = ino then vnode else mount.vnodes other }

/-- The number that `ramfs_put_inode` gives to an inode. -/
def freshNumber : Nat :=
  match
    (List.range mount.inodes).find? fun i =>
      (mount.inodeTable (i + 1)).isNone with
  | some i => i + 1
  | none => mount.inodes + 1

/-- `ramfs_put_inode` -/
def putInode (inode : RamfsInode) : RamfsMount :=
  { mount.setInode mount.freshNumber (some inode) with
    inodes := max mount.inodes mount.freshNumber }

/-- An inode changed; nothing where there is none. -/
def modifyInode (ino : Nat) (change : RamfsInode → RamfsInode) : RamfsMount :=
  mount.setInode ino ((mount.inodeTable ino).map change)

/-- `ino->nlink++` -/
def addLink (ino : Nat) : RamfsMount :=
  mount.modifyInode ino fun inode =>
    { inode with nlink := (inode.nlink + 1) % nlinkMod }

/-- `ramfs_put_entry` -/
def ramfsPutEntry (parent ino : Nat) (name : List Char) : RamfsMount :=
  (mount.addLink ino).modifyInode parent fun inode =>
    inode.putEntry { name := name, inode := ino }

/-- The inode is there and is a directory. -/
def holdsDir (ino : Nat) : Bool :=
  match mount.inodeTable ino with
  | some inode => inode.mode &&& S_IFMT == S_IFDIR
  | none => false

/-- What a call has done is recorded where it was done to a directory. -/
def record (dir : Nat) (event : EntryEvent) : RamfsMount :=
  { mount with
    log := if mount.holdsDir dir then mount.log ++ [event] else mount.log }

/-- `ramfs_creat` and `ramfs_mknod`, which differ in the new inode. -/
def ramfsCreate (parent : Nat) (name : List Char)
    (inode : RamfsInode) : RamfsMount :=
  let num := mount.freshNumber
  ((mount.putInode inode).ramfsPutEntry parent num name).record parent
    (.made parent name num)

/-- `ramfs_creat` -/
def ramfsCreat (parent : Nat) (name : List Char) (mode : Nat) : RamfsMount :=
  mount.ramfsCreate parent name (.new (S_IFREG ||| mode &&& 0o777) 0)

/-- `ramfs_mknod` -/
def ramfsMknod (parent : Nat) (name : List Char)
    (mode rdev : Nat) : RamfsMount :=
  mount.ramfsCreate parent name (.new mode rdev)

/-- `ramfs_mkdir`, up to the entries `.` and `..` of the new directory. -/
def newDirectory (parent mode : Nat) : RamfsMount :=
  let num := mount.freshNumber
  ((mount.putInode (.new (S_IFDIR ||| mode) 0)).ramfsPutEntry num num
    ['.']).ramfsPutEntry num parent ['.', '.']

/-- `ramfs_mkdir` -/
def ramfsMkdir (parent : Nat) (name : List Char) (mode : Nat) : RamfsMount :=
  let num := mount.freshNumber
  ((mount.newDirectory parent mode).ramfsPutEntry parent num name).record
    parent (.made parent name num)

/-- `ramfs_lookup` in the inode of a vnode. -/
def ramfsLookup (dir : Nat) (name : List Char) : Option Nat :=
  (mount.inodeTable dir).bind fun inode => inode.lookup name

/-- `ramfs_unlink` in the inode of a vnode, with whether it returns 0. -/
def ramfsUnlink (parent : Nat) (inode : RamfsInode)
    (name : List Char) : RamfsMount × Bool :=
  match inode.unlink name with
  | none => (mount, false)
  | some after =>
    ((mount.record parent (.removed parent name)).setInode parent
      (some after), true)

/-- The operation of the driver that a call ends in. -/
def driverCall (dir : Nat) (name : List Char)
    (operation : EntryOperation) : Option (RamfsMount × Bool) :=
  (mount.inodeTable dir).map fun inode =>
    match operation with
    | .creat mode _ _ => (mount.ramfsCreat dir name mode, true)
    | .mknod mode dev _ _ => (mount.ramfsMknod dir name mode dev, true)
    | .mkdir mode _ _ => (mount.ramfsMkdir dir name mode, true)
    | .unlink => mount.ramfsUnlink dir inode name

/-- `vnode_lookup` and else `vnode_new`, for a number that a walk has found. -/
def vnodeCache (ino : Nat) : Option RamfsMount :=
  match mount.vnodes ino with
  | some _ => some mount
  | none =>
    if mount.inodes < ino then
      some mount
    else
      match mount.inodeTable ino with
      | none => none
      | some inode => some (mount.setVnode ino (some inode.opened))

/-- `ramfs_flush` of a cached vnode. -/
def ramfsFlush (ino : Nat) : Option RamfsMount :=
  match mount.vnodes ino, mount.inodeTable ino with
  | some vnode, some inode =>
    some (mount.setInode ino (some (inode.flushed vnode)))
  | _, _ => none

/-- `vnode_free` with `ramfs_close`. -/
def vnodeFree (ino : Nat) : Option RamfsMount :=
  match mount.vnodes ino, mount.inodeTable ino with
  | some vnode, some inode =>
    if 0 < vnode.refcount then
      some mount
    else
      let inode := inode.flushed vnode
      some
        ((mount.setVnode ino none).setInode ino
          (if inode.nlink = 0 then none else some inode))
  | _, _ => none

/-- `VNODE_HOLD` -/
def vnodeHold (ino : Nat) : Option RamfsMount :=
  (mount.vnodes ino).map fun vnode =>
    mount.setVnode ino (some { vnode with refcount := vnode.refcount + 1 })

/-- `VNODE_REL` -/
def vnodeRel (ino : Nat) : Option RamfsMount :=
  (mount.vnodes ino).bind fun vnode =>
    if vnode.refcount = 0 then none
    else
      some
        (mount.setVnode ino
          (some { vnode with refcount := vnode.refcount - 1 }))

end RamfsMount

end Idylla.Ramfs
