import Idylla.Lib.Counting
import Idylla.Lib.Heap
import Idylla.Ramfs.DirectoryMap
import Idylla.Ramfs.FileData

namespace Idylla.Ramfs

open Idylla.Lib Idylla.Vfs

/-!
# Files of a ramfs volume

The calls of `kernel/vfs.c` on the regular files of a ramfs mount, one after
another.  A call names a file by its directory and its name in it; directories
are made, but none is closed, flushed or removed.  `none` stands for what C
leaves undefined, and for a call on the name of a directory, which is none of
these calls.  Where a call tests modes, users or `MS_RDONLY`, the error is one
of its arguments.
-/

/-- `RAMFS_DEFAULT_SIZE` -/
def RAMFS_DEFAULT_SIZE : Nat := 0x400000

/--
An inode of the table.  A regular file has the number of its `kalloc`, which
tells it from an inode that has had its slot before.
-/
inductive RamfsSlot where
  | directory (inode : RamfsInode)
  | file (id : Nat) (inode : FileInode)

/--
`struct vnode` of a regular file, with the `kalloc` that it comes from and that
of the inode that `vnode->data` points to.
-/
structure FileVnode where
  mode : Nat
  uid : Nat
  gid : Nat
  nlink : Nat
  size : Int
  rdev : Nat
  refcount : Nat
  serial : Nat
  inode : Nat

/-- `struct file`; `inode` is the one that was opened. -/
structure OpenedFile where
  ino : Nat
  vnode : Nat
  inode : Nat

/--
A mount with its inode table, the vnodes that it caches and the open files.
`names` says which inode a name has been given to, and `freed` lists the inodes
whose slots have been cleared.
-/
structure RamfsVolume where
  space : RamfsSpace
  inodes : Nat
  inodeTable : Nat → Option RamfsSlot
  vnodes : Nat → Option FileVnode
  files : Heap OpenedFile
  serials : Nat
  ids : Nat
  names : Nat → List Char → Option Nat
  freed : List Nat

/-- What a call leaves and returns. -/
structure RamfsOutcome where
  volume : RamfsVolume
  result : Except Errno Nat

/-- The vnode that `ramfs_open` fills in, held by the walk that needs it. -/
def FileInode.opened (inode : FileInode) (id serial : Nat) : FileVnode where
  mode := inode.mode
  uid := inode.uid
  gid := inode.gid
  nlink := inode.nlink
  size := inode.size
  rdev := inode.rdev
  refcount := 1
  serial := serial
  inode := id

/-- `ramfs_flush`, where the size is copied before it is compared. -/
def FileInode.flushed (inode : FileInode) (vnode : FileVnode) : FileInode :=
  { inode with
    mode := vnode.mode
    uid := vnode.uid
    gid := vnode.gid
    size := vnode.size
    nlink := vnode.nlink
    rdev := vnode.rdev }

namespace RamfsVolume

variable (volume : RamfsVolume)

/-- One slot of the inode table replaced. -/
def setSlot (num : Nat) (slot : Option RamfsSlot) : RamfsVolume :=
  { volume with
    inodeTable := fun other =>
      if other = num then slot else volume.inodeTable other }

/-- One vnode of the cache replaced. -/
def setVnode (num : Nat) (vnode : Option FileVnode) : RamfsVolume :=
  { volume with
    vnodes := fun other => if other = num then vnode else volume.vnodes other }

/-- What a name of a directory has been given to. -/
def setName (dir : Nat) (name : List Char) (id : Option Nat) : RamfsVolume :=
  { volume with
    names := fun other also =>
      if other = dir ∧ also = name then id else volume.names other also }

/-- The directory in a slot. -/
def directory (dir : Nat) : Option RamfsInode :=
  match volume.inodeTable dir with
  | some (.directory inode) => some inode
  | _ => none

/-- `vnode->data` of a vnode of the cache. -/
def deref (num : Nat) (vnode : FileVnode) : Option FileInode :=
  match volume.inodeTable num with
  | some (.file id inode) => if id = vnode.inode then some inode else none
  | _ => none

/-- The number that `ramfs_put_inode` gives to an inode. -/
def freshNumber : Nat :=
  match
    (List.range volume.inodes).find? fun i =>
      (volume.inodeTable (i + 1)).isNone with
  | some i => i + 1
  | none => volume.inodes + 1

/--
`ramfs_creat` and `ramfs_mknod` in a directory, which differ in the new inode.
-/
def ramfsCreate (dir : Nat) (parent : RamfsInode) (name : List Char)
    (inode : FileInode) : RamfsVolume :=
  let num := volume.freshNumber
  let linked := { inode with nlink := (inode.nlink + 1) % nlinkMod }
  let entry := { name := name, inode := num }
  ({ volume with
      inodes := max volume.inodes num
      ids := volume.ids + 1 }.setSlot num
    (some (.file volume.ids linked))).setSlot dir
      (some (.directory (parent.putEntry entry)))
    |>.setName dir name (some volume.ids)

/-- `ramfs_mkdir` in a directory. -/
def ramfsMkdir (dir : Nat) (parent : RamfsInode) (name : List Char)
    (mode uid gid : Nat) : RamfsVolume :=
  let num := volume.freshNumber
  let inode :=
    { RamfsInode.new (S_IFDIR ||| mode) 0 with
      uid := uid
      gid := gid
      nlink := 2 }
  let made :=
    (inode.putEntry { name := ['.'], inode := num }).putEntry
      { name := ['.', '.'], inode := dir }
  let linked := { parent with nlink := (parent.nlink + 1) % nlinkMod }
  let entry := { name := name, inode := num }
  ({ volume with inodes := max volume.inodes num }.setSlot num
    (some (.directory made))).setSlot dir
      (some (.directory (linked.putEntry entry)))
    |>.setName dir name none

/-- `ramfs_flush` -/
def ramfsFlush (num : Nat) (vnode : FileVnode) : Option RamfsVolume :=
  (volume.deref num vnode).map fun inode =>
    volume.setSlot num (some (.file vnode.inode (inode.flushed vnode)))

/-- `ramfs_close`, which flushes the vnode before it tests the links. -/
def ramfsClose (num : Nat) (vnode : FileVnode) : Option RamfsVolume :=
  (volume.deref num vnode).map fun inode =>
    if vnode.nlink = 0 then
      { volume.setSlot num none with freed := volume.freed ++ [vnode.inode] }
    else
      volume.setSlot num (some (.file vnode.inode (inode.flushed vnode)))

/--
`vnode_get` of a name, with the number of the vnode that it returns and holds.
-/
def vnodeGet (dir : Nat)
    (name : List Char) : Option (Except Errno (RamfsVolume × Nat)) :=
  (volume.directory dir).bind fun parent =>
    match parent.lookup name with
    | none => some (.error .ENOENT)
    | some num =>
      match volume.vnodes num with
      | some vnode =>
        some
          (.ok
            (volume.setVnode num
              (some { vnode with refcount := vnode.refcount + 1 }), num))
      | none =>
        if volume.inodes < num then
          some (.error Errno.EIO)
        else
          match volume.inodeTable num with
          | some (.file id inode) =>
            some
              (.ok
                ({ volume with
                    serials := volume.serials + 1 }.setVnode num
                  (some (inode.opened id volume.serials)), num))
          | _ => none

/-- `VNODE_REL` -/
def vnodeRel (num : Nat) : Option RamfsVolume :=
  (volume.vnodes num).bind fun vnode =>
    if vnode.refcount = 0 then none
    else
      some
        (volume.setVnode num
          (some { vnode with refcount := vnode.refcount - 1 }))

/-- `vnode_free` -/
def vnodeFree (num : Nat) : Option RamfsVolume :=
  (volume.vnodes num).bind fun vnode =>
    if 0 < vnode.refcount then some volume
    else (volume.setVnode num none).ramfsClose num vnode

/-- A call that only releases the vnode it has got. -/
def release (num : Nat) (result : Except Errno Nat) : Option RamfsOutcome :=
  (volume.vnodeRel num).map fun volume =>
    { volume := volume, result := result }

/-- `sys_open`, from the vnode on. -/
def openVnode (num : Nat) (granted hasSlot : Bool) : Option RamfsOutcome :=
  if granted = false then volume.release num (.error .EACCES)
  else if hasSlot = false then volume.release num (.error .EMFILE)
  else
    (volume.vnodes num).map fun vnode =>
      { volume :=
          { volume with
            files :=
              volume.files.alloc
                { ino := num, vnode := vnode.serial, inode := vnode.inode } }
        result := .ok volume.files.next }

/--
`sys_open`; `refused` is the error of a creation, `granted` the outcome of the
test of the file, and `hasSlot` that of the search for a free descriptor.
-/
def sysOpen
    (dir : Nat) (name : List Char) (creates exclusive : Bool) (mode : Nat)
    (refused : Option Errno) (granted hasSlot : Bool) : Option RamfsOutcome :=
  (volume.vnodeGet dir name).bind fun
    | .ok (held, num) =>
      if exclusive then held.release num (.error .EEXIST)
      else held.openVnode num granted hasSlot
    | .error err =>
      if err = .ENOENT ∧ creates = true then
        match refused with
        | some err => some { volume := volume, result := .error err }
        | none =>
          (volume.directory dir).bind fun parent =>
            let created :=
              volume.ramfsCreate dir parent name
                (FileInode.new (S_IFREG ||| mode &&& 0o777) 0)
            (created.vnodeGet dir name).bind fun
              | .ok (held, num) => held.openVnode num granted hasSlot
              | .error err =>
                some { volume := created, result := .error err }
      else
        some { volume := volume, result := .error err }

/-- `sys_mknod`, where `mode` is that of a regular file, less the umask. -/
def sysMknod (dir : Nat) (name : List Char) (mode rdev uid gid : Nat)
    (refused : Option Errno) : Option RamfsOutcome :=
  (volume.vnodeGet dir name).bind fun
    | .ok (held, num) => held.release num (.error .EEXIST)
    | .error _ =>
      match refused with
      | some err => some { volume := volume, result := .error err }
      | none =>
        (volume.directory dir).map fun parent =>
          { volume :=
              volume.ramfsCreate dir parent name
                { FileInode.new mode rdev with uid := uid, gid := gid }
            result := .ok 0 }

/-- `sys_mkdir`, where `mode` is less the umask. -/
def sysMkdir (dir : Nat) (name : List Char) (mode uid gid : Nat)
    (refused : Option Errno) : Option RamfsOutcome :=
  (volume.vnodeGet dir name).bind fun
    | .ok (held, num) => held.release num (.error .EEXIST)
    | .error _ =>
      match refused with
      | some err => some { volume := volume, result := .error err }
      | none =>
        (volume.directory dir).map fun parent =>
          { volume := volume.ramfsMkdir dir parent name mode uid gid
            result := .ok 0 }

/-- `sys_stat`, which reads the vnode. -/
def sysStat (dir : Nat) (name : List Char) : Option RamfsOutcome :=
  (volume.vnodeGet dir name).bind fun
    | .ok (held, num) => held.release num (.ok 0)
    | .error err => some { volume := volume, result := .error err }

/-- `sys_chmod` -/
def sysChmod (dir : Nat) (name : List Char) (mode : Nat)
    (refused : Option Errno) : Option RamfsOutcome :=
  (volume.vnodeGet dir name).bind fun
    | .error err => some { volume := volume, result := .error err }
    | .ok (held, num) =>
      match refused with
      | some err => held.release num (.error err)
      | none =>
        (held.vnodes num).bind fun vnode =>
          let vnode :=
            { vnode with
              mode := vnode.mode &&& S_IFMT ||| mode &&& 0o777 }
          ((held.setVnode num (some vnode)).ramfsFlush num vnode).bind
            fun flushed => flushed.release num (.ok 0)

/-- The vnode behind a descriptor. -/
def fileVnode (file : OpenedFile) : Option FileVnode :=
  (volume.vnodes file.ino).filter fun vnode => vnode.serial == file.vnode

/-- `sys_read` with the position of the file, and the bytes that it reads. -/
def sysRead (fd len offset : Nat) : Option (Except Errno (List (BitVec 8))) :=
  match volume.files.cells fd with
  | none => some (.error .EBADF)
  | some file =>
    (volume.fileVnode file).bind fun vnode =>
      (volume.deref file.ino vnode).bind fun inode =>
        (ramfsRead inode len offset).map .ok

/--
`sys_write` with the position of the file; `refused` is also the error of a
descriptor that is not open for writing.
-/
def sysWrite (fd : Nat) (buf : List (BitVec 8)) (offset : Nat)
    (fresh : Memory (BitVec 8))
    (refused : Option Errno) : Option RamfsOutcome :=
  match volume.files.cells fd, refused with
  | none, _ => some { volume := volume, result := .error .EBADF }
  | some _, some err => some { volume := volume, result := .error err }
  | some file, none =>
    (volume.fileVnode file).bind fun vnode =>
      (volume.deref file.ino vnode).bind fun inode =>
        (ramfsWrite volume.space inode buf offset fresh).map fun written =>
          { volume :=
              ({ volume with space := written.space }.setSlot file.ino
                (some (.file vnode.inode written.inode))).setVnode file.ino
                (some
                  { vnode with
                    size := written.vnodeSize.getD vnode.size })
            result := written.result }

/-- `sys_close`, where every descriptor has its own `struct file`. -/
def sysClose (fd : Nat) : Option RamfsOutcome :=
  match volume.files.cells fd with
  | none => some { volume := volume, result := .error .EBADF }
  | some file =>
    (volume.fileVnode file).bind fun _ =>
      ({ volume with files := volume.files.free fd }.vnodeRel file.ino).bind
        fun released =>
          (released.vnodeFree file.ino).map fun closed =>
            { volume := closed, result := .ok 0 }

/-- `sys_unlink` -/
def sysUnlink (dir : Nat) (name : List Char)
    (refused : Option Errno) : Option RamfsOutcome :=
  (volume.vnodeGet dir name).bind fun
    | .error err => some { volume := volume, result := .error err }
    | .ok (held, num) =>
      match refused with
      | some err => held.release num (.error err)
      | none =>
        (held.directory dir).bind fun parent =>
          match parent.unlink name with
          | none => held.release num (.error .ENOENT)
          | some after =>
            let unlinked :=
              (held.setSlot dir (some (.directory after))).setName dir name none
            (unlinked.vnodes num).bind fun vnode =>
              let vnode :=
                { vnode with
                  nlink := (vnode.nlink + (nlinkMod - 1)) % nlinkMod }
              ((unlinked.setVnode num (some vnode)).vnodeRel num).bind
                fun released =>
                  (if vnode.nlink = 0 ∧ vnode.refcount = 1 then
                    released.vnodeFree num
                  else
                    released.ramfsFlush num vnode).map fun done =>
                    { volume := done, result := .ok 0 }

/-- The mount that `ramfs_mount` leaves. -/
def mounted : RamfsVolume where
  space := { size := RAMFS_DEFAULT_SIZE, used := 0 }
  inodes := 1
  inodeTable := fun num =>
    if num = RAMFS_ROOT_INODE then
      some
        (.directory
          (({ RamfsInode.new (S_IFDIR ||| 0o755) 0 with
              nlink := 2 }.putEntry
            { name := ['.'], inode := RAMFS_ROOT_INODE }).putEntry
              { name := ['.', '.'], inode := RAMFS_ROOT_INODE }))
    else none
  vnodes := fun _ => none
  files := .empty
  serials := 0
  ids := 0
  names := fun _ _ => none
  freed := []

end RamfsVolume

/-- The calls, with the outcomes that they take from elsewhere. -/
inductive VolumeCall where
  | sysOpen (dir : Nat) (name : List Char) (creates exclusive : Bool)
      (mode : Nat)
      (refused : Option Errno)
      (granted hasSlot : Bool)
  | sysMknod (dir : Nat) (name : List Char) (mode rdev uid gid : Nat)
      (refused : Option Errno)
  | sysMkdir (dir : Nat) (name : List Char) (mode uid gid : Nat)
      (refused : Option Errno)
  | sysStat (dir : Nat) (name : List Char)
  | sysChmod (dir : Nat) (name : List Char) (mode : Nat)
      (refused : Option Errno)
  | sysRead (fd len offset : Nat)
  | sysWrite (fd : Nat) (buf : List (BitVec 8)) (offset : Nat)
      (fresh : Memory (BitVec 8))
      (refused : Option Errno)
  | sysClose (fd : Nat)
  | sysUnlink (dir : Nat) (name : List Char) (refused : Option Errno)

/-- What a call does. -/
def VolumeCall.run (volume : RamfsVolume) : VolumeCall → Option RamfsOutcome
  | .sysOpen dir name creates exclusive mode refused granted hasSlot =>
    volume.sysOpen dir name creates exclusive mode refused granted hasSlot
  | .sysMknod dir name mode rdev uid gid refused =>
    volume.sysMknod dir name mode rdev uid gid refused
  | .sysMkdir dir name mode uid gid refused =>
    volume.sysMkdir dir name mode uid gid refused
  | .sysStat dir name => volume.sysStat dir name
  | .sysChmod dir name mode refused => volume.sysChmod dir name mode refused
  | .sysRead fd len offset =>
    (volume.sysRead fd len offset).map fun bytes =>
      { volume := volume, result := bytes.map List.length }
  | .sysWrite fd buf offset fresh refused =>
    volume.sysWrite fd buf offset fresh refused
  | .sysClose fd => volume.sysClose fd
  | .sysUnlink dir name refused => volume.sysUnlink dir name refused

/-- One call as a transition. -/
def VolumeStep (volume : RamfsVolume) (call : VolumeCall)
    (after : RamfsVolume) : Prop :=
  ∃ outcome, call.run volume = some outcome ∧ outcome.volume = after

end Idylla.Ramfs
