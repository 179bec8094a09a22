import Idylla.Lib.Contracts
import Idylla.Lib.Heap
import Idylla.Vfs.VnodeGet

namespace Idylla.Vfs

open Idylla.Lib

/-!
# Vnodes with their reference counts

`vnode_get` of `kernel/vfs.c` once more, here with the vnodes in memory: the
lists of the mountpoints, the pointers between vnodes and mountpoints and the
reference counts.  A pointer to a vnode that has been freed, or a null pointer
that the code follows, leaves the computation undefined.
-/

/-- `struct vnode`, less what the code here does not use. -/
structure VnodeCell where
  /-- `mp` and `ino`. -/
  vnode : Vnode
  nlink : BitVec 16
  refcount : Int
  /-- `mutex` is taken. -/
  locked : Bool
  vfsmountedhere : Option Nat
  deriving DecidableEq

/-- `struct mountpoint`; its list begins with the vnode added last. -/
structure MountCell where
  rootVnode : Nat
  parentVnode : Option Nat
  vnodeList : List Nat

/-- The vnodes and the mountpoints. -/
structure VnodeTable where
  vnodes : Heap VnodeCell
  mountpoints : Nat → MountCell

/-- The pointers to the vnodes of a process. -/
structure ProcessVnodes where
  vnodeRoot : Nat
  vnodeCurrent : Nat

/-- What `vnode_new` allocates, with the links that the driver finds. -/
def VnodeCell.new (vnode : Vnode) (nlink : BitVec 16) : VnodeCell where
  vnode := vnode
  nlink := nlink
  refcount := 1
  locked := false
  vfsmountedhere := none

/-- A change of `vnode->refcount`. -/
def addRef (vnodes : Heap VnodeCell) (vnode : Nat)
    (change : Int) : Heap VnodeCell :=
  vnodes.modify vnode fun cell =>
    { cell with refcount := cell.refcount + change }

/-- The loop of `vnode_lookup` over a list of vnodes. -/
def cachedVnode (vnodes : Heap VnodeCell)
    (ino : Nat) : List Nat → Option (Option Nat)
  | [] => some none
  | vnode :: rest =>
    match vnodes.cells vnode with
    | none => none
    | some cell =>
      if cell.vnode.ino = ino then some (some vnode)
      else cachedVnode vnodes ino rest

/-- What a search of a list finds. -/
def IsCached (vnodes : Heap VnodeCell) (ino : Nat)
    (list : List Nat) : Option Nat → Prop
  | none =>
    ∀ vnode ∈ list, ∀ cell, vnodes.cells vnode = some cell →
      cell.vnode.ino ≠ ino
  | some vnode =>
    vnode ∈ list ∧ ∃ cell, vnodes.cells vnode = some cell ∧ cell.vnode.ino = ino

section Search

variable {vnodes : Heap VnodeCell} {ino : Nat} {list : List Nat}

theorem cachedVnode_isCached {found : Option Nat}
    (searched : cachedVnode vnodes ino list = some found) :
    IsCached vnodes ino list found := by
  induction list with
  | nil =>
    cases searched
    intro vnode inNil
    cases inNil
  | cons first rest ih =>
    rw [cachedVnode] at searched
    cases isCell : vnodes.cells first with
    | none =>
      rw [isCell] at searched
      cases searched
    | some cell =>
      rw [isCell] at searched
      dsimp only at searched
      split at searched
      next isIno =>
        cases searched
        exact ⟨List.mem_cons_self, cell, isCell, isIno⟩
      next isOther =>
        have inRest := ih searched
        cases found with
        | some vnode =>
          exact ⟨List.mem_cons_of_mem _ inRest.1, inRest.2⟩
        | none =>
          intro vnode inList other isOtherCell
          rcases List.mem_cons.mp inList with rfl | inRestList
          · rw [isCell] at isOtherCell
            rw [← Option.some.inj isOtherCell]
            exact isOther
          · exact inRest vnode inRestList other isOtherCell

theorem cachedVnode_defined
    (areLive : ∀ vnode ∈ list, ∃ cell, vnodes.cells vnode = some cell) :
    ∃ found, cachedVnode vnodes ino list = some found := by
  induction list with
  | nil => exact ⟨none, rfl⟩
  | cons first rest ih =>
    obtain ⟨cell, isCell⟩ := areLive first List.mem_cons_self
    obtain ⟨found, searched⟩ := ih
      fun vnode inside => areLive vnode (List.mem_cons_of_mem _ inside)
    rw [cachedVnode, isCell]
    dsimp only
    split
    · exact ⟨some first, rfl⟩
    · exact ⟨found, searched⟩

end Search

namespace VnodeTable

variable (table : VnodeTable)

/-- The reference count changed. -/
def addRef (vnode : Nat) (change : Int) : VnodeTable :=
  { table with vnodes := Vfs.addRef table.vnodes vnode change }

/-- A new vnode at the head of its mountpoint's list. -/
def addNew (cell : VnodeCell) : VnodeTable where
  vnodes := table.vnodes.alloc cell
  mountpoints := fun mp =>
    if mp = cell.vnode.mp then
      { table.mountpoints mp with
        vnodeList := table.vnodes.next :: (table.mountpoints mp).vnodeList }
    else
      table.mountpoints mp

end VnodeTable

/-- A computation over the table, undefined at a dangling pointer. -/
abbrev VnodeM := StateT VnodeTable Option

/-- `*vnode`. -/
def readVnode (vnode : Nat) : VnodeM VnodeCell := fun table =>
  (table.vnodes.cells vnode).map fun cell => (cell, table)

/-- `*mp`. -/
def readMountpoint (mp : Nat) : VnodeM MountCell := fun table =>
  some (table.mountpoints mp, table)

/-- `VNODE_HOLD`. -/
def VNODE_HOLD (vnode : Nat) : VnodeM Unit := fun table =>
  (table.vnodes.cells vnode).map fun _ => ((), table.addRef vnode 1)

/-- `VNODE_REL`. -/
def VNODE_REL (vnode : Nat) : VnodeM Unit := fun table =>
  (table.vnodes.cells vnode).map fun _ => ((), table.addRef vnode (-1))

/-- `vnode_lookup`. -/
def vnodeLookup (mp ino : Nat) : VnodeM (Option Nat) := fun table =>
  (cachedVnode table.vnodes ino (table.mountpoints mp).vnodeList).map
    fun found =>
      match found with
      | none => (none, table)
      | some vnode => (some vnode, table.addRef vnode 1)

section Calls

variable (ns : Namespace) (nlink : Vnode → BitVec 16)

/--
`vnode_new`.  The vnode of a driver that cannot open the inode is freed again.
-/
def vnodeNew (vnode : Vnode) : VnodeM (Option Nat) := fun table =>
  if ns.opens vnode then
    some (some table.vnodes.next, table.addNew (.new vnode (nlink vnode)))
  else
    some (none, table)

namespace Counted

/-- From the root of a mounted filesystem `..` leaves to the parent vnode. -/
def leaveMount (vnode : Nat) (name : List Char) : VnodeM Nat := do
  let cell ← readVnode vnode
  let mountpoint ← readMountpoint cell.vnode.mp
  if name = dotDot ∧ vnode = mountpoint.rootVnode then
    match mountpoint.parentVnode with
    | none => return vnode
    | some parent =>
      VNODE_REL vnode
      VNODE_HOLD parent
      return parent
  else
    return vnode

/-- The root of what is mounted on a directory is held in its place. -/
def enterMount (newVnode : Nat) : VnodeM Nat := do
  let cell ← readVnode newVnode
  match cell.vfsmountedhere with
  | none => return newVnode
  | some mp =>
    let mountpoint ← readMountpoint mp
    VNODE_HOLD mountpoint.rootVnode
    let root ← readVnode mountpoint.rootVnode
    let itsMountpoint ← readMountpoint root.vnode.mp
    match itsMountpoint.parentVnode with
    | none => failure
    | some parent =>
      VNODE_REL parent
      return mountpoint.rootVnode

/-- The vnode of an inode from the cache, or a new one. -/
def cacheVnode (vnode : Vnode) : VnodeM (Option Nat) := do
  match ← vnodeLookup vnode.mp vnode.ino with
  | some newVnode => return some newVnode
  | none => vnodeNew ns nlink vnode

/-- Looks a name up, caches its vnode and enters what is mounted on it. -/
def findVnode (vnode : Nat) (name : List Char) :
    VnodeM (Except Errno Nat) := do
  let cell ← readVnode vnode
  match ns.lookup cell.vnode name with
  | none =>
    VNODE_REL vnode
    return .error .ENOENT
  | some ino =>
    match ← cacheVnode ns nlink { mp := cell.vnode.mp, ino := ino } with
    | none =>
      VNODE_REL vnode
      return .error Errno.EIO
    | some newVnode =>
      let entered ← enterMount newVnode
      return .ok entered

/-- How one component of a path ends, with a pointer that is held. -/
inductive Component where
  | stop (result : Except Errno Nat)
  | link (start : Nat) (path : List Char)
  | enter (newVnode : Nat)

variable (process : Process) (pointers : ProcessVnodes) (followlink : Bool)

/-- Both vnodes are released and the walk fails. -/
def fail (vnode newVnode : Nat) (errno : Errno) : VnodeM Component := do
  VNODE_REL vnode
  VNODE_REL newVnode
  return .stop (.error errno)

/-- From the test for a symbolic link on. -/
def inspect (vnode newVnode : Nat) (isLast : Bool) : VnodeM Component := do
  let cell ← readVnode vnode
  let newCell ← readVnode newVnode
  if ns.isLnk newCell.vnode ∧ followlink then
    match ns.readlink newCell.vnode with
    | none => fail vnode newVnode .ENOTSUP
    | some (.error err) => fail vnode newVnode err
    | some (.ok path) =>
      VNODE_REL newVnode
      if path[0]? = some '/' then
        VNODE_REL vnode
        VNODE_HOLD pointers.vnodeRoot
        return .link pointers.vnodeRoot path
      else
        return .link vnode path
  else if isLast then
    VNODE_REL vnode
    return .stop (.ok newVnode)
  else if ¬ ns.isDir cell.vnode then
    fail vnode newVnode .ENOTDIR
  else if ¬ doSysAccess ns newCell.vnode 1 process then
    fail vnode newVnode .EACCES
  else
    VNODE_REL vnode
    return .enter newVnode

/-- The body of the walk from the lookup on. -/
def visit (vnode : Nat) (name : List Char) (isLast : Bool) :
    VnodeM Component := do
  match ← findVnode ns nlink vnode name with
  | .error err => return .stop (.error err)
  | .ok newVnode =>
    inspect ns process pointers followlink vnode newVnode isLast

/-- How a walk over one component table ends. -/
inductive Outcome where
  | done (result : Except Errno Nat)
  | link (start : Nat) (path : List Char)

/-- The inner loop of `vnode_get`. -/
def walkTable : List (List Char) → Nat → VnodeM Outcome
  | [], vnode => return .done (.ok vnode)
  | name :: rest, start => do
      let vnode ← leaveMount start name
      if name = dotDot ∧ vnode = pointers.vnodeRoot then
        walkTable rest vnode
      else
        match ← visit ns nlink process pointers followlink vnode name
            rest.isEmpty with
        | .stop result => return .done result
        | .link target path => return .link target path
        | .enter newVnode => walkTable rest newVnode

/-- The outer loop of `vnode_get`. -/
def followLinks : Nat → Nat → List Char → VnodeM (Except Errno Nat)
  | 0, vnode, _ => do
      VNODE_REL vnode
      return .error .ELOOP
  | tries + 1, vnode, path => do
      match ← walkTable ns nlink process pointers followlink
          (strExplode path '/') vnode with
      | .done result => return result
      | .link start target => followLinks tries start target

/-- Where the walk over a path starts. -/
def startVnode (path : List Char) : Nat :=
  if path[0]? = some '/' then pointers.vnodeRoot
  else pointers.vnodeCurrent

/-- `vnode_get`: the vnode it returns is held. -/
def vnodeGet (path : List Char) : VnodeM (Except Errno Nat) := do
  let vnode := startVnode pointers path
  VNODE_HOLD vnode
  followLinks ns nlink process pointers followlink SYMLOOP_MAX vnode path

end Counted

end Calls

end Idylla.Vfs
