import Idylla.Lib.Run
import Idylla.Vfs.Symlinks
import Idylla.Vfs.VnodeBalance

namespace Idylla.Vfs

open Idylla.Lib

/-!
# The tables that calls lead to

From the table without a vnode, in which the root filesystem is mounted first,
mounts and path resolutions lead to tables whose pointers are sound, whatever
other calls count and whatever `vnode_free` takes out in between.
-/

namespace VnodeTable

/-- The table at boot. -/
def boot : VnodeTable where
  vnodes := .empty
  mountpoints := fun _ =>
    { rootVnode := 0, parentVnode := none, vnodeList := [] }

variable (table : VnodeTable)

/-- `vnode->vfsmountedhere = mp`. -/
def cover (vnode mp : Nat) : VnodeTable :=
  { table with
    vnodes := table.vnodes.modify vnode fun cell =>
      { cell with vfsmountedhere := some mp } }

/-- A new mountpoint whose list holds its root alone. -/
def mount (parent : Option Nat) (root : VnodeCell) : VnodeTable where
  vnodes := table.vnodes.alloc root
  mountpoints := fun mp =>
    if mp = root.vnode.mp then
      { rootVnode := table.vnodes.next
        parentVnode := parent
        vnodeList := [table.vnodes.next] }
    else
      table.mountpoints mp

/-- `vnode_free` of a vnode that the driver closes. -/
def free (vnode : Nat) : VnodeTable where
  vnodes := table.vnodes.free vnode
  mountpoints := fun mp =>
    { table.mountpoints mp with
      vnodeList :=
        (table.mountpoints mp).vnodeList.filter fun other => other ≠ vnode }

/-- Nothing is mounted at the mountpoint, which is not a parent's either. -/
def Unused (mp : Nat) : Prop :=
  ∀ vnode cell, table.vnodes.cells vnode = some cell →
    cell.vfsmountedhere ≠ some mp

/-- A mountpoint points to the vnode, and holds a reference to it. -/
def Pointed (vnode : Nat) : Prop :=
  ∃ mp,
    (table.mountpoints mp).rootVnode = vnode ∨
      (table.mountpoints mp).parentVnode = some vnode

end VnodeTable

/-- What changes the table. -/
inductive TableLabel where
  | mountRoot
  | mount
  | vnodeGet
  | count
  | free

/--
The steps between tables: `vfs_mount_root`, `sys_mount` behind its checks, a
resolved path, a reference counted by another call, and a vnode that
`vnode_free` takes out.
-/
inductive TableStep : VnodeTable → TableLabel → VnodeTable → Prop where
  | mountRoot {table : VnodeTable} (root : Vnode) (nlink : BitVec 16)
      (unused : table.Unused root.mp) :
      TableStep table .mountRoot (table.mount none (.new root nlink))
  | mount {table : VnodeTable} (vnode : Nat) (root : Vnode) (nlink : BitVec 16)
      (isLive : table.Live vnode)
      (unused : table.Unused root.mp) :
      TableStep table .mount
        ((table.mount (some vnode) (.new root nlink)).cover vnode root.mp)
  | vnodeGet {table after : VnodeTable}
      {ns : Namespace} {nlink : Vnode → BitVec 16} {process : Process}
      {pointers : ProcessVnodes} {followlink : Bool} {path : List Char}
      {result : Except Errno Nat}
      (areLive : Counted.PointersLive pointers table)
      (runs :
        (Counted.vnodeGet ns nlink process pointers followlink path).run
          table = some (result, after)) :
      TableStep table .vnodeGet after
  | count
      {table : VnodeTable} (vnode : Nat) (change : Int) :
      TableStep table .count (table.addRef vnode change)
  | free {table : VnodeTable} {vnode : Nat}
      (unpointed : ¬ table.Pointed vnode) :
      TableStep table .free (table.free vnode)

section Steps

variable {table : VnodeTable} {vnode : Nat}

theorem tableSound_boot : TableSound .boot where
  cached := fun _ _ isCached => absurd isCached List.not_mem_nil
  covered := by
    intro vnode cell mp isCell
    cases isCell
  parents := by
    intro mp vnode isParent
    cases isParent

theorem TableSound.addRef
    (sound : TableSound table) (vnode : Nat) (change : Int) :
    TableSound (table.addRef vnode change) where
  cached := fun mp other isCached =>
    live_addRef.mpr (sound.cached mp other isCached)
  covered := by
    intro other cell mp isCell covers
    rw [cells_addRef] at isCell
    obtain ⟨before, isBefore, rfl⟩ := Option.map_eq_some_iff.mp isCell
    have covered : before.vfsmountedhere = some mp := by
      rw [← covers]
      split <;> rfl
    obtain ⟨root, isRoot, itsMp, isParent⟩ :=
      sound.covered other before mp isBefore covered
    refine ⟨_, by rw [cells_addRef]; exact congrArg _ isRoot, ?_, isParent⟩
    rw [← itsMp]
    split <;> rfl
  parents := fun mp other isParent =>
    live_addRef.mpr (sound.parents mp other isParent)

theorem TableSound.mount (sound : TableSound table)
    {parent : Option Nat} {root : VnodeCell}
    (areLive : ∀ vnode, parent = some vnode → table.Live vnode)
    (uncovered : root.vfsmountedhere = none)
    (unused : table.Unused root.vnode.mp) :
    TableSound (table.mount parent root) := by
  have stays : ∀ {vnode cell}, table.vnodes.cells vnode = some cell →
        (table.mount parent root).vnodes.cells vnode = some cell :=
    Heap.cells_alloc_of_some
  have live :
      ∀ {vnode}, table.Live vnode → (table.mount parent root).Live vnode :=
    fun ⟨cell, isCell⟩ => ⟨cell, stays isCell⟩
  refine ⟨fun mp vnode isCached => ?_, fun vnode cell mp isCell covers => ?_,
    fun mp vnode isParent => ?_⟩
  · simp only [VnodeTable.mount] at isCached
    split at isCached
    · rw [List.mem_singleton.mp isCached]
      exact ⟨root, Heap.cells_alloc_next⟩
    · exact live (sound.cached mp vnode isCached)
  · have isOld : table.vnodes.cells vnode = some cell := by
      by_cases isNew : vnode = table.vnodes.next
      · rw [isNew] at isCell
        have isRoot := Option.some.inj
          (isCell.symm.trans
            (@Heap.cells_alloc_next VnodeCell table.vnodes root))
        rw [isRoot, uncovered] at covers
        cases covers
      · simpa [VnodeTable.mount, Heap.alloc, isNew] using isCell
    have isOther : mp ≠ root.vnode.mp := by
      rintro rfl
      exact unused vnode cell isOld covers
    obtain ⟨itsRoot, isRoot, itsMp, isParent⟩ :=
      sound.covered vnode cell mp isOld covers
    simp only [VnodeTable.mount, isOther, ↓reduceIte]
    exact ⟨itsRoot, stays isRoot, itsMp, isParent⟩
  · simp only [VnodeTable.mount] at isParent
    split at isParent
    · exact live (areLive vnode isParent)
    · exact live (sound.parents mp vnode isParent)

theorem TableSound.cover (sound : TableSound table)
    {mp : Nat} {root : VnodeCell}
    (isRoot : table.vnodes.cells (table.mountpoints mp).rootVnode = some root)
    (itsMp : root.vnode.mp = mp)
    (isParent : (table.mountpoints mp).parentVnode = some vnode) :
    TableSound (table.cover vnode mp) := by
  have stays : ∀ {other cell}, table.vnodes.cells other = some cell →
        ∃ now, (table.cover vnode mp).vnodes.cells other = some now ∧
          now.vnode = cell.vnode := by
    intro other cell isCell
    by_cases same : other = vnode
    · subst same
      exact ⟨_, Heap.cells_modify_same.trans (congrArg _ isCell), rfl⟩
    · exact ⟨cell, (Heap.cells_modify_of_ne same).trans isCell, rfl⟩
  have live :
      ∀ {other}, table.Live other → (table.cover vnode mp).Live other := by
    rintro other ⟨cell, isCell⟩
    obtain ⟨now, isNow, -⟩ := stays isCell
    exact ⟨now, isNow⟩
  refine ⟨fun itsMp other isCached => live (sound.cached itsMp other isCached),
    fun other cell covering isCell covers => ?_,
    fun itsMp other isParent => live (sound.parents itsMp other isParent)⟩
  by_cases same : other = vnode
  · subst same
    have isNow := Heap.cells_modify_same.symm.trans isCell
    obtain ⟨before, -, rfl⟩ := Option.map_eq_some_iff.mp isNow
    obtain rfl : mp = covering := Option.some.inj covers
    obtain ⟨now, isNow, sameName⟩ := stays isRoot
    exact ⟨now, isNow, by rw [sameName, itsMp], isParent⟩
  · have isOld := (Heap.cells_modify_of_ne same).symm.trans isCell
    obtain ⟨itsRoot, isItsRoot, isMp, isItsParent⟩ :=
      sound.covered other cell covering isOld covers
    obtain ⟨now, isNow, sameName⟩ := stays isItsRoot
    exact ⟨now, isNow, by rw [sameName, isMp], isItsParent⟩

theorem TableSound.free (sound : TableSound table)
    (unpointed : ¬ table.Pointed vnode) : TableSound (table.free vnode) := by
  have stays :
      ∀ {other cell}, other ≠ vnode → table.vnodes.cells other = some cell →
        (table.free vnode).vnodes.cells other = some cell :=
    fun differs isCell => (Heap.cells_free_of_ne differs).trans isCell
  refine ⟨fun mp other isCached => ?_, fun other cell mp isCell covers => ?_,
    fun mp other isParent => ?_⟩
  · obtain ⟨wasCached, differs⟩ := List.mem_filter.mp isCached
    obtain ⟨cell, isCell⟩ := sound.cached mp other wasCached
    exact ⟨cell, stays (by simpa using differs) isCell⟩
  · have differs : other ≠ vnode := by
      rintro rfl
      exact absurd (Heap.cells_free_same.symm.trans isCell) (by simp)
    have isOld := (Heap.cells_free_of_ne differs).symm.trans isCell
    obtain ⟨root, isRoot, itsMp, isParent⟩ :=
      sound.covered other cell mp isOld covers
    refine ⟨root, stays ?_ isRoot, itsMp, isParent⟩
    exact fun isVnode => unpointed ⟨mp, .inl isVnode⟩
  · have differs : other ≠ vnode := by
      rintro rfl
      exact unpointed ⟨mp, .inr isParent⟩
    obtain ⟨cell, isCell⟩ := sound.parents mp other isParent
    exact ⟨cell, stays differs isCell⟩

theorem TableSound.vnodeGet (sound : TableSound table) {after : VnodeTable}
    {ns : Namespace} {nlink : Vnode → BitVec 16} {process : Process}
    {pointers : ProcessVnodes} {followlink : Bool} {path : List Char}
    {result : Except Errno Nat} (areLive : Counted.PointersLive pointers table)
    (runs :
      (Counted.vnodeGet ns nlink process pointers followlink path).run
        table = some (result, after)) : TableSound after := by
  obtain ⟨again, final, runsAgain, owes⟩ :=
    Counted.meets_vnodeGet ns nlink process pointers followlink sound
      areLive path table (.start sound)
  rw [runs] at runsAgain
  obtain ⟨rfl, rfl⟩ := Prod.mk.inj (Option.some.inj runsAgain)
  exact owes.sound sound

theorem TableSound.step (sound : TableSound table)
    {label : TableLabel} {after : VnodeTable}
    (step : TableStep table label after) : TableSound after := by
  cases step with
  | mountRoot root nlink unused =>
    exact sound.mount (fun _ isParent => nomatch isParent) rfl unused
  | mount vnode root nlink isLive unused =>
    have parentLive : ∀ other, some vnode = some other → table.Live other := by
      intro other isParent
      cases isParent
      exact isLive
    have mounted : TableSound (table.mount (some vnode) (.new root nlink)) :=
      sound.mount parentLive rfl unused
    refine mounted.cover (?_ : _ = some (.new root nlink)) rfl ?_
    · simp [VnodeTable.mount, VnodeCell.new]
    · simp [VnodeTable.mount, VnodeCell.new]
  | vnodeGet areLive runs => exact sound.vnodeGet areLive runs
  | count vnode change => exact sound.addRef vnode change
  | free unpointed => exact sound.free unpointed

end Steps

/--
After `vnode_get` the vnode it returns has one reference more than before,
counted from 0 for a vnode that the call has created, and every other vnode
has as many as before, which is none for a new one.
-/
theorem vnodeGet_balanced (ns : Namespace) (nlink : Vnode → BitVec 16)
    (process : Process) (followlink : Bool) (path : List Char)
    {pointers : ProcessVnodes} {table : VnodeTable} (sound : TableSound table)
    (areLive : Counted.PointersLive pointers table) :
    ∃ result after,
      (Counted.vnodeGet ns nlink process pointers followlink path).run
          table = some (result, after) ∧
        (∀ vnode, table.Live vnode → after.Live vnode) ∧
        match result with
        | .ok found =>
          after.Live found ∧ after.refcount found = table.refcount found + 1 ∧
            ∀ vnode, vnode ≠ found → after.refcount vnode = table.refcount vnode
        | .error _ =>
          ∀ vnode, after.refcount vnode = table.refcount vnode := by
  obtain ⟨result, after, runs, owes⟩ :=
    Counted.meets_vnodeGet ns nlink process pointers followlink sound
      areLive path table (.start sound)
  refine ⟨result, after, runs, fun vnode => owes.live, ?_⟩
  cases result with
  | ok found =>
    refine ⟨owes.held_live found (by simp [Counted.resultOwned]), ?_, ?_⟩
    · rw [owes.refcount_eq]
      simp [Counted.resultOwned]
    · intro vnode other
      rw [owes.refcount_eq]
      simp [Counted.resultOwned, Ne.symm other]
  | error err =>
    intro vnode
    rw [owes.refcount_eq]
    simp [Counted.resultOwned]

/-- The root filesystem of the tree with a link, mounted at boot. -/
def linkedTable : VnodeTable :=
  VnodeTable.boot.mount none (.new { mp := 0, ino := 1 } 2)

/-- Through the link the directory is returned with its first reference. -/
theorem vnodeGet_balanced_link :
    ∃ after,
      (Counted.vnodeGet linkedTree (fun _ => 1) atTreeRoot
          { vnodeRoot := 0, vnodeCurrent := 0 } true "l".toList).run
          linkedTable = some (.ok 2, after) ∧
        after.refcount 2 = linkedTable.refcount 2 + 1 ∧
        ∀ vnode, vnode ≠ 2 →
          after.refcount vnode = linkedTable.refcount vnode := by
  have sound : TableSound linkedTable :=
    tableSound_boot.mount
      (by
        intro vnode isParent
        cases isParent)
      rfl
      (by
        intro vnode cell isCell
        cases isCell)
  obtain ⟨result, after, runs, -, balance⟩ :=
    @vnodeGet_balanced linkedTree (fun _ => 1) atTreeRoot true "l".toList
      { vnodeRoot := 0, vnodeCurrent := 0 } linkedTable sound
      ⟨⟨_, rfl⟩, ⟨_, rfl⟩⟩
  have evaluated :
      ((Counted.vnodeGet linkedTree (fun _ => 1) atTreeRoot
          { vnodeRoot := 0, vnodeCurrent := 0 } true "l".toList).run
          linkedTable).map Prod.fst = some (.ok 2) :=
    rfl
  rw [runs] at evaluated
  obtain rfl : result = .ok 2 := Option.some.inj evaluated
  exact ⟨after, runs, balance.2⟩

end Idylla.Vfs
