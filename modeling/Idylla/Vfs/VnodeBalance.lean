import Idylla.Vfs.VnodeTable

namespace Idylla.Vfs

open Idylla.Lib

/-!
# What `vnode_get` owes

While it runs, the count of every vnode is what it was at the call and the
references that the call holds.  Each step is shown to keep this account; at
the end only the vnode that is returned is left in it.
-/

namespace VnodeTable

/-- The pointer is to a vnode. -/
def Live (table : VnodeTable) (vnode : Nat) : Prop :=
  ∃ cell, table.vnodes.cells vnode = some cell

/-- The reference count of a vnode, 0 before there is one. -/
def refcount (table : VnodeTable) (vnode : Nat) : Int :=
  match table.vnodes.cells vnode with
  | none => 0
  | some cell => cell.refcount

end VnodeTable

/--
The pointers between vnodes and mountpoints: a list holds vnodes, and the
mountpoint on a directory has a root of its own and that directory as parent.
-/
structure TableSound (table : VnodeTable) : Prop where
  cached : ∀ mp, ∀ vnode ∈ (table.mountpoints mp).vnodeList, table.Live vnode
  covered : ∀ vnode cell mp, table.vnodes.cells vnode = some cell →
      cell.vfsmountedhere = some mp →
      ∃ root,
        table.vnodes.cells (table.mountpoints mp).rootVnode = some root ∧
          root.vnode.mp = mp ∧
          (table.mountpoints mp).parentVnode = some vnode
  parents : ∀ mp vnode,
      (table.mountpoints mp).parentVnode = some vnode → table.Live vnode

/--
The table during a call: of the pointers between vnodes and mountpoints it has
those at the call, `entry`, and of the references those that the call holds in
addition.
-/
structure Owes
    (entry : VnodeTable) (held : List Nat)
    (table : VnodeTable) : Prop where
  cached : ∀ mp, ∀ vnode ∈ (table.mountpoints mp).vnodeList, table.Live vnode
  kept : ∀ vnode cell, entry.vnodes.cells vnode = some cell →
      ∃ now, table.vnodes.cells vnode = some now ∧ now.vnode = cell.vnode
  covers : ∀ vnode cell mp, table.vnodes.cells vnode = some cell →
      cell.vfsmountedhere = some mp →
      ∃ before, entry.vnodes.cells vnode = some before ∧
        before.vfsmountedhere = some mp
  roots :
    ∀ mp, (table.mountpoints mp).rootVnode = (entry.mountpoints mp).rootVnode
  parents : ∀ mp,
      (table.mountpoints mp).parentVnode = (entry.mountpoints mp).parentVnode
  balanced : ∀ vnode cell, table.vnodes.cells vnode = some cell →
      cell.refcount = entry.refcount vnode + held.count vnode
  held_live : ∀ vnode ∈ held, table.Live vnode

section Changes

variable {table : VnodeTable} {vnode other : Nat} {change : Int}

theorem cells_addRef :
    (table.addRef vnode change).vnodes.cells other =
      (table.vnodes.cells other).map fun cell =>
        if other = vnode then
          { cell with refcount := cell.refcount + change }
        else
          cell := by
  by_cases same : other = vnode
  · subst same
    simp [VnodeTable.addRef, addRef]
  · have left : (table.addRef vnode change).vnodes.cells other =
          table.vnodes.cells other :=
      Heap.cells_modify_of_ne same
    simp [left, same]

theorem live_addRef :
    (table.addRef vnode change).Live other ↔ table.Live other := by
  unfold VnodeTable.Live
  rw [cells_addRef]
  cases table.vnodes.cells other <;> simp

theorem cells_addNew_of_some {cell newCell : VnodeCell}
    (isCell : table.vnodes.cells vnode = some cell) :
    (table.addNew newCell).vnodes.cells vnode = some cell :=
  Heap.cells_alloc_of_some isCell

theorem cells_addNew {cell newCell : VnodeCell}
    (isCell : (table.addNew newCell).vnodes.cells vnode = some cell) :
    vnode = table.vnodes.next ∧ cell = newCell ∨
      table.vnodes.cells vnode = some cell :=
  Heap.cells_alloc_some isCell

theorem not_live_next : ¬ table.Live table.vnodes.next := by
  rintro ⟨cell, isCell⟩
  exact absurd (Heap.lt_next isCell) (Nat.lt_irrefl _)

theorem live_addNew {newCell : VnodeCell} (isLive : table.Live vnode) :
    (table.addNew newCell).Live vnode := by
  obtain ⟨cell, isCell⟩ := isLive
  exact ⟨cell, cells_addNew_of_some isCell⟩

theorem live_addNew_next {newCell : VnodeCell} :
    (table.addNew newCell).Live table.vnodes.next :=
  ⟨newCell, Heap.cells_alloc_next⟩

theorem mountpoints_addNew (newCell : VnodeCell) (mp : Nat) :
    ((table.addNew newCell).mountpoints mp).rootVnode =
        (table.mountpoints mp).rootVnode ∧
      ((table.addNew newCell).mountpoints mp).parentVnode =
        (table.mountpoints mp).parentVnode := by
  unfold VnodeTable.addNew
  dsimp only
  split <;> exact ⟨rfl, rfl⟩

end Changes

section Account

variable {entry table : VnodeTable} {held : List Nat} {vnode : Nat}

theorem Owes.live (owes : Owes entry held table) (wasLive : entry.Live vnode) :
    table.Live vnode := by
  obtain ⟨cell, isCell⟩ := wasLive
  obtain ⟨now, isNow, -⟩ := owes.kept vnode cell isCell
  exact ⟨now, isNow⟩

theorem Owes.refcount_eq (owes : Owes entry held table) (vnode : Nat) :
    table.refcount vnode = entry.refcount vnode + held.count vnode := by
  cases isCell : table.vnodes.cells vnode with
  | some cell =>
    rw [← owes.balanced vnode cell isCell]
    simp [VnodeTable.refcount, isCell]
  | none =>
    have notLive : ¬ table.Live vnode := by
      rintro ⟨cell, other⟩
      rw [isCell] at other
      cases other
    have notHeld : vnode ∉ held := fun isHeld =>
      notLive (owes.held_live vnode isHeld)
    have wasNone : entry.vnodes.cells vnode = none := by
      apply Option.eq_none_iff_forall_ne_some.mpr
      intro old wasLive
      exact notLive (owes.live ⟨old, wasLive⟩)
    rw [List.count_eq_zero_of_not_mem notHeld]
    simp [VnodeTable.refcount, isCell, wasNone]

theorem Owes.sound (owes : Owes entry held table) (sound : TableSound entry) :
    TableSound table where
  cached := owes.cached
  covered := by
    intro vnode cell mp isCell covers
    obtain ⟨before, isBefore, covered⟩ :=
      owes.covers vnode cell mp isCell covers
    obtain ⟨root, isRoot, itsMp, isParent⟩ :=
      sound.covered vnode before mp isBefore covered
    obtain ⟨now, isNow, same⟩ := owes.kept _ root isRoot
    rw [owes.roots, owes.parents]
    exact ⟨now, isNow, by rw [same, itsMp], isParent⟩
  parents := by
    intro mp vnode isParent
    rw [owes.parents] at isParent
    exact owes.live (sound.parents mp vnode isParent)

theorem Owes.start (sound : TableSound table) : Owes table [] table where
  cached := sound.cached
  kept := fun _ cell isCell => ⟨cell, isCell, rfl⟩
  covers := fun _ cell _ isCell covers => ⟨cell, isCell, covers⟩
  roots := fun _ => rfl
  parents := fun _ => rfl
  balanced := by
    intro vnode cell isCell
    simp [VnodeTable.refcount, isCell]
  held_live := by simp

theorem Owes.perm {reordered : List Nat} (owes : Owes entry held table)
    (same : held.Perm reordered) :
    Owes entry reordered table where
  cached := owes.cached
  kept := owes.kept
  covers := owes.covers
  roots := owes.roots
  parents := owes.parents
  balanced := by
    intro vnode cell isCell
    rw [← same.count_eq]
    exact owes.balanced vnode cell isCell
  held_live := fun vnode isHeld =>
    owes.held_live vnode (same.mem_iff.mpr isHeld)

theorem Owes.addRef {change : Int} {after : List Nat}
    (owes : Owes entry held table)
    (counts :
      ∀ other,
        (after.count other : Int) =
          held.count other + if other = vnode then change else 0)
    (areLive : ∀ other ∈ after, table.Live other) :
    Owes entry after (table.addRef vnode change) where
  cached := fun mp other isCached =>
    live_addRef.mpr (owes.cached mp other isCached)
  kept := by
    intro other cell isCell
    obtain ⟨now, isNow, same⟩ := owes.kept other cell isCell
    refine ⟨_, by rw [cells_addRef, isNow]; rfl, ?_⟩
    split <;> exact same
  covers := by
    intro other cell mp isCell covers
    rw [cells_addRef] at isCell
    obtain ⟨before, isBefore, rfl⟩ := Option.map_eq_some_iff.mp isCell
    refine owes.covers other before mp isBefore ?_
    rw [← covers]
    split <;> rfl
  roots := owes.roots
  parents := owes.parents
  balanced := by
    intro other cell isCell
    rw [cells_addRef] at isCell
    obtain ⟨before, isBefore, rfl⟩ := Option.map_eq_some_iff.mp isCell
    have was := owes.balanced other before isBefore
    have counted := counts other
    by_cases same : other = vnode
    · simp only [same, ↓reduceIte] at was counted ⊢
      omega
    · simp only [same, ↓reduceIte] at was counted ⊢
      omega
  held_live := fun other isHeld => live_addRef.mpr (areLive other isHeld)

theorem Owes.hold (owes : Owes entry held table) (isLive : table.Live vnode) :
    Owes entry (vnode :: held) (table.addRef vnode 1) := by
  refine owes.addRef (fun other => ?_) (fun other isHeld => ?_)
  · by_cases same : other = vnode
    · simp [same]
    · simp [same, Ne.symm same]
  · rcases List.mem_cons.mp isHeld with rfl | wasHeld
    · exact isLive
    · exact owes.held_live other wasHeld

theorem Owes.rel (owes : Owes entry (vnode :: held) table) :
    Owes entry held (table.addRef vnode (-1)) := by
  refine owes.addRef (fun other => ?_) (fun other isHeld => ?_)
  · rw [List.count_cons]
    by_cases same : other = vnode
    · simp only [same, beq_self_eq_true, ↓reduceIte]
      omega
    · simp [same, Ne.symm same]
  · exact owes.held_live other (List.mem_cons_of_mem _ isHeld)

theorem Owes.addNew (owes : Owes entry held table)
    (newVnode : Vnode) (nlink : BitVec 16) :
    Owes entry (table.vnodes.next :: held)
      (table.addNew (.new newVnode nlink)) where
  cached := by
    intro mp other isCached
    simp only [VnodeTable.addNew] at isCached
    split at isCached
    · rcases List.mem_cons.mp isCached with rfl | isOld
      · exact live_addNew_next
      · exact live_addNew (owes.cached mp other isOld)
    · exact live_addNew (owes.cached mp other isCached)
  kept := by
    intro other cell isCell
    obtain ⟨now, isNow, same⟩ := owes.kept other cell isCell
    exact ⟨now, cells_addNew_of_some isNow, same⟩
  covers := by
    intro other cell mp isCell covers
    rcases cells_addNew isCell with ⟨-, rfl⟩ | isOld
    · cases covers
    · exact owes.covers other cell mp isOld covers
  roots := fun mp => (mountpoints_addNew _ mp).1.trans (owes.roots mp)
  parents := fun mp => (mountpoints_addNew _ mp).2.trans (owes.parents mp)
  balanced := by
    intro other cell isCell
    rw [List.count_cons]
    rcases cells_addNew isCell with ⟨rfl, rfl⟩ | isOld
    · have notHeld : ¬ table.vnodes.next ∈ held := fun isHeld =>
        not_live_next (owes.held_live _ isHeld)
      have wasNone : entry.vnodes.cells table.vnodes.next = none := by
        apply Option.eq_none_iff_forall_ne_some.mpr
        intro old wasLive
        exact not_live_next (owes.live ⟨old, wasLive⟩)
      rw [List.count_eq_zero_of_not_mem notHeld]
      simp [VnodeTable.refcount, wasNone, VnodeCell.new]
    · have isOther : table.vnodes.next ≠ other := by
        rintro rfl
        exact not_live_next ⟨cell, isOld⟩
      simp only [beq_iff_eq, isOther, ↓reduceIte]
      exact owes.balanced other cell isOld
  held_live := by
    intro other isHeld
    rcases List.mem_cons.mp isHeld with rfl | wasHeld
    · exact live_addNew_next
    · exact live_addNew (owes.held_live other wasHeld)

end Account

section Contracts

variable {entry : VnodeTable} {held : List Nat} {vnode : Nat}

theorem meets_hold (isLive : entry.Live vnode) :
    Meets (VNODE_HOLD vnode) (Owes entry held)
      fun _ => Owes entry (vnode :: held) := by
  intro table owes
  obtain ⟨cell, isCell⟩ := owes.live isLive
  refine ⟨(), table.addRef vnode 1, ?_, owes.hold ⟨cell, isCell⟩⟩
  simp [VNODE_HOLD, StateT.run, isCell]

theorem meets_rel :
    Meets (VNODE_REL vnode) (Owes entry (vnode :: held))
      fun _ => Owes entry held := by
  intro table owes
  obtain ⟨cell, isCell⟩ := owes.held_live vnode List.mem_cons_self
  refine ⟨(), table.addRef vnode (-1), ?_, owes.rel⟩
  simp [VNODE_REL, StateT.run, isCell]

/-- What a vnode read during the call has in common with the one before. -/
structure Reads
    (entry : VnodeTable) (vnode : Nat) (cell : VnodeCell) : Prop where
  same :
    ∀ before, entry.vnodes.cells vnode = some before → cell.vnode = before.vnode
  covers : ∀ mp, cell.vfsmountedhere = some mp →
      ∃ before, entry.vnodes.cells vnode = some before ∧
        before.vfsmountedhere = some mp

theorem meets_readVnode {Result : Type} {later : VnodeCell → VnodeM Result}
    {after : Result → VnodeTable → Prop} (isHeld : vnode ∈ held)
    (goesOn :
      ∀ cell, Reads entry vnode cell →
        Meets (later cell) (Owes entry held) after) :
    Meets (readVnode vnode >>= later) (Owes entry held) after := by
  intro table owes
  obtain ⟨cell, isCell⟩ := owes.held_live vnode isHeld
  have reads : Reads entry vnode cell :=
    { same := by
        intro before wasCell
        obtain ⟨now, isNow, same⟩ := owes.kept vnode before wasCell
        rw [isCell] at isNow
        rw [Option.some.inj isNow, same]
      covers := fun mp => owes.covers vnode cell mp isCell }
  obtain ⟨result, next, runs, holds⟩ := goesOn cell reads table owes
  have read : (readVnode vnode).run table = some (cell, table) := by
    simp [readVnode, StateT.run, isCell]
  refine ⟨result, next, ?_, holds⟩
  rw [StateT.run_bind, read]
  exact runs

theorem meets_readMountpoint
    {mp : Nat} {Result : Type} {later : MountCell → VnodeM Result}
    {after : Result → VnodeTable → Prop}
    (goesOn :
      ∀ mountpoint, mountpoint.rootVnode = (entry.mountpoints mp).rootVnode →
        mountpoint.parentVnode = (entry.mountpoints mp).parentVnode →
        Meets (later mountpoint) (Owes entry held) after) :
    Meets (readMountpoint mp >>= later) (Owes entry held) after :=
  fun table owes => goesOn _ (owes.roots mp) (owes.parents mp) table owes

/-- The references with the one that a call has got, if it has one. -/
def withFound (held : List Nat) : Option Nat → List Nat
  | none => held
  | some vnode => vnode :: held

theorem meets_vnodeLookup (mp ino : Nat) :
    Meets (vnodeLookup mp ino) (Owes entry held)
      fun found => Owes entry (withFound held found) := by
  intro table owes
  obtain ⟨found, searched⟩ :=
    @cachedVnode_defined table.vnodes ino _ (owes.cached mp)
  have isCached := cachedVnode_isCached searched
  cases found with
  | none =>
    refine ⟨none, table, ?_, owes⟩
    simp [vnodeLookup, StateT.run, searched]
  | some vnode =>
    refine ⟨some vnode, table.addRef vnode 1, ?_,
      owes.hold (owes.cached mp vnode isCached.1)⟩
    simp [vnodeLookup, StateT.run, searched]

variable (ns : Namespace) (nlink : Vnode → BitVec 16)

theorem meets_vnodeNew (newVnode : Vnode) :
    Meets (vnodeNew ns nlink newVnode) (Owes entry held)
      fun found => Owes entry (withFound held found) := by
  intro table owes
  by_cases opens : ns.opens newVnode = true
  · refine ⟨some table.vnodes.next, _, ?_,
      owes.addNew newVnode (nlink newVnode)⟩
    simp only [vnodeNew, StateT.run, opens, ↓reduceIte]
  · refine ⟨none, table, ?_, owes⟩
    simp only [vnodeNew, StateT.run, opens, Bool.false_eq_true, ↓reduceIte]

namespace Counted

theorem meets_cacheVnode (newVnode : Vnode) :
    Meets (cacheVnode ns nlink newVnode) (Owes entry held)
      fun found => Owes entry (withFound held found) := by
  refine (meets_vnodeLookup newVnode.mp newVnode.ino).bind fun found => ?_
  cases found with
  | none => exact meets_vnodeNew ns nlink newVnode
  | some vnode => exact .pure fun _ owes => owes

theorem meets_leaveMount (sound : TableSound entry)
    (vnode : Nat) (name : List Char) :
    Meets (leaveMount vnode name) (Owes entry [vnode])
      fun parent => Owes entry [parent] := by
  refine meets_readVnode List.mem_cons_self fun cell _ => ?_
  refine meets_readMountpoint fun mountpoint _ isParent => ?_
  split
  · cases atParent : mountpoint.parentVnode with
    | none => exact .pure fun _ owes => owes
    | some parent =>
      rw [atParent] at isParent
      refine meets_rel.bind fun _ => ?_
      refine (meets_hold (sound.parents _ _ isParent.symm)).bind fun _ => ?_
      exact .pure fun _ owes => owes
  · exact .pure fun _ owes => owes

theorem meets_enterMount (sound : TableSound entry) (newVnode : Nat) :
    Meets (enterMount newVnode) (Owes entry (newVnode :: held))
      fun entered => Owes entry (entered :: held) := by
  refine meets_readVnode List.mem_cons_self fun cell reads => ?_
  cases mounted : cell.vfsmountedhere with
  | none => exact .pure fun _ owes => owes
  | some mp =>
    obtain ⟨before, isBefore, covered⟩ := reads.covers mp mounted
    obtain ⟨root, isRoot, itsMp, isParent⟩ :=
      sound.covered newVnode before mp isBefore covered
    refine meets_readMountpoint fun mountpoint atRoot _ => ?_
    rw [← atRoot] at isRoot
    refine (meets_hold ⟨root, isRoot⟩).bind fun _ => ?_
    refine meets_readVnode List.mem_cons_self fun rootCell readsRoot => ?_
    refine meets_readMountpoint fun itsMountpoint _ atParent => ?_
    rw [readsRoot.same root isRoot, itsMp, isParent] at atParent
    rw [atParent]
    -- The vnode released is the directory that was found.
    have swapped : Meets (VNODE_REL newVnode)
          (Owes entry (mountpoint.rootVnode :: newVnode :: held))
          fun _ => Owes entry (mountpoint.rootVnode :: held) :=
      meets_rel.consequence (fun _ owes => owes.perm (List.Perm.swap ..))
        (fun _ _ owes => owes)
    refine swapped.bind fun _ => ?_
    exact .pure fun _ owes => owes

/-- The reference that comes with a result. -/
def resultOwned : Except Errno Nat → List Nat
  | .ok vnode => [vnode]
  | .error _ => []

/-- The reference that comes with the end of a component. -/
def Component.owned : Component → List Nat
  | .stop result => resultOwned result
  | .link start _ => [start]
  | .enter newVnode => [newVnode]

/-- The reference that comes with the end of a walk. -/
def Outcome.owned : Outcome → List Nat
  | .done result => resultOwned result
  | .link start _ => [start]

theorem meets_findVnode (sound : TableSound entry)
    (vnode : Nat) (name : List Char) :
    Meets (findVnode ns nlink vnode name) (Owes entry [vnode])
      fun found =>
        Owes entry
          (match found with
            | .ok newVnode => [newVnode, vnode]
            | .error _ => []) := by
  refine meets_readVnode List.mem_cons_self fun cell _ => ?_
  cases ns.lookup cell.vnode name with
  | none =>
    refine meets_rel.bind fun _ => ?_
    exact .pure fun _ owes => owes
  | some ino =>
    refine (meets_cacheVnode ns nlink _).bind fun found => ?_
    cases found with
    | none =>
      refine meets_rel.bind fun _ => ?_
      exact .pure fun _ owes => owes
    | some newVnode =>
      refine (meets_enterMount sound newVnode).bind fun entered => ?_
      exact .pure fun _ owes => owes

theorem meets_fail (vnode newVnode : Nat) (errno : Errno) :
    Meets (fail vnode newVnode errno) (Owes entry [vnode, newVnode])
      fun component => Owes entry component.owned := by
  refine meets_rel.bind fun _ => ?_
  refine meets_rel.bind fun _ => ?_
  exact .pure fun _ owes => owes

variable (process : Process) (pointers : ProcessVnodes) (followlink : Bool)

theorem meets_inspect (rootLive : entry.Live pointers.vnodeRoot)
    (vnode newVnode : Nat) (isLast : Bool) :
    Meets (inspect ns process pointers followlink vnode newVnode isLast)
      (Owes entry [vnode, newVnode])
      fun component => Owes entry component.owned := by
  refine meets_readVnode (by simp) fun cell _ => ?_
  refine meets_readVnode (by simp) fun newCell _ => ?_
  split
  · cases ns.readlink newCell.vnode with
    | none => exact meets_fail vnode newVnode .ENOTSUP
    | some read =>
      cases read with
      | error err => exact meets_fail vnode newVnode err
      | ok path =>
        have released :
            Meets (VNODE_REL newVnode) (Owes entry [vnode, newVnode])
              fun _ => Owes entry [vnode] :=
          meets_rel.consequence (fun _ owes => owes.perm (List.Perm.swap ..))
            (fun _ _ owes => owes)
        refine released.bind fun _ => ?_
        split
        · refine meets_rel.bind fun _ => ?_
          refine (meets_hold rootLive).bind fun _ => ?_
          exact .pure fun _ owes => owes
        · exact .pure fun _ owes => owes
  · split
    · refine meets_rel.bind fun _ => ?_
      exact .pure fun _ owes => owes
    · split
      · exact meets_fail vnode newVnode .ENOTDIR
      · split
        · exact meets_fail vnode newVnode .EACCES
        · refine meets_rel.bind fun _ => ?_
          exact .pure fun _ owes => owes

section

variable (sound : TableSound entry) (rootLive : entry.Live pointers.vnodeRoot)

include sound rootLive

theorem meets_visit (vnode : Nat) (name : List Char) (isLast : Bool) :
    Meets (visit ns nlink process pointers followlink vnode name isLast)
      (Owes entry [vnode])
      fun component => Owes entry component.owned := by
  refine (meets_findVnode ns nlink sound vnode name).bind fun found => ?_
  cases found with
  | error err => exact .pure fun _ owes => owes
  | ok newVnode =>
    refine (meets_inspect ns process pointers followlink rootLive vnode
      newVnode isLast).consequence (fun _ owes => ?_) fun _ _ owes => owes
    exact owes.perm (List.Perm.swap ..)

theorem meets_walkTable (table : List (List Char)) (start : Nat) :
    Meets (walkTable ns nlink process pointers followlink table start)
      (Owes entry [start])
      fun outcome => Owes entry outcome.owned := by
  induction table generalizing start with
  | nil => exact .pure fun _ owes => owes
  | cons name rest ih =>
    refine (meets_leaveMount sound start name).bind fun vnode => ?_
    split
    · exact ih vnode
    · refine (meets_visit ns nlink process pointers followlink sound
        rootLive vnode name rest.isEmpty).bind fun component => ?_
      cases component with
      | stop result => exact .pure fun _ owes => owes
      | link target path => exact .pure fun _ owes => owes
      | enter newVnode => exact ih newVnode

theorem meets_followLinks (tries : Nat) (start : Nat) (path : List Char) :
    Meets (followLinks ns nlink process pointers followlink tries start path)
      (Owes entry [start])
      fun result => Owes entry (resultOwned result) := by
  induction tries generalizing start path with
  | zero =>
    refine meets_rel.bind fun _ => ?_
    exact .pure fun _ owes => owes
  | succ tries ih =>
    refine (meets_walkTable ns nlink process pointers followlink sound
      rootLive (strExplode path '/') start).bind fun outcome => ?_
    cases outcome with
    | done result => exact .pure fun _ owes => owes
    | link target next => exact ih target next

end

/-- The vnodes of a process are vnodes. -/
structure PointersLive
    (pointers : ProcessVnodes) (table : VnodeTable) : Prop where
  root : table.Live pointers.vnodeRoot
  current : table.Live pointers.vnodeCurrent

theorem meets_vnodeGet
    (sound : TableSound entry) (areLive : PointersLive pointers entry)
    (path : List Char) :
    Meets (vnodeGet ns nlink process pointers followlink path)
      (Owes entry []) fun result => Owes entry (resultOwned result) := by
  have startLive : entry.Live (startVnode pointers path) := by
    unfold startVnode
    split
    · exact areLive.root
    · exact areLive.current
  refine (meets_hold startLive).bind fun _ => ?_
  exact meets_followLinks ns nlink process pointers followlink sound
    areLive.root SYMLOOP_MAX _ path

end Counted

end Contracts

end Idylla.Vfs
