import Idylla.Vfs.VnodeBalance

namespace Idylla.Vfs

open Idylla.Lib

/-!
# Vnodes in memory and vnodes by name

The resolution of a path over vnodes in memory yields what it yields over
names, provided that the lists of the mountpoints hold every vnode and no
inode twice.
-/

/-- The pointer is to the vnode of a name. -/
def Names (table : VnodeTable) (pointer : Nat) (vnode : Vnode) : Prop :=
  ∃ cell, table.vnodes.cells pointer = some cell ∧ cell.vnode = vnode

/-- The pointer, or the absence of one, is that of a name. -/
def NamesOption (table : VnodeTable) : Option Nat → Option Vnode → Prop
  | none, none => True
  | some pointer, some vnode => Names table pointer vnode
  | _, _ => False

/-- The table and the named filesystems are the same. -/
structure Shows (ns : Namespace) (table : VnodeTable) : Prop where
  inList : ∀ pointer cell, table.vnodes.cells pointer = some cell →
      pointer ∈ (table.mountpoints cell.vnode.mp).vnodeList
  ofList : ∀ mp, ∀ pointer ∈ (table.mountpoints mp).vnodeList,
      ∃ cell, table.vnodes.cells pointer = some cell ∧ cell.vnode.mp = mp
  unique : ∀ first second vnode,
      Names table first vnode → Names table second vnode → first = second
  opens : ∀ pointer vnode, Names table pointer vnode → ns.opens vnode = true
  covers : ∀ pointer cell, table.vnodes.cells pointer = some cell →
      cell.vfsmountedhere = ns.vfsmountedhere cell.vnode
  uncovered : ∀ vnode, (∀ pointer, ¬ Names table pointer vnode) →
      ns.vfsmountedhere vnode = none
  roots : ∀ pointer vnode, Names table pointer vnode →
      Names table (table.mountpoints vnode.mp).rootVnode
        (ns.mountpoint vnode.mp).rootVnode
  parents : ∀ pointer vnode, Names table pointer vnode →
      NamesOption table (table.mountpoints vnode.mp).parentVnode
        (ns.mountpoint vnode.mp).parentVnode
  mounted : ∀ vnode mp, ns.vfsmountedhere vnode = some mp →
      (ns.mountpoint mp).rootVnode.mp = mp ∧
        (ns.mountpoint mp).parentVnode = some vnode ∧
        Names table (table.mountpoints mp).rootVnode
          (ns.mountpoint mp).rootVnode

/-- The table shows the filesystems, and some pointers have known names. -/
structure Knows
    (ns : Namespace)
    (named : List (Nat × Vnode))
    (table : VnodeTable) : Prop where
  shows : Shows ns table
  names : ∀ pointer vnode, (pointer, vnode) ∈ named → Names table pointer vnode

section Changes

variable {ns : Namespace} {table : VnodeTable} {named : List (Nat × Vnode)}
  {pointer : Nat} {vnode : Vnode}

theorem Names.unique {other : Vnode} (names : Names table pointer vnode)
    (also : Names table pointer other) : vnode = other := by
  obtain ⟨cell, isCell, rfl⟩ := names
  obtain ⟨again, isAgain, rfl⟩ := also
  rw [isCell] at isAgain
  rw [Option.some.inj isAgain]

theorem names_addRef {counted : Nat} {change : Int} :
    Names (table.addRef counted change) pointer vnode ↔
      Names table pointer vnode := by
  unfold Names
  rw [cells_addRef]
  constructor
  · rintro ⟨cell, isCell, isName⟩
    obtain ⟨before, isBefore, rfl⟩ := Option.map_eq_some_iff.mp isCell
    refine ⟨before, isBefore, ?_⟩
    rw [← isName]
    split <;> rfl
  · rintro ⟨cell, isCell, isName⟩
    rw [isCell]
    refine ⟨_, rfl, ?_⟩
    rw [← isName]
    split <;> rfl

theorem cells_addRef_some {counted : Nat} {change : Int} {cell : VnodeCell}
    (isCell : (table.addRef counted change).vnodes.cells pointer = some cell) :
    ∃ before, table.vnodes.cells pointer = some before ∧
      cell.vnode = before.vnode ∧
      cell.vfsmountedhere = before.vfsmountedhere := by
  rw [cells_addRef] at isCell
  obtain ⟨before, isBefore, rfl⟩ := Option.map_eq_some_iff.mp isCell
  refine ⟨before, isBefore, ?_, ?_⟩
  · split <;> rfl
  · split <;> rfl

theorem namesOption_addRef
    {counted : Nat} {change : Int} {parent : Option Nat} {name : Option Vnode}
    (names : NamesOption table parent name) :
    NamesOption (table.addRef counted change) parent name := by
  cases parent <;> cases name
  · trivial
  · exact names
  · exact names
  · exact names_addRef.mpr names

theorem Shows.addRef (shows : Shows ns table) (counted : Nat) (change : Int) :
    Shows ns (table.addRef counted change) where
  inList := by
    intro other cell isCell
    obtain ⟨before, isBefore, sameName, -⟩ := cells_addRef_some isCell
    rw [sameName]
    exact shows.inList other before isBefore
  ofList := by
    intro mp other inList
    obtain ⟨cell, isCell, itsMp⟩ := shows.ofList mp other inList
    obtain ⟨now, isNow, isName⟩ :=
      (@names_addRef table other cell.vnode counted change).mpr
        ⟨cell, isCell, rfl⟩
    exact ⟨now, isNow, by rw [isName, itsMp]⟩
  unique := fun first second vnode isFirst isSecond =>
    shows.unique first second vnode (names_addRef.mp isFirst)
      (names_addRef.mp isSecond)
  opens := fun other vnode names =>
    shows.opens other vnode (names_addRef.mp names)
  covers := by
    intro other cell isCell
    obtain ⟨before, isBefore, sameName, sameMount⟩ := cells_addRef_some isCell
    rw [sameName, sameMount]
    exact shows.covers other before isBefore
  uncovered := fun vnode unnamed =>
    shows.uncovered vnode fun other names =>
      unnamed other (names_addRef.mpr names)
  roots := fun other vnode names =>
    names_addRef.mpr (shows.roots other vnode (names_addRef.mp names))
  parents := fun other vnode names =>
    namesOption_addRef (shows.parents other vnode (names_addRef.mp names))
  mounted := by
    intro vnode mp mounts
    obtain ⟨itsMp, isParent, isRoot⟩ := shows.mounted vnode mp mounts
    exact ⟨itsMp, isParent, names_addRef.mpr isRoot⟩

theorem Knows.addRef
    (knows : Knows ns named table) (counted : Nat) (change : Int) :
    Knows ns named (table.addRef counted change) where
  shows := knows.shows.addRef counted change
  names := fun other vnode isNamed =>
    names_addRef.mpr (knows.names other vnode isNamed)

variable {newCell : VnodeCell}

theorem names_addNew_of_names (names : Names table pointer vnode) :
    Names (table.addNew newCell) pointer vnode := by
  obtain ⟨cell, isCell, isName⟩ := names
  exact ⟨cell, cells_addNew_of_some isCell, isName⟩

theorem names_addNew (names : Names (table.addNew newCell) pointer vnode) :
    pointer = table.vnodes.next ∧ vnode = newCell.vnode ∨
      Names table pointer vnode := by
  obtain ⟨cell, isCell, rfl⟩ := names
  rcases cells_addNew isCell with ⟨isNew, rfl⟩ | isOld
  · exact .inl ⟨isNew, rfl⟩
  · exact .inr ⟨cell, isOld, rfl⟩

theorem namesOption_addNew {parent : Option Nat} {name : Option Vnode}
    (names : NamesOption table parent name) :
    NamesOption (table.addNew newCell) parent name := by
  cases parent <;> cases name
  · trivial
  · exact names
  · exact names
  · exact names_addNew_of_names names

/-- A new vnode next to a known one of its mountpoint. -/
theorem Shows.addNew (shows : Shows ns table)
    {newVnode : Vnode} {nlink : BitVec 16} (sibling : Names table pointer vnode)
    (sameMp : newVnode.mp = vnode.mp)
    (unnamed : ∀ pointer, ¬ Names table pointer newVnode)
    (opens : ns.opens newVnode = true) :
    Shows ns (table.addNew (.new newVnode nlink)) where
  inList := by
    intro other cell isCell
    simp only [VnodeTable.addNew]
    rcases cells_addNew isCell with ⟨rfl, rfl⟩ | isOld
    · rw [if_pos rfl]
      exact List.mem_cons_self
    · have inList := shows.inList other cell isOld
      split
      · exact List.mem_cons_of_mem _ inList
      · exact inList
  ofList := by
    intro mp other inList
    have old : other ∈ (table.mountpoints mp).vnodeList →
          ∃ cell, (table.addNew (.new newVnode nlink)).vnodes.cells other =
              some cell ∧ cell.vnode.mp = mp := by
      intro inOld
      obtain ⟨cell, isCell, itsMp⟩ := shows.ofList mp other inOld
      exact ⟨cell, cells_addNew_of_some isCell, itsMp⟩
    simp only [VnodeTable.addNew] at inList
    split at inList
    next isMp =>
      rcases List.mem_cons.mp inList with rfl | inOld
      · exact ⟨_, Heap.cells_alloc_next, isMp.symm⟩
      · exact old inOld
    next => exact old inList
  unique := by
    intro first second other isFirst isSecond
    rcases names_addNew isFirst with ⟨rfl, rfl⟩ | oldFirst
    · rcases names_addNew isSecond with ⟨rfl, -⟩ | oldSecond
      · rfl
      · exact absurd oldSecond (unnamed second)
    · rcases names_addNew isSecond with ⟨rfl, rfl⟩ | oldSecond
      · exact absurd oldFirst (unnamed first)
      · exact shows.unique first second other oldFirst oldSecond
  opens := by
    intro other otherVnode names
    rcases names_addNew names with ⟨-, rfl⟩ | old
    · exact opens
    · exact shows.opens other otherVnode old
  covers := by
    intro other cell isCell
    rcases cells_addNew isCell with ⟨-, rfl⟩ | isOld
    · exact (shows.uncovered newVnode unnamed).symm
    · exact shows.covers other cell isOld
  uncovered := fun otherVnode noneNames =>
    shows.uncovered otherVnode fun other names =>
      noneNames other (names_addNew_of_names names)
  roots := by
    intro other otherVnode names
    rw [(mountpoints_addNew _ _).1]
    rcases names_addNew names with ⟨-, rfl⟩ | old
    · rw [show otherVnode.mp = vnode.mp from sameMp]
      exact names_addNew_of_names (shows.roots pointer vnode sibling)
    · exact names_addNew_of_names (shows.roots other otherVnode old)
  parents := by
    intro other otherVnode names
    rw [(mountpoints_addNew _ _).2]
    rcases names_addNew names with ⟨-, rfl⟩ | old
    · rw [show otherVnode.mp = vnode.mp from sameMp]
      exact namesOption_addNew (shows.parents pointer vnode sibling)
    · exact namesOption_addNew (shows.parents other otherVnode old)
  mounted := by
    intro covered mp mounts
    obtain ⟨itsMp, isParent, isRoot⟩ := shows.mounted covered mp mounts
    rw [(mountpoints_addNew _ _).1]
    exact ⟨itsMp, isParent, names_addNew_of_names isRoot⟩

end Changes

section Contracts

variable {ns : Namespace} {named : List (Nat × Vnode)} {pointer : Nat}
  {vnode : Vnode} {table : VnodeTable}

theorem Knows.fewer {fewer : List (Nat × Vnode)} (knows : Knows ns named table)
    (among : ∀ pair, pair ∈ fewer → pair ∈ named) :
    Knows ns fewer table where
  shows := knows.shows
  names := fun other vnode isNamed => knows.names other vnode (among _ isNamed)

theorem Knows.more (knows : Knows ns named table)
    (names : Names table pointer vnode) :
    Knows ns ((pointer, vnode) :: named) table where
  shows := knows.shows
  names := by
    intro other otherVnode isNamed
    rcases List.mem_cons.mp isNamed with same | among
    · obtain ⟨rfl, rfl⟩ := Prod.mk.inj same
      exact names
    · exact knows.names other otherVnode among

theorem Knows.same_iff {other : Nat} {otherVnode : Vnode}
    (knows : Knows ns named table) (isNamed : (pointer, vnode) ∈ named)
    (otherNamed : (other, otherVnode) ∈ named) :
    pointer = other ↔ vnode = otherVnode := by
  have names := knows.names pointer vnode isNamed
  have otherNames := knows.names other otherVnode otherNamed
  constructor
  · rintro rfl
    exact names.unique otherNames
  · rintro rfl
    exact knows.shows.unique pointer other vnode names otherNames

theorem knows_hold (isNamed : (pointer, vnode) ∈ named) :
    Meets (VNODE_HOLD pointer) (Knows ns named) fun _ => Knows ns named := by
  intro table knows
  obtain ⟨cell, isCell, -⟩ := knows.names pointer vnode isNamed
  refine ⟨(), table.addRef pointer 1, ?_, knows.addRef pointer 1⟩
  simp [VNODE_HOLD, StateT.run, isCell]

theorem knows_rel (isNamed : (pointer, vnode) ∈ named) :
    Meets (VNODE_REL pointer) (Knows ns named) fun _ => Knows ns named := by
  intro table knows
  obtain ⟨cell, isCell, -⟩ := knows.names pointer vnode isNamed
  refine ⟨(), table.addRef pointer (-1), ?_, knows.addRef pointer (-1)⟩
  simp [VNODE_REL, StateT.run, isCell]

theorem knows_readVnode {Result : Type} {later : VnodeCell → VnodeM Result}
    {after : Result → VnodeTable → Prop} (isNamed : (pointer, vnode) ∈ named)
    (goesOn :
      ∀ cell, cell.vnode = vnode →
        cell.vfsmountedhere = ns.vfsmountedhere vnode →
        Meets (later cell) (Knows ns named) after) :
    Meets (readVnode pointer >>= later) (Knows ns named) after := by
  intro table knows
  obtain ⟨cell, isCell, rfl⟩ := knows.names pointer vnode isNamed
  obtain ⟨result, next, runs, holds⟩ :=
    goesOn cell rfl (knows.shows.covers pointer cell isCell) table knows
  have read : (readVnode pointer).run table = some (cell, table) := by
    simp [readVnode, StateT.run, isCell]
  refine ⟨result, next, ?_, holds⟩
  rw [StateT.run_bind, read]
  exact runs

/-- A pointer to the parent, if there is one, with its name. -/
inductive PointerNamed :
    Option Nat → Option Vnode → List (Nat × Vnode) → Prop where
  | none : PointerNamed none none []
  | some (pointer : Nat) (vnode : Vnode) :
      PointerNamed (some pointer) (some vnode) [(pointer, vnode)]

theorem knows_readMountpoint
    {mp : Nat} {Result : Type} {later : MountCell → VnodeM Result}
    {after : Result → VnodeTable → Prop}
    (holds :
      ∀ table, Knows ns named table →
        ∃ pointer vnode, Names table pointer vnode ∧ vnode.mp = mp)
    (goesOn :
      ∀ mountpoint parents,
        PointerNamed mountpoint.parentVnode (ns.mountpoint mp).parentVnode
          parents →
        Meets (later mountpoint)
          (Knows ns
            (parents ++
              (mountpoint.rootVnode, (ns.mountpoint mp).rootVnode) ::
                named)) after) :
    Meets (readMountpoint mp >>= later) (Knows ns named) after := by
  intro table knows
  obtain ⟨pointer, vnode, names, rfl⟩ := holds table knows
  have atRoot := knows.more (knows.shows.roots pointer vnode names)
  have atParent := knows.shows.parents pointer vnode names
  cases isPointer : (table.mountpoints vnode.mp).parentVnode with
  | none =>
    cases isVnode : (ns.mountpoint vnode.mp).parentVnode with
    | none =>
      refine goesOn _ [] ?_ table atRoot
      rw [isPointer, isVnode]
      exact .none
    | some parent =>
      rw [isPointer, isVnode] at atParent
      exact absurd atParent id
  | some parentPointer =>
    cases isVnode : (ns.mountpoint vnode.mp).parentVnode with
    | none =>
      rw [isPointer, isVnode] at atParent
      exact absurd atParent id
    | some parent =>
      rw [isPointer, isVnode] at atParent
      refine goesOn _ [(parentPointer, parent)] ?_ table (atRoot.more atParent)
      rw [isPointer, isVnode]
      exact .some parentPointer parent

/-- The vnode of an inode, if its driver can open it. -/
def openable (ns : Namespace) (vnode : Vnode) : Option Vnode :=
  if ns.opens vnode then some vnode else none

theorem Shows.names_of_isCached {ino mp found : Nat} (shows : Shows ns table)
    (isCached :
      IsCached table.vnodes ino (table.mountpoints mp).vnodeList (some found)) :
    Names table found { mp := mp, ino := ino } := by
  obtain ⟨inList, cell, isCell, isIno⟩ := isCached
  obtain ⟨again, isAgain, isMp⟩ := shows.ofList mp found inList
  rw [isCell] at isAgain
  obtain rfl := Option.some.inj isAgain
  refine ⟨cell, isCell, ?_⟩
  cases isVnode : cell.vnode with
  | mk itsMp itsIno =>
    rw [isVnode] at isIno isMp
    rw [← isIno, ← isMp]

theorem Shows.unnamed_of_isCached {ino mp : Nat} (shows : Shows ns table)
    (notCached :
      IsCached table.vnodes ino (table.mountpoints mp).vnodeList none)
    (pointer : Nat) : ¬ Names table pointer { mp := mp, ino := ino } := by
  rintro ⟨cell, isCell, isVnode⟩
  have inList := shows.inList pointer cell isCell
  rw [isVnode] at inList
  refine notCached pointer inList cell isCell ?_
  rw [isVnode]

theorem knows_vnodeLookup (mp ino : Nat) :
    Meets (vnodeLookup mp ino) (Knows ns named)
      fun found table =>
        match found with
        | some pointer =>
          Knows ns ((pointer, { mp := mp, ino := ino }) :: named) table
        | none =>
          Knows ns named table ∧
            ∀ pointer, ¬ Names table pointer { mp := mp, ino := ino } := by
  intro table knows
  obtain ⟨found, searched⟩ :=
    @cachedVnode_defined table.vnodes ino (table.mountpoints mp).vnodeList
      fun other inList =>
        have ⟨cell, isCell, _⟩ := knows.shows.ofList mp other inList
        ⟨cell, isCell⟩
  have isCached := cachedVnode_isCached searched
  cases found with
  | some found =>
    refine ⟨some found, table.addRef found 1, ?_, ?_⟩
    · simp [vnodeLookup, StateT.run, searched]
    · exact (knows.more (knows.shows.names_of_isCached isCached)).addRef found 1
  | none =>
    refine ⟨none, table, ?_, knows, knows.shows.unnamed_of_isCached isCached⟩
    simp [vnodeLookup, StateT.run, searched]

theorem knows_vnodeNew (nlink : Vnode → BitVec 16) {newVnode : Vnode}
    (isNamed : (pointer, vnode) ∈ named) (sameMp : newVnode.mp = vnode.mp) :
    Meets (vnodeNew ns nlink newVnode)
      (fun table =>
        Knows ns named table ∧ ∀ pointer, ¬ Names table pointer newVnode)
      fun found table =>
        ∃ added,
          PointerNamed found (openable ns newVnode) added ∧
            Knows ns (added ++ named) table := by
  rintro table ⟨knows, unnamed⟩
  unfold openable
  by_cases opens : ns.opens newVnode = true
  · rw [if_pos opens]
    have sibling := knows.names pointer vnode isNamed
    have old : Knows ns named (table.addNew (.new newVnode (nlink newVnode))) :=
      { shows := knows.shows.addNew sibling sameMp unnamed opens
        names := fun other otherVnode among =>
          names_addNew_of_names (knows.names other otherVnode among) }
    have withNew := old.more ⟨_, Heap.cells_alloc_next, rfl⟩
    refine ⟨some table.vnodes.next, _, ?_, _, .some _ newVnode, withNew⟩
    simp only [vnodeNew, StateT.run, opens, ↓reduceIte]
  · rw [if_neg opens]
    refine ⟨none, table, ?_, [], .none, knows⟩
    simp only [vnodeNew, StateT.run, opens, Bool.false_eq_true, ↓reduceIte]

namespace Counted

theorem knows_leaveMount (name : List Char) :
    Meets (leaveMount pointer name) (Knows ns ((pointer, vnode) :: named))
      fun parent =>
        Knows ns ((parent, Vfs.leaveMount ns vnode name) :: named) := by
  refine knows_readVnode List.mem_cons_self fun cell isVnode _ => ?_
  rw [isVnode]
  refine knows_readMountpoint
    (fun table knows =>
      ⟨pointer, vnode, knows.names _ _ List.mem_cons_self, rfl⟩)
    fun mountpoint parents atParent => ?_
  have isNamed : (pointer, vnode) ∈ parents ++
        (mountpoint.rootVnode, (ns.mountpoint vnode.mp).rootVnode) ::
          (pointer, vnode) :: named := by
    simp
  have rootNamed : (mountpoint.rootVnode, (ns.mountpoint vnode.mp).rootVnode) ∈
        parents ++
          (mountpoint.rootVnode, (ns.mountpoint vnode.mp).rootVnode) ::
            (pointer, vnode) :: named := by
    simp
  refine .assuming
    (fun table knows => knows.same_iff isNamed rootNamed) fun atRoot => ?_
  unfold Vfs.leaveMount
  simp only [atRoot]
  split
  · generalize (ns.mountpoint vnode.mp).parentVnode = parent at atParent
    cases isPointer : mountpoint.parentVnode with
    | none =>
      rw [isPointer] at atParent
      cases atParent with
      | none =>
        refine .pure fun _ knows => knows.fewer ?_
        simp +contextual
    | some parentPointer =>
      rw [isPointer] at atParent
      cases atParent with
      | some _ parentVnode =>
        refine (knows_rel isNamed).bind fun _ => ?_
        refine (knows_hold List.mem_cons_self).bind fun _ => ?_
        refine .pure fun _ knows => knows.fewer ?_
        intro pair among
        rcases List.mem_cons.mp among with rfl | inNamed
        · simp
        · simp [inNamed]
  · refine .pure fun _ knows => knows.fewer ?_
    intro pair among
    simp [among]

theorem knows_enterMount :
    Meets (enterMount pointer) (Knows ns ((pointer, vnode) :: named))
      fun entered =>
        Knows ns ((entered, Vfs.enterMount ns vnode) :: named) := by
  refine knows_readVnode List.mem_cons_self fun cell _ isMount => ?_
  unfold Vfs.enterMount
  rw [isMount]
  cases mounts : ns.vfsmountedhere vnode with
  | none => exact .pure fun _ knows => knows
  | some mp =>
    refine .assuming
      (fun table knows => (knows.shows.mounted vnode mp mounts).1)
      fun itsMp => ?_
    refine knows_readMountpoint
      (fun table knows =>
        ⟨_, _, (knows.shows.mounted vnode mp mounts).2.2, itsMp⟩)
      fun mountpoint parents _ => ?_
    have rootNamed : (mountpoint.rootVnode, (ns.mountpoint mp).rootVnode) ∈
          parents ++
            (mountpoint.rootVnode, (ns.mountpoint mp).rootVnode) ::
              (pointer, vnode) :: named := by
      simp
    refine (knows_hold rootNamed).bind fun _ => ?_
    refine knows_readVnode rootNamed fun root isRoot _ => ?_
    rw [isRoot]
    refine knows_readMountpoint
      (fun table knows => ⟨_, _, knows.names _ _ rootNamed, rfl⟩)
      fun itsMountpoint itsParents atParent => ?_
    refine .assuming
      (fun table knows => (knows.shows.mounted vnode mp mounts).2.1)
      fun isParent => ?_
    rw [itsMp, isParent] at atParent
    cases isPointer : itsMountpoint.parentVnode with
    | none =>
      rw [isPointer] at atParent
      cases atParent
    | some parent =>
      rw [isPointer] at atParent
      cases atParent
      refine (knows_rel List.mem_cons_self).bind fun _ => ?_
      refine .pure fun _ knows => knows.fewer ?_
      intro pair among
      rcases List.mem_cons.mp among with rfl | inNamed
      · simp
      · simp [inNamed]

theorem knows_cacheVnode (nlink : Vnode → BitVec 16)
    (isNamed : (pointer, vnode) ∈ named) (ino : Nat) :
    Meets (cacheVnode ns nlink { mp := vnode.mp, ino := ino }) (Knows ns named)
      fun found table =>
        ∃ added,
          PointerNamed found (openable ns { mp := vnode.mp, ino := ino })
            added ∧
          Knows ns (added ++ named) table := by
  refine (knows_vnodeLookup vnode.mp ino).bind fun found => ?_
  cases found with
  | none => exact knows_vnodeNew nlink isNamed rfl
  | some found =>
    refine .pure fun table knows => ?_
    have names := knows.names found _ List.mem_cons_self
    unfold openable
    rw [if_pos (knows.shows.opens found _ names)]
    exact ⟨_, .some found _, knows⟩

/-- A name that is found yields the vnode that its name yields. -/
inductive FoundNamed :
    Except Errno Nat → Except Errno Vnode → List (Nat × Vnode) → Prop where
  | ok (pointer : Nat) (vnode : Vnode) :
      FoundNamed (.ok pointer) (.ok vnode) [(pointer, vnode)]
  | error (err : Errno) : FoundNamed (.error err) (.error err) []

theorem knows_findVnode (nlink : Vnode → BitVec 16)
    (isNamed : (pointer, vnode) ∈ named) (name : List Char) :
    Meets (findVnode ns nlink pointer name) (Knows ns named)
      fun found table =>
        ∃ added,
          FoundNamed found (Vfs.findVnode ns vnode name) added ∧
            Knows ns (added ++ named) table := by
  refine knows_readVnode isNamed fun cell isVnode _ => ?_
  unfold Vfs.findVnode
  rw [isVnode]
  cases ns.lookup vnode name with
  | none =>
    refine (knows_rel isNamed).bind fun _ => ?_
    exact .pure fun _ knows => ⟨[], .error .ENOENT, knows⟩
  | some ino =>
    refine (knows_cacheVnode nlink isNamed ino).bind fun found => ?_
    refine .of_exists fun added isFound => ?_
    unfold openable at isFound
    dsimp only
    split at isFound
    next opens =>
      cases isFound
      rw [if_pos opens]
      refine knows_enterMount.bind fun entered => ?_
      exact .pure fun _ knows => ⟨_, .ok entered _, knows⟩
    next opens =>
      cases isFound
      rw [if_neg opens]
      refine (knows_rel isNamed).bind fun _ => ?_
      exact .pure fun _ knows => ⟨[], .error Errno.EIO, knows⟩

/-- How a component ends, with a pointer in place of a name. -/
inductive ComponentNamed :
    Component → Vfs.Component → List (Nat × Vnode) → Prop where
  | stop {found : Except Errno Nat} {named : Except Errno Vnode}
      {added : List (Nat × Vnode)}
      (isFound : FoundNamed found named added) :
      ComponentNamed (.stop found) (.stop named) added
  | link (pointer : Nat) (vnode : Vnode) (path : List Char) :
      ComponentNamed (.link pointer path) (.link vnode path) [(pointer, vnode)]
  | enter (pointer : Nat) (vnode : Vnode) :
      ComponentNamed (.enter pointer) (.enter vnode) [(pointer, vnode)]

/-- How a walk ends, with a pointer in place of a name. -/
inductive OutcomeNamed :
    Outcome → Vfs.Outcome → List (Nat × Vnode) → Prop where
  | done {found : Except Errno Nat} {named : Except Errno Vnode}
      {added : List (Nat × Vnode)}
      (isFound : FoundNamed found named added) :
      OutcomeNamed (.done found) (.done named) added
  | link (pointer : Nat) (vnode : Vnode) (path : List Char) :
      OutcomeNamed (.link pointer path) (.link vnode path) [(pointer, vnode)]

section Walk

variable {newPointer : Nat} {newVnode : Vnode} (nlink : Vnode → BitVec 16)
  {process : Process} {pointers : ProcessVnodes} (followlink : Bool)

theorem knows_fail (isNamed : (pointer, vnode) ∈ named)
    (newNamed : (newPointer, newVnode) ∈ named) (errno : Errno) :
    Meets (fail pointer newPointer errno) (Knows ns named)
      fun component table =>
        ∃ added,
          ComponentNamed component (.stop (.error errno)) added ∧
            Knows ns (added ++ named) table := by
  refine (knows_rel isNamed).bind fun _ => ?_
  refine (knows_rel newNamed).bind fun _ => ?_
  exact .pure fun _ knows => ⟨[], .stop (.error errno), knows⟩

theorem knows_inspect (isNamed : (pointer, vnode) ∈ named)
    (newNamed : (newPointer, newVnode) ∈ named)
    (rootNamed : (pointers.vnodeRoot, process.vnodeRoot) ∈ named)
    {name : List Char} (found : Vfs.findVnode ns vnode name = .ok newVnode)
    (isLast : Bool) :
    Meets (inspect ns process pointers followlink pointer newPointer isLast)
      (Knows ns named)
      fun component table =>
        ∃ added,
          ComponentNamed component
              (Vfs.visit ns process followlink vnode name isLast) added ∧
            Knows ns (added ++ named) table := by
  unfold Vfs.visit
  rw [found]
  dsimp only
  refine knows_readVnode isNamed fun cell isVnode _ => ?_
  refine knows_readVnode newNamed fun newCell isNewVnode _ => ?_
  rw [isVnode, isNewVnode]
  split
  · cases ns.readlink newVnode with
    | none => exact knows_fail isNamed newNamed .ENOTSUP
    | some read =>
      cases read with
      | error err => exact knows_fail isNamed newNamed err
      | ok path =>
        refine (knows_rel newNamed).bind fun _ => ?_
        dsimp only
        split
        · refine (knows_rel isNamed).bind fun _ => ?_
          refine (knows_hold rootNamed).bind fun _ => ?_
          refine .pure fun _ knows => ⟨_, .link _ _ path, ?_⟩
          exact knows.more (knows.names _ _ rootNamed)
        · refine .pure fun _ knows => ⟨_, .link _ _ path, ?_⟩
          exact knows.more (knows.names _ _ isNamed)
  · split
    · refine (knows_rel isNamed).bind fun _ => ?_
      refine .pure fun _ knows => ⟨_, .stop (.ok _ _), ?_⟩
      exact knows.more (knows.names _ _ newNamed)
    · split
      · exact knows_fail isNamed newNamed .ENOTDIR
      · split
        · exact knows_fail isNamed newNamed .EACCES
        · refine (knows_rel isNamed).bind fun _ => ?_
          refine .pure fun _ knows => ⟨_, .enter _ _, ?_⟩
          exact knows.more (knows.names _ _ newNamed)

theorem knows_visit (isNamed : (pointer, vnode) ∈ named)
    (rootNamed : (pointers.vnodeRoot, process.vnodeRoot) ∈ named)
    (name : List Char) (isLast : Bool) :
    Meets (visit ns nlink process pointers followlink pointer name isLast)
      (Knows ns named)
      fun component table =>
        ∃ added,
          ComponentNamed component
              (Vfs.visit ns process followlink vnode name isLast) added ∧
            Knows ns (added ++ named) table := by
  refine (knows_findVnode nlink isNamed name).bind fun found => ?_
  refine .of_exists fun added isFound => ?_
  cases looked : Vfs.findVnode ns vnode name with
  | error err =>
    rw [looked] at isFound
    cases isFound
    unfold Vfs.visit
    rw [looked]
    exact .pure fun _ knows => ⟨[], .stop (.error err), knows⟩
  | ok newVnode =>
    rw [looked] at isFound
    cases isFound with
    | ok newPointer =>
      refine (knows_inspect followlink
        (List.mem_cons_of_mem _ isNamed) List.mem_cons_self
        (List.mem_cons_of_mem _ rootNamed) looked isLast).consequence
        (fun _ knows => knows) ?_
      rintro component table ⟨added, isComponent, knows⟩
      refine ⟨added, isComponent, knows.fewer ?_⟩
      intro pair among
      rcases List.mem_append.mp among with isAdded | old
      · exact List.mem_append_left _ isAdded
      · exact List.mem_append_right _ (List.mem_cons_of_mem _ old)

/-- The inner loop over pointers ends as the one over names does. -/
theorem knows_walkTable
    (rootNamed : (pointers.vnodeRoot, process.vnodeRoot) ∈ named)
    (table : List (List Char)) (start : Nat) (startVnode : Vnode) :
    Meets (walkTable ns nlink process pointers followlink table start)
      (Knows ns ((start, startVnode) :: named))
      fun outcome state =>
        ∃ added,
          OutcomeNamed outcome
              (Vfs.walkTable ns process followlink table startVnode).outcome
              added ∧
            Knows ns (added ++ named) state := by
  induction table generalizing start startVnode with
  | nil =>
    exact .pure fun _ knows => ⟨_, .done (.ok _ _), knows⟩
  | cons name rest ih =>
    refine (knows_leaveMount name).bind fun pointer => ?_
    have isNamed : (pointer, Vfs.leaveMount ns startVnode name) ∈
          (pointer, Vfs.leaveMount ns startVnode name) :: named :=
      List.mem_cons_self
    refine .assuming
      (fun state knows =>
        knows.same_iff isNamed (List.mem_cons_of_mem _ rootNamed))
      fun atRoot => ?_
    rw [Vfs.walkTable]
    simp only [atRoot]
    split
    · exact ih pointer _
    · refine (knows_visit nlink followlink isNamed
        (List.mem_cons_of_mem _ rootNamed) name rest.isEmpty).bind
        fun component => ?_
      refine .of_exists fun added isComponent => ?_
      generalize Vfs.visit ns process followlink
        (Vfs.leaveMount ns startVnode name) name rest.isEmpty = visited
        at isComponent ⊢
      have fewer : ∀ pair, pair ∈ added ++ named →
            pair ∈ added ++
              (pointer, Vfs.leaveMount ns startVnode name) :: named := by
        intro pair among
        rcases List.mem_append.mp among with isAdded | old
        · exact List.mem_append_left _ isAdded
        · exact List.mem_append_right _ (List.mem_cons_of_mem _ old)
      cases isComponent with
      | stop isFound =>
        exact .pure fun _ knows => ⟨added, .done isFound, knows.fewer fewer⟩
      | link target targetVnode path =>
        exact .pure fun _ knows =>
          ⟨_, .link target targetVnode path, knows.fewer fewer⟩
      | enter newPointer newVnode =>
        exact (ih newPointer newVnode).consequence
          (fun _ knows => knows.fewer fewer) fun _ _ holds => holds

theorem knows_followLinks
    (rootNamed : (pointers.vnodeRoot, process.vnodeRoot) ∈ named)
    (tries : Nat) (start : Nat) (startVnode : Vnode) (path : List Char) :
    Meets (followLinks ns nlink process pointers followlink tries start path)
      (Knows ns ((start, startVnode) :: named))
      fun found state =>
        ∃ added,
          FoundNamed found
              (Vfs.followLinks ns process followlink tries startVnode
                path).result added ∧
            Knows ns (added ++ named) state := by
  induction tries generalizing start startVnode path with
  | zero =>
    refine (knows_rel List.mem_cons_self).bind fun _ => ?_
    exact .pure fun _ knows =>
      ⟨[], .error .ELOOP,
        knows.fewer fun _ among => List.mem_cons_of_mem _ among⟩
  | succ tries ih =>
    refine (knows_walkTable nlink followlink rootNamed
      (strExplode path '/') start startVnode).bind fun outcome => ?_
    refine .of_exists fun added isOutcome => ?_
    rw [Vfs.followLinks]
    generalize (Vfs.walkTable ns process followlink (strExplode path '/')
      startVnode).outcome = ended at isOutcome ⊢
    cases isOutcome with
    | done isFound =>
      exact .pure fun _ knows => ⟨added, isFound, knows⟩
    | link target targetVnode next =>
      exact ih target targetVnode next

end Walk

end Counted

end Contracts

/-- The pointers of a process are those of its vnodes. -/
structure PointersNamed
    (process : Process) (pointers : ProcessVnodes)
    (table : VnodeTable) : Prop where
  root : Names table pointers.vnodeRoot process.vnodeRoot
  current : Names table pointers.vnodeCurrent process.vnodeCurrent

theorem vnodeGet_refines (nlink : Vnode → BitVec 16)
    (followlink : Bool) (path : List Char)
    {ns : Namespace} {process : Process} {pointers : ProcessVnodes}
    {table : VnodeTable} (shows : Shows ns table)
    (arePointers : PointersNamed process pointers table) :
    ∃ result after,
      (Counted.vnodeGet ns nlink process pointers followlink path).run
          table = some (result, after) ∧
        Shows ns after ∧
        match result with
        | .ok found =>
          ∃ vnode, Names after found vnode ∧
            vnodeGet ns process followlink path = .ok vnode
        | .error err =>
          vnodeGet ns process followlink path = .error err := by
  have startNamed : Names table (Counted.startVnode pointers path)
        (startVnode process path) := by
    unfold Counted.startVnode startVnode
    split
    · exact arePointers.root
    · exact arePointers.current
  have nothing : Knows ns [] table := { shows := shows, names := by simp }
  have knows := (nothing.more arePointers.root).more startNamed
  obtain ⟨result, after, runs, added, isFound, knowsAfter⟩ :=
    ((knows_hold List.mem_cons_self).bind fun _ =>
      Counted.knows_followLinks nlink followlink List.mem_cons_self
        SYMLOOP_MAX _ _ path) table knows
  refine ⟨result, after, runs, knowsAfter.shows, ?_⟩
  unfold vnodeGet resolve
  generalize (followLinks ns process followlink SYMLOOP_MAX
    (startVnode process path) path).result = named at isFound ⊢
  cases isFound with
  | ok found vnode =>
    exact ⟨vnode, knowsAfter.names _ _ List.mem_cons_self, rfl⟩
  | error err => rfl

end Idylla.Vfs
