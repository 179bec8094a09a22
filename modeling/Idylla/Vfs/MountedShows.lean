import Idylla.Vfs.Mount
import Idylla.Vfs.MountedTables
import Idylla.Vfs.VnodeRefinement

namespace Idylla.Vfs

open Idylla.Lib

/-!
# Tables that show the mounts

The vnodes in memory belong to the mountpoints there are.  A mounted root
filesystem shows the namespace that has nothing else, and the table with a new
mountpoint shows the namespace with it.
-/

/-- Every vnode in memory belongs to one of the first mountpoints. -/
def Within (count : Nat) (table : VnodeTable) : Prop :=
  ∀ pointer cell, table.vnodes.cells pointer = some cell → cell.vnode.mp < count

section Walk

variable {count : Nat}

theorem Within.addRef {table : VnodeTable}
    (within : Within count table) (vnode : Nat) (change : Int) :
    Within count (table.addRef vnode change) := by
  intro pointer cell isCell
  obtain ⟨before, isBefore, sameName, -⟩ := cells_addRef_some isCell
  rw [sameName]
  exact within pointer before isBefore

theorem keeps_hold (vnode : Nat) : Keeps (Within count) (VNODE_HOLD vnode) := by
  intro table result next within runs
  obtain ⟨cell, -, isNext⟩ := Option.map_eq_some_iff.mp runs
  obtain ⟨-, rfl⟩ := Prod.mk.inj isNext
  exact within.addRef vnode 1

theorem keeps_rel (vnode : Nat) : Keeps (Within count) (VNODE_REL vnode) := by
  intro table result next within runs
  obtain ⟨cell, -, isNext⟩ := Option.map_eq_some_iff.mp runs
  obtain ⟨-, rfl⟩ := Prod.mk.inj isNext
  exact within.addRef vnode (-1)

theorem keeps_readVnode {Result : Type} {later : VnodeCell → VnodeM Result}
    (vnode : Nat)
    (goesOn :
      ∀ cell, cell.vnode.mp < count → Keeps (Within count) (later cell)) :
    Keeps (Within count) (readVnode vnode >>= later) := by
  intro table result next within runs
  obtain ⟨⟨cell, after⟩, isRead, runsLater⟩ := Option.bind_eq_some_iff.mp runs
  obtain ⟨read, isCell, same⟩ := Option.map_eq_some_iff.mp isRead
  obtain ⟨rfl, rfl⟩ := Prod.mk.inj same
  exact goesOn read (within vnode read isCell) table result next within
    runsLater

theorem keeps_readMountpoint {Result : Type} {later : MountCell → VnodeM Result}
    (mp : Nat)
    (goesOn : ∀ mountpoint, Keeps (Within count) (later mountpoint)) :
    Keeps (Within count) (readMountpoint mp >>= later) :=
  fun table => goesOn (table.mountpoints mp) table

theorem keeps_vnodeLookup (mp ino : Nat) :
    Keeps (Within count) (vnodeLookup mp ino) := by
  intro table result next within runs
  obtain ⟨found, -, isNext⟩ := Option.map_eq_some_iff.mp runs
  cases found with
  | none =>
    obtain ⟨-, rfl⟩ := Prod.mk.inj isNext
    exact within
  | some vnode =>
    obtain ⟨-, rfl⟩ := Prod.mk.inj isNext
    exact within.addRef vnode 1

variable (ns : Namespace) (nlink : Vnode → BitVec 16)

theorem keeps_vnodeNew {newVnode : Vnode} (bounded : newVnode.mp < count) :
    Keeps (Within count) (vnodeNew ns nlink newVnode) := by
  intro table result next within runs
  by_cases opens : ns.opens newVnode = true
  · simp only [vnodeNew, StateT.run, opens, ↓reduceIte,
      Option.some.injEq] at runs
    obtain ⟨-, rfl⟩ := Prod.mk.inj runs
    intro pointer cell isCell
    rcases cells_addNew isCell with ⟨-, rfl⟩ | isOld
    · exact bounded
    · exact within pointer cell isOld
  · simp only [vnodeNew, StateT.run, opens, Bool.false_eq_true, ↓reduceIte,
      Option.some.injEq] at runs
    obtain ⟨-, rfl⟩ := Prod.mk.inj runs
    exact within

namespace Counted

theorem keeps_leaveMount (vnode : Nat) (name : List Char) :
    Keeps (Within count) (leaveMount vnode name) := by
  refine keeps_readVnode vnode fun cell _ => ?_
  refine keeps_readMountpoint cell.vnode.mp fun mountpoint => ?_
  split
  · cases mountpoint.parentVnode with
    | none => exact .pure
    | some parent =>
      exact (keeps_rel vnode).bind fun _ =>
        (keeps_hold parent).bind fun _ => .pure
  · exact .pure

theorem keeps_enterMount (newVnode : Nat) :
    Keeps (Within count) (enterMount newVnode) := by
  refine keeps_readVnode newVnode fun cell _ => ?_
  cases cell.vfsmountedhere with
  | none => exact .pure
  | some mp =>
    refine keeps_readMountpoint mp fun mountpoint => ?_
    refine (keeps_hold mountpoint.rootVnode).bind fun _ => ?_
    refine keeps_readVnode mountpoint.rootVnode fun root _ => ?_
    refine keeps_readMountpoint root.vnode.mp fun itsMountpoint => ?_
    cases itsMountpoint.parentVnode with
    | none => exact .failure
    | some parent => exact (keeps_rel parent).bind fun _ => .pure

theorem keeps_cacheVnode {newVnode : Vnode} (bounded : newVnode.mp < count) :
    Keeps (Within count) (cacheVnode ns nlink newVnode) := by
  refine (keeps_vnodeLookup newVnode.mp newVnode.ino).bind fun found => ?_
  cases found with
  | none => exact keeps_vnodeNew ns nlink bounded
  | some vnode => exact .pure

theorem keeps_findVnode (vnode : Nat) (name : List Char) :
    Keeps (Within count) (findVnode ns nlink vnode name) := by
  refine keeps_readVnode vnode fun cell bounded => ?_
  cases ns.lookup cell.vnode name with
  | none => exact (keeps_rel vnode).bind fun _ => .pure
  | some ino =>
    have sameMp : (Vnode.mk cell.vnode.mp ino).mp < count := bounded
    refine (keeps_cacheVnode ns nlink sameMp).bind fun found => ?_
    cases found with
    | none => exact (keeps_rel vnode).bind fun _ => .pure
    | some newVnode =>
      exact (keeps_enterMount newVnode).bind fun _ => .pure

variable (process : Process) (pointers : ProcessVnodes) (followlink : Bool)

theorem keeps_fail (vnode newVnode : Nat) (errno : Errno) :
    Keeps (Within count) (fail vnode newVnode errno) :=
  (keeps_rel vnode).bind fun _ => (keeps_rel newVnode).bind fun _ => .pure

theorem keeps_inspect (vnode newVnode : Nat) (isLast : Bool) :
    Keeps (Within count)
      (inspect ns process pointers followlink vnode newVnode isLast) := by
  refine keeps_readVnode vnode fun cell _ => ?_
  refine keeps_readVnode newVnode fun newCell _ => ?_
  split
  · cases ns.readlink newCell.vnode with
    | none => exact keeps_fail vnode newVnode .ENOTSUP
    | some read =>
      cases read with
      | error err => exact keeps_fail vnode newVnode err
      | ok path =>
        refine (keeps_rel newVnode).bind fun _ => ?_
        split
        · exact (keeps_rel vnode).bind fun _ =>
            (keeps_hold pointers.vnodeRoot).bind fun _ => .pure
        · exact .pure
  · split
    · exact (keeps_rel vnode).bind fun _ => .pure
    · split
      · exact keeps_fail vnode newVnode .ENOTDIR
      · split
        · exact keeps_fail vnode newVnode .EACCES
        · exact (keeps_rel vnode).bind fun _ => .pure

theorem keeps_visit (vnode : Nat) (name : List Char) (isLast : Bool) :
    Keeps (Within count)
      (visit ns nlink process pointers followlink vnode name isLast) := by
  refine (keeps_findVnode ns nlink vnode name).bind fun found => ?_
  cases found with
  | error err => exact .pure
  | ok newVnode =>
    exact keeps_inspect ns process pointers followlink vnode newVnode isLast

theorem keeps_walkTable (table : List (List Char)) (start : Nat) :
    Keeps (Within count)
      (walkTable ns nlink process pointers followlink table start) := by
  induction table generalizing start with
  | nil => exact .pure
  | cons name rest ih =>
    refine (keeps_leaveMount start name).bind fun vnode => ?_
    split
    · exact ih vnode
    · refine (keeps_visit ns nlink process pointers followlink vnode name
        rest.isEmpty).bind fun component => ?_
      cases component with
      | stop result => exact .pure
      | link target path => exact .pure
      | enter newVnode => exact ih newVnode

theorem keeps_followLinks (tries : Nat) (start : Nat) (path : List Char) :
    Keeps (Within count)
      (followLinks ns nlink process pointers followlink tries start path) := by
  induction tries generalizing start path with
  | zero => exact (keeps_rel start).bind fun _ => .pure
  | succ tries ih =>
    refine (keeps_walkTable ns nlink process pointers followlink
      (strExplode path '/') start).bind fun outcome => ?_
    cases outcome with
    | done result => exact .pure
    | link target next => exact ih target next

theorem keeps_vnodeGet (path : List Char) :
    Keeps (Within count) (vnodeGet ns nlink process pointers followlink path) :=
  (keeps_hold _).bind fun _ =>
    keeps_followLinks ns nlink process pointers followlink SYMLOOP_MAX _ path

end Counted

end Walk

@[simp] theorem VnodeCell.new_vnode (vnode : Vnode) (nlink : BitVec 16) :
    (VnodeCell.new vnode nlink).vnode = vnode :=
  rfl

theorem Shows.boot {mounts : Mounts} {root : Vnode} (onlyRoot : OnlyRoot mounts)
    (isRoot : (mounts.ns.mountpoint 0).rootVnode = root)
    (opens : mounts.ns.opens root = true) (nlink : BitVec 16) :
    Shows mounts.ns (VnodeTable.boot.mount none (.new root nlink)) := by
  have isFirst : root.mp = 0 := isRoot ▸ onlyRoot.root_mp
  have isOnly : ∀ {pointer cell},
        (VnodeTable.boot.mount none (.new root nlink)).vnodes.cells pointer =
            some cell →
          pointer = 0 ∧ cell = .new root nlink := by
    intro pointer cell isCell
    rcases Heap.cells_alloc_some isCell with isNew | isOld
    · exact isNew
    · cases isOld
  have isCell : (VnodeTable.boot.mount none (.new root nlink)).vnodes.cells 0 =
        some (.new root nlink) :=
    Heap.cells_alloc_next
  have mountpoint :
      (VnodeTable.boot.mount none (.new root nlink)).mountpoints root.mp =
        { rootVnode := 0, parentVnode := none, vnodeList := [0] } :=
    if_pos rfl
  refine
    { inList := ?_, ofList := ?_, unique := ?_, opens := ?_, covers := ?_,
      uncovered := fun vnode _ => onlyRoot.nothing_mounted vnode,
      roots := ?_, parents := ?_, mounted := ?_ }
  · intro pointer cell wasCell
    obtain ⟨rfl, rfl⟩ := isOnly wasCell
    rw [VnodeCell.new_vnode, mountpoint]
    exact List.mem_singleton_self 0
  · intro mp pointer inList
    by_cases isMp : mp = root.mp
    · subst isMp
      rw [mountpoint] at inList
      obtain rfl := List.mem_singleton.mp inList
      exact ⟨_, isCell, rfl⟩
    · have other :
          (VnodeTable.boot.mount none (.new root nlink)).mountpoints mp =
            VnodeTable.boot.mountpoints mp :=
        if_neg isMp
      rw [other] at inList
      cases inList
  · rintro first second vnode ⟨cell, wasCell, -⟩ ⟨other, isOther, -⟩
    rw [(isOnly wasCell).1, (isOnly isOther).1]
  · rintro pointer vnode ⟨cell, wasCell, rfl⟩
    rw [(isOnly wasCell).2]
    exact opens
  · intro pointer cell wasCell
    rw [(isOnly wasCell).2, onlyRoot.nothing_mounted]
    rfl
  · rintro pointer vnode ⟨cell, wasCell, rfl⟩
    rw [(isOnly wasCell).2, VnodeCell.new_vnode, mountpoint, isFirst, isRoot]
    exact ⟨_, isCell, rfl⟩
  · rintro pointer vnode ⟨cell, wasCell, rfl⟩
    rw [(isOnly wasCell).2, VnodeCell.new_vnode, mountpoint, isFirst,
      onlyRoot.no_parent]
    trivial
  · intro vnode mp covered
    rw [onlyRoot.nothing_mounted] at covered
    cases covered

section Install

variable {mounts : Mounts} {table : VnodeTable} {pointer : Nat} {vnode : Vnode}

/-- The table with a new mountpoint over the vnode. -/
def VnodeTable.install (table : VnodeTable) (vnode : Nat) (root : Vnode)
    (nlink : BitVec 16) : VnodeTable :=
  (table.mount (some vnode) (.new root nlink)).cover vnode root.mp

variable {root : Vnode} {nlink : BitVec 16} {other : Nat}

theorem cells_install {cell : VnodeCell} (isLive : table.Live pointer)
    (isCell :
      (table.install pointer root nlink).vnodes.cells other = some cell) :
    other = table.vnodes.next ∧ cell = .new root nlink ∨
      ∃ before, table.vnodes.cells other = some before ∧
        cell.vnode = before.vnode ∧
        cell.refcount = before.refcount ∧
        cell.vfsmountedhere = if other = pointer then some root.mp
          else before.vfsmountedhere := by
  obtain ⟨covered, isCovered⟩ := isLive
  by_cases same : other = pointer
  · subst same
    have isNow := Heap.cells_modify_same.symm.trans isCell
    obtain ⟨before, isBefore, rfl⟩ := Option.map_eq_some_iff.mp isNow
    have isOld := (Heap.cells_alloc_of_some isCovered).symm.trans isBefore
    obtain rfl := Option.some.inj isOld
    exact .inr ⟨covered, isCovered, rfl, rfl, (if_pos rfl).symm⟩
  · have isNow := (Heap.cells_modify_of_ne same).symm.trans isCell
    rcases Heap.cells_alloc_some isNow with isNew | isOld
    · exact .inl isNew
    · exact .inr ⟨cell, isOld, rfl, rfl, (if_neg same).symm⟩

theorem Names.install
    {other : Nat} {otherVnode root : Vnode} {nlink : BitVec 16}
    (names : Names table other otherVnode) :
    Names (table.install pointer root nlink) other otherVnode := by
  obtain ⟨cell, isCell, rfl⟩ := names
  by_cases same : other = pointer
  · subst same
    exact ⟨_, Heap.cells_modify_same.trans
      (congrArg _ (Heap.cells_alloc_of_some isCell)), rfl⟩
  · exact ⟨cell, (Heap.cells_modify_of_ne same).trans
      (Heap.cells_alloc_of_some isCell), rfl⟩

theorem names_install_root {root : Vnode} {nlink : BitVec 16}
    (isLive : table.Live pointer) :
    Names (table.install pointer root nlink) table.vnodes.next root := by
  obtain ⟨cell, isCell⟩ := isLive
  have differs : table.vnodes.next ≠ pointer :=
    Ne.symm (Nat.ne_of_lt (Heap.lt_next isCell))
  exact ⟨_, (Heap.cells_modify_of_ne differs).trans Heap.cells_alloc_next, rfl⟩

theorem names_install {otherVnode : Vnode} (isLive : table.Live pointer)
    (names : Names (table.install pointer root nlink) other otherVnode) :
    other = table.vnodes.next ∧ otherVnode = root ∨
      Names table other otherVnode := by
  obtain ⟨cell, isCell, rfl⟩ := names
  rcases cells_install isLive isCell with
    ⟨isNew, rfl⟩ | ⟨before, isBefore, sameName, -⟩
  · exact .inl ⟨isNew, rfl⟩
  · exact .inr ⟨before, isBefore, sameName.symm⟩

theorem mountpoints_install (pointer : Nat) (root : Vnode) (nlink : BitVec 16)
    (mp : Nat) :
    (table.install pointer root nlink).mountpoints mp =
      if mp = root.mp then
        { rootVnode := table.vnodes.next
          parentVnode := some pointer
          vnodeList := [table.vnodes.next] }
      else table.mountpoints mp :=
  rfl

theorem namesOption_install {parent : Option Nat} {name : Option Vnode}
    (names : NamesOption table parent name) :
    NamesOption (table.install pointer root nlink) parent name := by
  cases parent <;> cases name
  · trivial
  · exact names
  · exact names
  · exact Names.install names

theorem Within.ne_count {count : Nat} {otherVnode : Vnode}
    (within : Within count table) (names : Names table other otherVnode) :
    otherVnode.mp ≠ count := by
  obtain ⟨cell, isCell, rfl⟩ := names
  exact Nat.ne_of_lt (within other cell isCell)

theorem Shows.covers_install
    (shows : Shows mounts.ns table) (within : Within mounts.count table)
    (names : Names table pointer vnode) {fs : Filesystem} {cell : VnodeCell}
    (isCell :
      (table.install pointer { mp := mounts.count, ino := fs.root }
        nlink).vnodes.cells other = some cell) :
    cell.vfsmountedhere = if cell.vnode = vnode then some mounts.count
      else mounts.ns.vfsmountedhere cell.vnode := by
  have isLive : table.Live pointer := by
    obtain ⟨cell, isCell, -⟩ := names
    exact ⟨cell, isCell⟩
  rcases cells_install isLive isCell with
    ⟨rfl, rfl⟩ | ⟨before, isBefore, sameName, -, mounted⟩
  · have unnamed : ∀ other, ¬ Names table other
          { mp := mounts.count, ino := fs.root } :=
      fun other isNamed => within.ne_count isNamed rfl
    have differs :
        ({ mp := mounts.count, ino := fs.root } : Vnode) ≠ vnode := by
      rintro rfl
      exact unnamed pointer names
    rw [VnodeCell.new_vnode, if_neg differs, shows.uncovered _ unnamed]
    rfl
  · rw [mounted, sameName, shows.covers other before isBefore]
    by_cases same : other = pointer
    · subst same
      have isVnode : before.vnode = vnode :=
        Names.unique ⟨before, isBefore, rfl⟩ names
      rw [if_pos rfl, if_pos isVnode]
    · have isOther : before.vnode ≠ vnode := by
        rintro rfl
        exact same
          (shows.unique other pointer before.vnode
            ⟨before, isBefore, rfl⟩ names)
      rw [if_neg same, if_neg isOther]

theorem Shows.install
    (shows : Shows mounts.ns table) (within : Within mounts.count table)
    (names : Names table pointer vnode) (fs : Filesystem) (flags : Nat)
    (nlink : BitVec 16)
    (opens : mounts.ns.opens { mp := mounts.count, ino := fs.root } = true) :
    Shows (mounts.install vnode fs flags).ns
      (table.install pointer { mp := mounts.count, ino := fs.root } nlink) := by
  have isLive : table.Live pointer := by
    obtain ⟨cell, isCell, -⟩ := names
    exact ⟨cell, isCell⟩
  have bounded : ∀ {other otherVnode}, Names table other otherVnode →
        otherVnode.mp ≠ mounts.count :=
    within.ne_count
  have newMountpoint :
      (mounts.install vnode fs flags).ns.mountpoint mounts.count =
        { rootVnode := { mp := mounts.count, ino := fs.root }
          parentVnode := some vnode
          flags := flags
          ops := fs.ops } :=
    if_pos rfl
  have oldMountpoint : ∀ {mp}, mp ≠ mounts.count →
        (mounts.install vnode fs flags).ns.mountpoint mp =
          mounts.ns.mountpoint mp :=
    fun differs => if_neg differs
  have newTable :
      (table.install pointer { mp := mounts.count, ino := fs.root }
        nlink).mountpoints mounts.count =
        { rootVnode := table.vnodes.next
          parentVnode := some pointer
          vnodeList := [table.vnodes.next] } :=
    if_pos rfl
  have oldTable : ∀ {mp}, mp ≠ mounts.count →
        (table.install pointer { mp := mounts.count, ino := fs.root }
          nlink).mountpoints mp = table.mountpoints mp :=
    fun differs => if_neg differs
  have rootNamed :=
    @names_install_root table pointer { mp := mounts.count, ino := fs.root }
      nlink isLive
  refine
    { inList := ?_, ofList := ?_, unique := ?_, opens := ?_, covers := ?_,
      uncovered := ?_, roots := ?_, parents := ?_, mounted := ?_ }
  · intro other cell isCell
    rcases cells_install isLive isCell with
      ⟨rfl, rfl⟩ | ⟨before, isBefore, sameName, -⟩
    · rw [VnodeCell.new_vnode, newTable]
      exact List.mem_singleton_self _
    · rw [sameName, oldTable (bounded ⟨before, isBefore, rfl⟩)]
      exact shows.inList other before isBefore
  · intro mp other inList
    by_cases isNew : mp = mounts.count
    · subst isNew
      rw [newTable] at inList
      obtain rfl := List.mem_singleton.mp inList
      obtain ⟨cell, isCell, isName⟩ := rootNamed
      exact ⟨cell, isCell, by rw [isName]⟩
    · rw [oldTable isNew] at inList
      obtain ⟨cell, isCell, itsMp⟩ := shows.ofList mp other inList
      obtain ⟨now, isNow, isName⟩ :=
        @Names.install table pointer other cell.vnode
          { mp := mounts.count, ino := fs.root } nlink ⟨cell, isCell, rfl⟩
      exact ⟨now, isNow, by rw [isName, itsMp]⟩
  · intro first second other isFirst isSecond
    rcases names_install isLive isFirst with ⟨rfl, rfl⟩ | oldFirst
    · rcases names_install isLive isSecond with ⟨rfl, -⟩ | oldSecond
      · rfl
      · exact absurd rfl (bounded oldSecond)
    · rcases names_install isLive isSecond with ⟨rfl, rfl⟩ | oldSecond
      · exact absurd rfl (bounded oldFirst)
      · exact shows.unique first second other oldFirst oldSecond
  · intro other otherVnode isNamed
    rcases names_install isLive isNamed with ⟨-, rfl⟩ | old
    · exact opens
    · exact shows.opens other otherVnode old
  · intro other cell isCell
    exact shows.covers_install within names isCell
  · intro asked unnamed
    have notVnode : asked ≠ vnode := by
      rintro rfl
      exact unnamed pointer names.install
    have isOld : ∀ other, ¬ Names table other asked :=
      fun other isNamed => unnamed other isNamed.install
    exact (if_neg notVnode).trans (shows.uncovered asked isOld)
  · intro other otherVnode isNamed
    rcases names_install isLive isNamed with ⟨-, rfl⟩ | old
    · rw [newTable, newMountpoint]
      exact rootNamed
    · rw [oldTable (bounded old), oldMountpoint (bounded old)]
      exact (shows.roots other otherVnode old).install
  · intro other otherVnode isNamed
    rcases names_install isLive isNamed with ⟨-, rfl⟩ | old
    · rw [newTable, newMountpoint]
      exact names.install
    · rw [oldTable (bounded old), oldMountpoint (bounded old)]
      exact namesOption_install (shows.parents other otherVnode old)
  · intro asked mp covered
    by_cases isVnode : asked = vnode
    · subst isVnode
      obtain rfl : mounts.count = mp :=
        Option.some.inj ((if_pos rfl).symm.trans covered)
      rw [newMountpoint, newTable]
      exact ⟨rfl, rfl, rootNamed⟩
    · have wasCovered : mounts.ns.vfsmountedhere asked = some mp :=
        (if_neg isVnode).symm.trans covered
      obtain ⟨itsMp, isParent, isRoot⟩ := shows.mounted asked mp wasCovered
      have differs : mp ≠ mounts.count := itsMp ▸ bounded isRoot
      rw [oldMountpoint differs, oldTable differs]
      exact ⟨itsMp, isParent, isRoot.install⟩

theorem Within.install {count : Nat}
    (within : Within count table) (isLive : table.Live pointer) (ino : Nat)
    (nlink : BitVec 16) :
    Within (count + 1)
      (table.install pointer { mp := count, ino := ino } nlink) := by
  intro other cell isCell
  rcases cells_install isLive isCell with
    ⟨-, rfl⟩ | ⟨before, isBefore, sameName, -⟩
  · exact Nat.lt_succ_self count
  · rw [sameName]
    exact Nat.lt_succ_of_lt (within other before isBefore)

end Install

end Idylla.Vfs
