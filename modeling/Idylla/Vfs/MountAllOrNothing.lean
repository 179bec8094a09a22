import Idylla.Vfs.MountCalls

namespace Idylla.Vfs

open Idylla.Lib

/-!
# What a mount leaves

`sys_mount` refines the call on names, so that the kernel shows the mounts over
any run.  Every exit behind `fs_lookup` keeps the reference to the filesystem;
the one behind a root that cannot be opened returns 0.
-/

section Registered

variable {fstype : List Char} {fs : RegisteredFs}

theorem holdFs_some {fsList held : List RegisteredFs}
    (found : holdFs fstype fsList = some (fs, held)) :
    fs ∈ fsList ∧ fs.name = fstype ∧ held ≠ fsList := by
  induction fsList generalizing held with
  | nil =>
    cases found
  | cons first rest ih =>
    rw [holdFs] at found
    split at found
    next isName =>
      cases found
      refine ⟨List.mem_cons_self, isName, fun same => ?_⟩
      have counted :=
        congrArg RegisteredFs.refcount (List.head_eq_of_cons_eq same)
      dsimp only at counted
      omega
    next isOther =>
      obtain ⟨⟨other, after⟩, foundRest, same⟩ :=
        Option.map_eq_some_iff.mp found
      obtain ⟨rfl, rfl⟩ := Prod.mk.inj same
      obtain ⟨isMember, isName, differs⟩ := ih foundRest
      exact ⟨List.mem_cons_of_mem _ isMember, isName,
        fun same => differs (List.tail_eq_of_cons_eq same)⟩

end Registered

section Refines

variable {mounts : Mounts} {table : VnodeTable} {kernel after : MountKernel}
  {process : Process} {pointers : ProcessVnodes} {arguments : MountArguments}
  {outcome : MountOutcome} {nlink : Vnode → BitVec 16}
  {result : Except Errno Unit}

theorem Shows.unused (shows : Shows mounts.ns table)
    (within : Within mounts.count table) : table.Unused mounts.count := by
  intro pointer cell isCell covers
  rw [shows.covers pointer cell isCell] at covers
  obtain ⟨itsMp, -, root, isRoot, isName⟩ :=
    shows.mounted cell.vnode mounts.count covers
  have bounded := within _ root isRoot
  rw [isName, itsMp] at bounded
  exact Nat.lt_irrefl _ bounded

theorem TableSound.install (sound : TableSound table) {pointer : Nat}
    (isLive : table.Live pointer) (root : Vnode) (unused : table.Unused root.mp)
    (nlink : BitVec 16) : TableSound (table.install pointer root nlink) :=
  sound.step (.mount pointer root nlink isLive unused)

theorem Quiet.represents (represents : kernel.Represents mounts)
    (quiet : Quiet mounts kernel.table [] table) (held : List RegisteredFs) :
    ({ kernel with fsList := held, table := table } :
      MountKernel).Represents mounts where
  count := represents.count
  shows := quiet.shows
  sound := quiet.owes.sound represents.sound
  within := quiet.within

/-- What the call on names returns, and the mounts behind it. -/
def Refines (mounts : Mounts) (after : MountKernel)
    (result : Except Errno Unit) : Except Errno Mounts → Prop
  | .ok next => result = .ok () ∧ after.Represents next
  | .error err => result = .error err ∧ after.Represents mounts

theorem MountEnds.refines (represents : kernel.Represents mounts)
    (ends :
      MountEnds mounts nlink process arguments outcome kernel result after) :
    Refines mounts after result
      (sysMount mounts process
        (arguments.request
          ((holdFs arguments.fstype kernel.fsList).map Prod.fst)
          outcome)) := by
  cases ends with
  | refused unprivileged =>
    have refuses : process.euid ≠ 0 ∧ process.uid ≠ 0 := unprivileged
    unfold sysMount
    rw [if_pos refuses]
    exact ⟨rfl, represents⟩
  | unknown privileged missing =>
    have allows : ¬ (process.euid ≠ 0 ∧ process.uid ≠ 0) := privileged
    unfold sysMount
    rw [if_neg allows, missing]
    exact ⟨rfl, represents⟩
  | failed privileged found quiet names =>
    rw [found, Option.map_some, names]
    exact ⟨rfl, quiet.represents represents _⟩
  | unopened privileged found quiet mountable mounted closed =>
    rw [found, Option.map_some,
      sysMount_mountable privileged mountable mounted, if_neg closed]
    exact ⟨rfl, quiet.represents represents _⟩
  | mounted privileged found quiet names mountable mounted opens atCount =>
    rw [found, Option.map_some,
      sysMount_mountable privileged mountable mounted, if_pos opens]
    have sound := quiet.owes.sound represents.sound
    exact ⟨rfl,
      { count := rfl
        shows :=
          quiet.shows.install quiet.within names _ arguments.flags _ opens
        sound := sound.install names.live _ (quiet.shows.unused quiet.within) _
        within := quiet.within.install names.live _ _ }⟩

end Refines

/-- What changes the kernel or the filesystems. -/
inductive KernelLabel where
  | mount (result : Except Errno Unit)
  | vnodeGet
  | count
  | change

/--
The steps of the kernel: calls of `sys_mount`, paths that other calls resolve,
references that they count, and changes of what the filesystems contain.
-/
inductive KernelStep :
    Mounts × MountKernel → KernelLabel → Mounts × MountKernel → Prop where
  | mount {mounts next : Mounts} {kernel after : MountKernel}
      {process : Process} {pointers : ProcessVnodes}
      {nlink : Vnode → BitVec 16} {rdev : Vnode → Nat}
      {arguments : MountArguments} {outcome : MountOutcome}
      {result : Except Errno Unit}
      (named : PointersNamed process pointers kernel.table)
      (runs :
        (Counted.sysMount mounts.ns nlink rdev process pointers arguments
            outcome).run kernel = some (result, after))
      (isNext :
        next =
          match
            sysMount mounts process
              (arguments.request
                ((holdFs arguments.fstype kernel.fsList).map Prod.fst)
                outcome) with
          | .ok changed => changed
          | .error _ => mounts) :
      KernelStep (mounts, kernel) (.mount result) (next, after)
  | vnodeGet {mounts : Mounts} {kernel : MountKernel} {table : VnodeTable}
      {process : Process} {pointers : ProcessVnodes}
      {nlink : Vnode → BitVec 16} {followlink : Bool} {path : List Char}
      {result : Except Errno Nat}
      (named : PointersNamed process pointers kernel.table)
      (runs :
        (Counted.vnodeGet mounts.ns nlink process pointers followlink
            path).run kernel.table = some (result, table)) :
      KernelStep (mounts, kernel) .vnodeGet
        (mounts, { kernel with table := table })
  | count {mounts : Mounts} {kernel : MountKernel}
      (vnode : Nat) (change : Int) :
      KernelStep (mounts, kernel) .count
        (mounts, { kernel with table := kernel.table.addRef vnode change })
  | change {mounts : Mounts} {kernel : MountKernel} (ns : Namespace)
      (sameMounts : ns.mountpoint = mounts.ns.mountpoint)
      (sameCovers : ns.vfsmountedhere = mounts.ns.vfsmountedhere)
      (cachedOpen :
        ∀ pointer vnode, Names kernel.table pointer vnode →
          ns.opens vnode = true) :
      KernelStep (mounts, kernel) .change ({ mounts with ns := ns }, kernel)

/-- Only the root filesystem is mounted, and its root is in memory. -/
def MountKernel.boot
    (root : Vnode) (nlink : BitVec 16) (fsList : List RegisteredFs)
    (mountList : List MountEntry) : MountKernel where
  count := 1
  table := VnodeTable.boot.mount none (.new root nlink)
  fsList := fsList
  mountList := mountList

section Runs

variable {mounts : Mounts} {root : Vnode}

theorem represents_boot (onlyRoot : OnlyRoot mounts)
    (isRoot : (mounts.ns.mountpoint 0).rootVnode = root)
    (opens : mounts.ns.opens root = true)
    (nlink : BitVec 16) (fsList : List RegisteredFs)
    (mountList : List MountEntry) :
    (MountKernel.boot root nlink fsList mountList).Represents mounts where
  count := onlyRoot.one.symm
  shows := .boot onlyRoot isRoot opens nlink
  sound :=
    tableSound_boot.step (.mountRoot root nlink fun vnode cell isCell => by
      cases isCell)
  within := by
    intro pointer cell isCell
    rcases Heap.cells_alloc_some isCell with ⟨-, rfl⟩ | isOld
    · rw [VnodeCell.new_vnode, onlyRoot.one, ← isRoot, onlyRoot.root_mp]
      exact Nat.one_pos
    · cases isOld

theorem KernelStep.represents
    {before after : Mounts × MountKernel} {label : KernelLabel}
    (step : KernelStep before label after)
    (represents : before.2.Represents before.1) :
    after.2.Represents after.1 := by
  cases step with
  | @mount mounts next kernel after process pointers nlink rdev arguments
      outcome result named runs isNext =>
      obtain ⟨ended, last, runsAgain, ends⟩ :=
        sysMount_ends represents named nlink rdev arguments outcome
      obtain ⟨rfl, rfl⟩ :=
        Prod.mk.inj (Option.some.inj (runs.symm.trans runsAgain))
      have refines := ends.refines represents
      subst isNext
      generalize sysMount mounts process _ = onNames at refines ⊢
      cases onNames with
      | ok changed => exact refines.2
      | error err => exact refines.2
  | @vnodeGet mounts kernel table process pointers nlink followlink path
      result named runs =>
      obtain ⟨again, last, runsAgain, shows, -⟩ :=
        vnodeGet_refines nlink followlink path represents.shows named
      obtain ⟨rfl, rfl⟩ :=
        Prod.mk.inj (Option.some.inj (runs.symm.trans runsAgain))
      exact
        { count := represents.count
          shows := shows
          sound := represents.sound.vnodeGet named.live runs
          within :=
            Counted.keeps_vnodeGet mounts.ns nlink process pointers followlink
              path _ _ _ represents.within runs }
  | count vnode change =>
    exact
      { count := represents.count
        shows := represents.shows.addRef vnode change
        sound := represents.sound.addRef vnode change
        within := represents.within.addRef vnode change }
  | change ns sameMounts sameCovers cachedOpen =>
    have shows := represents.shows
    exact
      { count := represents.count
        shows :=
          { inList := shows.inList
            ofList := shows.ofList
            unique := shows.unique
            opens := cachedOpen
            covers := sameCovers ▸ shows.covers
            uncovered := sameCovers ▸ shows.uncovered
            roots := sameMounts ▸ shows.roots
            parents := sameMounts ▸ shows.parents
            mounted := sameMounts ▸ sameCovers ▸ shows.mounted }
        sound := represents.sound
        within := represents.within }

end Runs

/-- Something is mounted on the vnode, or it is what is mounted somewhere. -/
def Mounts.Covered (mounts : Mounts) (vnode : Vnode) : Prop :=
  mounts.ns.vfsmountedhere vnode ≠ none ∨
    vnode = (mounts.ns.mountpoint vnode.mp).rootVnode

/--
A call that returns 0 has installed a new mountpoint with a root on the
directory that `dest` denotes and put it on the list; one that returns an error
has left the mounts and all counts as they were; and nothing is mounted on a
directory that is covered.
-/
structure AllOrNothing
    (mounts : Mounts) (process : Process) (arguments : MountArguments)
    (outcome : MountOutcome) (before after : MountKernel)
    (result : Except Errno Unit) : Prop where
  installed : result = .ok () →
      ∃ vnode, ∃ fs ∈ before.fsList,
        vnodeGet mounts.ns process true arguments.dest = .ok vnode ∧
          fs.name = arguments.fstype ∧
          Shows
            (mounts.install vnode (fs.filesystem outcome) arguments.flags).ns
            after.table ∧
          Names after.table (after.table.mountpoints mounts.count).rootVnode
            { mp := mounts.count, ino := outcome.root } ∧
          ∃ entry, entry.mp = mounts.count ∧
            after.mountList = entry :: before.mountList
  unchanged : ∀ err, result = .error err →
      Shows mounts.ns after.table ∧
        (∀ vnode, after.table.refcount vnode = before.table.refcount vnode) ∧
        after.mountList = before.mountList ∧ after.fsList = before.fsList
  refused :
    ∀ vnode, vnodeGet mounts.ns process true arguments.dest = .ok vnode →
      mounts.Covered vnode → result ≠ .ok ()

/--
The call stops in front of `fs_lookup` or there, or all of it succeeds and the
directory is not covered.
-/
def NothingOrAll
    (mounts : Mounts) (process : Process) (arguments : MountArguments)
    (outcome : MountOutcome) (fsList : List RegisteredFs) : Prop :=
  Unprivileged process ∨ holdFs arguments.fstype fsList = none ∨
    ∃ fs held vnode,
      holdFs arguments.fstype fsList = some (fs, held) ∧
        Mountable mounts process arguments fs vnode ∧
        mounts.ns.vfsmountedhere vnode = none ∧
        outcome.mount = .ok () ∧
        mounts.ns.opens { mp := mounts.count, ino := outcome.root } = true

section AllOrNothing

variable {mounts : Mounts} {kernel after : MountKernel} {process : Process}
  {pointers : ProcessVnodes} {arguments : MountArguments}
  {outcome : MountOutcome} {nlink : Vnode → BitVec 16}
  {result : Except Errno Unit}

theorem AllOrNothing.nothing (represents : kernel.Represents mounts)
    (err : Errno) :
    AllOrNothing mounts process arguments outcome kernel kernel
      (.error err) where
  installed := fun isOk => by cases isOk
  unchanged := fun _ _ => ⟨represents.shows, fun _ => rfl, rfl, rfl⟩
  refused := fun _ _ _ isOk => by cases isOk

theorem not_allOrNothing_of_failed
    {fs : RegisteredFs} {held : List RegisteredFs} {table : VnodeTable}
    {err : Errno}
    (found : holdFs arguments.fstype kernel.fsList = some (fs, held)) :
    ¬ AllOrNothing mounts process arguments outcome kernel
      { kernel with fsList := held, table := table } (.error err) :=
  fun allOrNothing =>
    (holdFs_some found).2.2 (allOrNothing.unchanged err rfl).2.2.2

theorem not_allOrNothing_of_unopened (held : List RegisteredFs)
    (table : VnodeTable) :
    ¬ AllOrNothing mounts process arguments outcome kernel
      { kernel with fsList := held, table := table } (.ok ()) := by
  intro allOrNothing
  obtain ⟨vnode, fs, -, -, -, -, -, entry, -, longer⟩ :=
    allOrNothing.installed rfl
  have lengths := congrArg List.length longer
  simp at lengths

/-- A call that ends in this way leaves all or nothing on these conditions. -/
theorem MountEnds.allOrNothing_iff (represents : kernel.Represents mounts)
    (ends :
      MountEnds mounts nlink process arguments outcome kernel result after) :
    AllOrNothing mounts process arguments outcome kernel after result ↔
      NothingOrAll mounts process arguments outcome kernel.fsList := by
  cases ends with
  | refused unprivileged =>
    exact iff_of_true (.nothing represents .EPERM) (.inl unprivileged)
  | unknown privileged missing =>
    exact iff_of_true (.nothing represents .ENOTSUP) (.inr (.inl missing))
  | @failed fs held table err privileged found quiet names =>
    refine iff_of_false (not_allOrNothing_of_failed found) ?_
    rintro (unprivileged | missing |
      ⟨other, after, vnode, isFound, mountable, -, mounted, opens⟩)
    · exact privileged unprivileged
    · rw [found] at missing
      cases missing
    · obtain ⟨rfl, rfl⟩ :=
        Prod.mk.inj (Option.some.inj (found.symm.trans isFound))
      rw [sysMount_mountable privileged mountable mounted,
        if_pos opens] at names
      cases names
  | @unopened fs held table vnode privileged found quiet mountable mounted
      closed =>
      refine iff_of_false (not_allOrNothing_of_unopened held table) ?_
      rintro (unprivileged | missing | ⟨_, _, _, -, -, -, -, opens⟩)
      · exact privileged unprivileged
      · rw [found] at missing
        cases missing
      · exact closed opens
  | @mounted fs held table vnode pointer entry privileged found quiet names
      mountable mounted opens atCount =>
      constructor
      · intro allOrNothing
        refine .inr (.inr ⟨fs, held, vnode, found, mountable, ?_, mounted,
          opens⟩)
        exact Classical.byContradiction fun covered =>
          allOrNothing.refused vnode mountable.dest (.inl covered) rfl
      · rintro (unprivileged | missing |
          ⟨_, _, other, -, itsMountable, uncovered, -, -⟩)
        · exact absurd unprivileged privileged
        · rw [found] at missing
          cases missing
        · obtain rfl : vnode = other :=
            Except.ok.inj (mountable.dest.symm.trans itsMountable.dest)
          obtain ⟨isMember, isName, -⟩ := holdFs_some found
          have shows :=
            quiet.shows.install quiet.within names (fs.filesystem outcome)
              arguments.flags
              (nlink { mp := mounts.count, ino := outcome.root }) opens
          refine
            { installed := fun _ =>
                ⟨vnode, fs, isMember, mountable.dest, isName, shows, ?_,
                  entry, atCount, rfl⟩
              unchanged := fun err isError => by cases isError
              refused := fun asked denotes covered _ => ?_ }
          · have atNew :
                ((table.install pointer
                  { mp := mounts.count, ino := outcome.root }
                  (nlink { mp := mounts.count, ino := outcome.root })
                  ).mountpoints mounts.count).rootVnode =
                  table.vnodes.next := by
              rw [mountpoints_install, if_pos rfl]
            rw [atNew]
            exact names_install_root names.live
          · obtain rfl : vnode = asked :=
              Except.ok.inj (mountable.dest.symm.trans denotes)
            rcases covered with covered | isRoot
            · exact covered uncovered
            · exact mountable.notRoot isRoot

end AllOrNothing

/--
`sys_mount` mounts all or nothing if and only if it stops in front of the
reference to the filesystem, or succeeds on a directory that is not covered.
-/
theorem sysMount_allOrNothing_iff (nlink : Vnode → BitVec 16)
    (rdev : Vnode → Nat) (arguments : MountArguments) (outcome : MountOutcome)
    {mounts : Mounts} {kernel : MountKernel} {process : Process}
    {pointers : ProcessVnodes} (represents : kernel.Represents mounts)
    (named : PointersNamed process pointers kernel.table) :
    ∃ result after,
      (Counted.sysMount mounts.ns nlink rdev process pointers arguments
          outcome).run kernel = some (result, after) ∧
        (AllOrNothing mounts process arguments outcome kernel after result ↔
          NothingOrAll mounts process arguments outcome kernel.fsList) := by
  obtain ⟨result, after, runs, ends⟩ :=
    sysMount_ends represents named nlink rdev arguments outcome
  exact ⟨result, after, runs, ends.allOrNothing_iff represents⟩

/--
A root directory with one directory `d`; whether the root of the next
filesystem can be opened is left open.
-/
def oneDirectory (nextOpens : Bool) : Mounts where
  count := 1
  ns :=
    { mountpoint := fun _ =>
        { rootVnode := { mp := 0, ino := 1 }
          parentVnode := none
          flags := 0
          ops :=
            { creat := true, mknod := true, mkdir := true, unlink := true } }
      vfsmountedhere := fun _ => none
      attributes := fun _ => { mode := 0o040755, uid := 0, gid := 0 }
      opens := fun vnode => vnode.mp == 0 || nextOpens
      lookup := fun vnode name =>
        if vnode = { mp := 0, ino := 1 } ∧ name = ['d'] then some 2 else none
      readlink := fun _ => none }

/-- A driver that needs no device. -/
def idleDriver : RegisteredFs where
  name := ['r']
  nodev := true
  ops := { creat := true, mknod := true, mkdir := true, unlink := true }
  refcount := 0

/-- A mount of this driver. -/
def mountIdle (dest : List Char) : MountArguments where
  src := []
  dest := dest
  fstype := ['r']
  flags := 0

/-- The driver mounts, with inode 1 as root. -/
def mountsAtOne : MountOutcome where
  mount := .ok ()
  root := 1

/-- The superuser, in this directory of the root filesystem. -/
def superuserIn (ino : Nat) : Process where
  uid := 0
  euid := 0
  gid := 0
  egid := 0
  umask := 0
  vnodeRoot := { mp := 0, ino := 1 }
  vnodeCurrent := { mp := 0, ino := ino }

/-- The kernel at boot, with the driver. -/
def idleKernel : MountKernel :=
  .boot { mp := 0, ino := 1 } 2 [idleDriver] []

theorem idleKernel_represents (nextOpens : Bool) :
    idleKernel.Represents (oneDirectory nextOpens) := by
  have onlyRoot : OnlyRoot (oneDirectory nextOpens) :=
    ⟨rfl, rfl, rfl, fun _ => rfl⟩
  exact represents_boot onlyRoot rfl rfl 2 [idleDriver] []

/-- A call by the superuser at the root. -/
def mountCall (nextOpens : Bool) (dest : List Char) :
    MountM (Except Errno Unit) :=
  Counted.sysMount (oneDirectory nextOpens).ns (fun _ => 2) (fun _ => 0)
    (superuserIn 1) { vnodeRoot := 0, vnodeCurrent := 0 } (mountIdle dest)
    mountsAtOne

/-- On the directory the filesystem is mounted. -/
theorem mountCall_allOrNothing :
    ∃ result after,
      (mountCall true ['/', 'd']).run idleKernel = some (result, after) ∧
        AllOrNothing (oneDirectory true) (superuserIn 1)
          (mountIdle ['/', 'd']) mountsAtOne idleKernel after result := by
  have named :
      PointersNamed (superuserIn 1) { vnodeRoot := 0, vnodeCurrent := 0 }
        idleKernel.table :=
    ⟨⟨_, rfl, rfl⟩, ⟨_, rfl, rfl⟩⟩
  obtain ⟨result, after, runs, isIff⟩ :=
    sysMount_allOrNothing_iff (fun _ => 2) (fun _ => 0)
      (mountIdle ['/', 'd']) mountsAtOne (idleKernel_represents true) named
  have mountable :
      Mountable (oneDirectory true) (superuserIn 1) (mountIdle ['/', 'd'])
        idleDriver { mp := 0, ino := 2 } :=
    ⟨.inl rfl, rfl, rfl, by decide⟩
  exact ⟨result, after, runs, isIff.mpr
    (.inr (.inr ⟨idleDriver, _, _, rfl, mountable, rfl, rfl, rfl⟩))⟩

/-- The kernel with the filesystem mounted on the directory. -/
def mountedKernel : MountKernel :=
  (((mountCall true ['/', 'd']).run idleKernel).map Prod.snd).getD idleKernel

/--
Where the root cannot be opened the call returns 0 and nothing is mounted;
where there is no such directory it fails and the reference to the filesystem
stays; and from inside the covered directory another filesystem is mounted on
it.
-/
theorem mountCall_not_allOrNothing :
    (∃ after,
      (mountCall false ['/', 'd']).run idleKernel = some (.ok (), after) ∧
        after.mountList = [] ∧
        ¬ AllOrNothing (oneDirectory false) (superuserIn 1)
            (mountIdle ['/', 'd']) mountsAtOne idleKernel after (.ok ())) ∧
      (∃ after,
        (mountCall true ['/', 'x']).run idleKernel =
            some (.error .ENOENT, after) ∧
          after.fsList.map RegisteredFs.refcount = [1] ∧
          ¬ AllOrNothing (oneDirectory true) (superuserIn 1)
              (mountIdle ['/', 'x']) mountsAtOne idleKernel after
              (.error .ENOENT)) ∧
      (mountedKernel.table.vnodes.cells 1).map VnodeCell.vfsmountedhere =
        some (some 1) ∧
      ∃ after,
        (Counted.sysMount
            ((oneDirectory true).install { mp := 0, ino := 2 }
              (idleDriver.filesystem mountsAtOne) 0).ns
            (fun _ => 2) (fun _ => 0) (superuserIn 2)
            { vnodeRoot := 0, vnodeCurrent := 1 } (mountIdle [])
            mountsAtOne).run mountedKernel = some (.ok (), after) ∧
          (after.table.vnodes.cells 1).map VnodeCell.vfsmountedhere =
            some (some 2) := by
  refine ⟨⟨_, rfl, rfl, ?_⟩, ⟨_, rfl, rfl, ?_⟩, rfl, ⟨_, rfl, rfl⟩⟩
  · intro allOrNothing
    obtain ⟨vnode, fs, -, -, -, -, -, entry, -, longer⟩ :=
      allOrNothing.installed rfl
    cases longer
  · intro allOrNothing
    have same := (allOrNothing.unchanged _ rfl).2.2.2
    have counts := congrArg (List.map RegisteredFs.refcount) same
    revert counts
    decide

end Idylla.Vfs
