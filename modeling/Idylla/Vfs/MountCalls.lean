import Idylla.Vfs.MountedShows

namespace Idylla.Vfs

/-!
# Calls of `sys_mount`

`sys_mount` with the references that it takes: one to the filesystem, which
`fs_lookup` counts and no exit gives back, and one to the directory.  A new
mountpoint belongs to the call alone until it is installed.
-/

/-- `struct filesystem`: a driver in `_fs_list`. -/
structure RegisteredFs where
  name : List Char
  /-- `FS_NODEV` in `flags`. -/
  nodev : Bool
  ops : VnodeOps
  refcount : Int

/-- A mountpoint in `_mount_list`. -/
structure MountEntry where
  mp : Nat
  device : Nat
  devname : List Char
  fsName : List Char
  flags : Nat

/-- The mountpoints, the vnodes, `_fs_list` and `_mount_list`. -/
structure MountKernel where
  count : Nat
  table : VnodeTable
  fsList : List RegisteredFs
  mountList : List MountEntry

/-- The arguments of `sys_mount`; `data` is not used. -/
structure MountArguments where
  src : List Char
  dest : List Char
  fstype : List Char
  flags : Nat

/-- What `fs_ops->mount` and `fs_ops->root` return. -/
structure MountOutcome where
  mount : Except Errno Unit
  root : Nat

/-- The driver as the calls on names know it. -/
def RegisteredFs.filesystem (fs : RegisteredFs)
    (outcome : MountOutcome) : Filesystem where
  nodev := fs.nodev
  mount := outcome.mount
  root := outcome.root
  ops := fs.ops

/-- The loop of `fs_lookup`: the driver found, and the list with its count. -/
def holdFs (fstype : List Char) :
    List RegisteredFs → Option (RegisteredFs × List RegisteredFs)
  | [] => none
  | fs :: rest =>
    if fs.name = fstype then
      some (fs, { fs with refcount := fs.refcount + 1 } :: rest)
    else
      (holdFs fstype rest).map fun (found, held) => (found, fs :: held)

/-- A computation over the kernel, undefined at a dangling pointer. -/
abbrev MountM := StateT MountKernel Option

/-- What only concerns the vnodes. -/
def onTable {Result : Type} (computation : VnodeM Result) : MountM Result :=
  fun kernel =>
    (computation.run kernel.table).map fun (result, table) =>
      (result, { kernel with table := table })

/-- `fs_lookup`. -/
def fsLookup (fstype : List Char) : MountM (Option RegisteredFs) :=
  fun kernel =>
    match holdFs fstype kernel.fsList with
    | none => some (none, kernel)
    | some (fs, held) => some (some fs, { kernel with fsList := held })

namespace Counted

variable (ns : Namespace) (nlink : Vnode → BitVec 16) (rdev : Vnode → Nat)
  (process : Process) (pointers : ProcessVnodes) (arguments : MountArguments)
  (outcome : MountOutcome)

/-- `sys_stat`, of which the caller uses `st_rdev`. -/
def sysStat (path : List Char) : VnodeM (Except Errno Nat) := do
  match ← vnodeGet ns nlink process pointers true path with
  | .error err => return .error err
  | .ok vnode =>
    let cell ← readVnode vnode
    VNODE_REL vnode
    return .ok (rdev cell.vnode)

/-- The device of a filesystem that needs one. -/
def mountDevice (fs : RegisteredFs) : VnodeM (Except Errno Nat) :=
  if fs.nodev then
    return .ok 0
  else
    sysStat ns nlink rdev process pointers arguments.src

/-- `VNODE_REL` in front of a return. -/
def releaseAndReturn (vnode : Nat)
    (result : Except Errno Unit) : MountM (Except Errno Unit) := do
  onTable (VNODE_REL vnode)
  return result

/-- The mountpoint with its root becomes visible. -/
def installMount (fs : RegisteredFs)
    (device vnode : Nat) : MountM (Except Errno Unit) := fun kernel =>
  let root : Vnode := { mp := kernel.count, ino := outcome.root }
  some
    (.ok (),
      { kernel with
        count := kernel.count + 1
        table := kernel.table.install vnode root (nlink root)
        mountList :=
          { mp := kernel.count
            device := device
            devname := arguments.src
            fsName := fs.name
            flags := arguments.flags } :: kernel.mountList })

/-- `sys_mount` from the mount by the driver on. -/
def mountDriver (fs : RegisteredFs)
    (device vnode : Nat) : MountM (Except Errno Unit) := fun kernel =>
  match outcome.mount with
  | .error err => (releaseAndReturn vnode (.error err)).run kernel
  | .ok _ =>
    if ns.opens { mp := kernel.count, ino := outcome.root } then
      (installMount nlink arguments outcome fs device vnode).run kernel
    else
      -- `err` is still the 0 of `fs_ops->mount`.
      (releaseAndReturn vnode (.ok ())).run kernel

/-- `sys_mount` from the test for a directory on. -/
def mountOver (fs : RegisteredFs)
    (device vnode : Nat) : MountM (Except Errno Unit) := do
  let cell ← onTable (readVnode vnode)
  let mountpoint ← onTable (readMountpoint cell.vnode.mp)
  if ¬ ns.isDir cell.vnode then
    releaseAndReturn vnode (.error .ENOTDIR)
  else if vnode = mountpoint.rootVnode then
    releaseAndReturn vnode (.error .EBUSY)
  else
    mountDriver ns nlink arguments outcome fs device vnode

/-- `sys_mount` behind `fs_lookup`. -/
def mountFs (fs : RegisteredFs) : MountM (Except Errno Unit) := do
  match ← onTable (mountDevice ns nlink rdev process pointers arguments fs) with
  | .error err => return .error err
  | .ok device =>
    match ←
      onTable (vnodeGet ns nlink process pointers true arguments.dest) with
    | .error _ => return .error .ENOENT
    | .ok vnode => mountOver ns nlink arguments outcome fs device vnode

/-- `sys_mount`: 0, or an error. -/
def sysMount : MountM (Except Errno Unit) := do
  if process.euid ≠ 0 ∧ process.uid ≠ 0 then
    return .error .EPERM
  else
    match ← fsLookup arguments.fstype with
    | none => return .error .ENOTSUP
    | some fs =>
      mountFs ns nlink rdev process pointers arguments outcome fs

end Counted

/--
The table during a call that has not installed anything: what it shows, and
the references that the call holds.
-/
structure Quiet
    (mounts : Mounts) (entry : VnodeTable) (held : List Nat)
    (table : VnodeTable) : Prop where
  owes : Owes entry held table
  shows : Shows mounts.ns table
  within : Within mounts.count table

/-- The kernel and the mounts that it shows. -/
structure MountKernel.Represents
    (kernel : MountKernel)
    (mounts : Mounts) : Prop where
  count : kernel.count = mounts.count
  shows : Shows mounts.ns kernel.table
  sound : TableSound kernel.table
  within : Within mounts.count kernel.table

section Quiet

variable {mounts : Mounts} {entry table : VnodeTable} {held : List Nat}
  {process : Process} {pointers : ProcessVnodes}

theorem Quiet.names (quiet : Quiet mounts entry held table)
    {pointer : Nat} {vnode : Vnode} (names : Names entry pointer vnode) :
    Names table pointer vnode := by
  obtain ⟨cell, isCell, rfl⟩ := names
  obtain ⟨now, isNow, same⟩ := quiet.owes.kept pointer cell isCell
  exact ⟨now, isNow, same⟩

theorem Names.live {pointer : Nat} {vnode : Vnode}
    (names : Names table pointer vnode) : table.Live pointer := by
  obtain ⟨cell, isCell, -⟩ := names
  exact ⟨cell, isCell⟩

theorem PointersNamed.live (named : PointersNamed process pointers table) :
    Counted.PointersLive pointers table :=
  ⟨named.root.live, named.current.live⟩

theorem Quiet.rel {vnode : Nat}
    (quiet : Quiet mounts entry (vnode :: held) table) :
    (VNODE_REL vnode).run table = some ((), table.addRef vnode (-1)) ∧
      Quiet mounts entry held (table.addRef vnode (-1)) := by
  obtain ⟨cell, isCell⟩ := quiet.owes.held_live vnode List.mem_cons_self
  refine ⟨?_, quiet.owes.rel, quiet.shows.addRef vnode (-1),
    quiet.within.addRef vnode (-1)⟩
  simp [VNODE_REL, StateT.run, isCell]

/-- How a path is resolved, by pointer and by name. -/
def Resolved (ns : Namespace) (process : Process) (path : List Char)
    (table : VnodeTable) : Except Errno Nat → Prop
  | .ok found =>
    ∃ vnode, Names table found vnode ∧ vnodeGet ns process true path = .ok vnode
  | .error err => vnodeGet ns process true path = .error err

theorem Quiet.vnodeGet
    (sound : TableSound entry) (named : PointersNamed process pointers entry)
    (quiet : Quiet mounts entry [] table) (nlink : Vnode → BitVec 16)
    (path : List Char) :
    ∃ result after,
      (Counted.vnodeGet mounts.ns nlink process pointers true path).run
          table = some (result, after) ∧
        Quiet mounts entry (Counted.resultOwned result) after ∧
        Resolved mounts.ns process path after result := by
  obtain ⟨result, after, runs, owes⟩ :=
    Counted.meets_vnodeGet mounts.ns nlink process pointers true sound
      named.live path table quiet.owes
  obtain ⟨again, final, runsAgain, shows, resolved⟩ :=
    @vnodeGet_refines nlink true path mounts.ns process pointers table
      quiet.shows ⟨quiet.names named.root, quiet.names named.current⟩
  obtain ⟨rfl, rfl⟩ := Prod.mk.inj (Option.some.inj (runs.symm.trans runsAgain))
  have within :=
    Counted.keeps_vnodeGet mounts.ns nlink process pointers true path table
      result after quiet.within runs
  refine ⟨result, after, runs, ⟨owes, shows, within⟩, ?_⟩
  cases result with
  | ok found => exact resolved
  | error err => exact resolved

theorem Quiet.sysStat
    (sound : TableSound entry) (named : PointersNamed process pointers entry)
    (quiet : Quiet mounts entry [] table) (nlink : Vnode → BitVec 16)
    (rdev : Vnode → Nat) (path : List Char) :
    ∃ result after,
      (Counted.sysStat mounts.ns nlink rdev process pointers path).run
          table = some (result, after) ∧
        Quiet mounts entry [] after ∧
        match result with
        | .ok _ => ∃ vnode, Vfs.vnodeGet mounts.ns process true path = .ok vnode
        | .error err =>
          Vfs.vnodeGet mounts.ns process true path = .error err := by
  obtain ⟨result, after, runs, isQuiet, resolved⟩ :=
    quiet.vnodeGet sound named nlink path
  unfold Counted.sysStat
  rw [StateT.run_bind, runs]
  cases result with
  | error err =>
    exact ⟨.error err, after, rfl, isQuiet, resolved⟩
  | ok found =>
    obtain ⟨vnode, ⟨cell, isCell, -⟩, isVnode⟩ := resolved
    obtain ⟨released, isReleased⟩ := isQuiet.rel
    refine ⟨.ok (rdev cell.vnode), _, ?_, isReleased, vnode, isVnode⟩
    have read : (readVnode found).run after = some (cell, after) := by
      simp [readVnode, StateT.run, isCell]
    show ((readVnode found).run after).bind _ = _
    rw [read]
    show ((VNODE_REL found).run after).bind _ = _
    rw [released]
    rfl

/-- The device of a filesystem is found where it needs none. -/
def DeviceFound (mounts : Mounts) (process : Process) (fs : RegisteredFs)
    (src : List Char) : Prop :=
  fs.nodev = true ∨ ∃ vnode, vnodeGet mounts.ns process true src = .ok vnode

theorem Quiet.mountDevice
    (sound : TableSound entry) (named : PointersNamed process pointers entry)
    (quiet : Quiet mounts entry [] table) (nlink : Vnode → BitVec 16)
    (rdev : Vnode → Nat) (arguments : MountArguments) (fs : RegisteredFs) :
    ∃ result after,
      (Counted.mountDevice mounts.ns nlink rdev process pointers arguments
          fs).run table = some (result, after) ∧
        Quiet mounts entry [] after ∧
        match result with
        | .ok _ => DeviceFound mounts process fs arguments.src
        | .error err =>
          fs.nodev = false ∧
            Vfs.vnodeGet mounts.ns process true arguments.src = .error err := by
  unfold Counted.mountDevice
  cases isNodev : fs.nodev with
  | true =>
    exact ⟨.ok 0, table, rfl, quiet, .inl isNodev⟩
  | false =>
    obtain ⟨result, after, runs, isQuiet, resolved⟩ :=
      quiet.sysStat sound named nlink rdev arguments.src
    refine ⟨result, after, runs, isQuiet, ?_⟩
    cases result with
    | ok device => exact .inr resolved
    | error err => exact ⟨rfl, resolved⟩

end Quiet

/-- The request to mount a driver that has been found. -/
def MountArguments.request
    (arguments : MountArguments) (found : Option RegisteredFs)
    (outcome : MountOutcome) : MountRequest where
  src := arguments.src
  dest := arguments.dest
  fs := found.map fun fs => fs.filesystem outcome
  flags := arguments.flags

/-- The checks of `sys_mount` pass, and the directory is this one. -/
structure Mountable
    (mounts : Mounts) (process : Process) (arguments : MountArguments)
    (fs : RegisteredFs)
    (vnode : Vnode) : Prop where
  device : DeviceFound mounts process fs arguments.src
  dest : vnodeGet mounts.ns process true arguments.dest = .ok vnode
  directory : mounts.ns.isDir vnode = true
  notRoot : vnode ≠ (mounts.ns.mountpoint vnode.mp).rootVnode

/-- Superuser rights are missing. -/
def Unprivileged (process : Process) : Prop :=
  process.euid ≠ 0 ∧ process.uid ≠ 0

/-- How a call ends, and the kernel that it leaves. -/
inductive MountEnds
    (mounts : Mounts)
    (nlink : Vnode → BitVec 16)
    (process : Process) (arguments : MountArguments) (outcome : MountOutcome)
    (kernel : MountKernel) : Except Errno Unit → MountKernel → Prop where
  | refused (unprivileged : Unprivileged process) :
      MountEnds mounts nlink process arguments outcome kernel
        (.error .EPERM) kernel
  | unknown (privileged : ¬ Unprivileged process)
      (missing : holdFs arguments.fstype kernel.fsList = none) :
      MountEnds mounts nlink process arguments outcome kernel
        (.error .ENOTSUP) kernel
  | failed {fs : RegisteredFs} {held : List RegisteredFs} {table : VnodeTable}
      {err : Errno}
      (privileged : ¬ Unprivileged process)
      (found : holdFs arguments.fstype kernel.fsList = some (fs, held))
      (quiet : Quiet mounts kernel.table [] table)
      (names :
        sysMount mounts process (arguments.request (some fs) outcome) =
          .error err) :
      MountEnds mounts nlink process arguments outcome kernel
        (.error err) { kernel with fsList := held, table := table }
  | unopened {fs : RegisteredFs} {held : List RegisteredFs} {table : VnodeTable}
      {vnode : Vnode}
      (privileged : ¬ Unprivileged process)
      (found : holdFs arguments.fstype kernel.fsList = some (fs, held))
      (quiet : Quiet mounts kernel.table [] table)
      (mountable : Mountable mounts process arguments fs vnode)
      (mounted : outcome.mount = .ok ())
      (closed :
        mounts.ns.opens { mp := mounts.count, ino := outcome.root } ≠ true) :
      MountEnds mounts nlink process arguments outcome kernel
        (.ok ()) { kernel with fsList := held, table := table }
  | mounted {fs : RegisteredFs} {held : List RegisteredFs} {table : VnodeTable}
      {vnode : Vnode} {pointer : Nat} {entry : MountEntry}
      (privileged : ¬ Unprivileged process)
      (found : holdFs arguments.fstype kernel.fsList = some (fs, held))
      (quiet : Quiet mounts kernel.table [pointer] table)
      (names : Names table pointer vnode)
      (mountable : Mountable mounts process arguments fs vnode)
      (mounted : outcome.mount = .ok ())
      (opens :
        mounts.ns.opens { mp := mounts.count, ino := outcome.root } = true)
      (atCount : entry.mp = mounts.count) :
      MountEnds mounts nlink process arguments outcome kernel (.ok ())
        { count := mounts.count + 1
          table :=
            table.install pointer { mp := mounts.count, ino := outcome.root }
              (nlink { mp := mounts.count, ino := outcome.root })
          fsList := held
          mountList := entry :: kernel.mountList }

section Ends

variable {mounts : Mounts} {nlink : Vnode → BitVec 16} {process : Process}
  {pointers : ProcessVnodes} {arguments : MountArguments}
  {outcome : MountOutcome} {kernel : MountKernel} {fs : RegisteredFs}
  {held : List RegisteredFs} {table : VnodeTable} {vnode : Vnode}
  {pointer : Nat}

theorem sysMount_found (privileged : ¬ Unprivileged process)
    (fs : RegisteredFs) :
    sysMount mounts process (arguments.request (some fs) outcome) =
      match
        (if fs.nodev then .ok process.vnodeRoot
          else vnodeGet mounts.ns process true arguments.src :
            Except Errno Vnode),
        vnodeGet mounts.ns process true arguments.dest with
      | .error err, _ => .error err
      | .ok _, .error _ => .error .ENOENT
      | .ok _, .ok vnode =>
        if ¬ mounts.ns.isDir vnode then
          .error .ENOTDIR
        else if vnode = (mounts.ns.mountpoint vnode.mp).rootVnode then
          .error .EBUSY
        else
          match outcome.mount with
          | .error err => .error err
          | .ok _ =>
            if
                mounts.ns.opens
                  { mp := mounts.count, ino := outcome.root } then
              .ok (mounts.install vnode (fs.filesystem outcome) arguments.flags)
            else
              .ok mounts :=
  if_neg privileged

theorem DeviceFound.eq_ok
    (device : DeviceFound mounts process fs arguments.src) :
    ∃ found,
      (if fs.nodev then .ok process.vnodeRoot
        else vnodeGet mounts.ns process true arguments.src :
          Except Errno Vnode) = .ok found := by
  rcases device with isNodev | ⟨vnode, isFound⟩
  · exact ⟨_, if_pos isNodev⟩
  · rw [isFound]
    split
    · exact ⟨_, rfl⟩
    · exact ⟨_, rfl⟩

theorem sysMount_mountable (privileged : ¬ Unprivileged process)
    (mountable : Mountable mounts process arguments fs vnode)
    (mounted : outcome.mount = .ok ()) :
    sysMount mounts process (arguments.request (some fs) outcome) =
      if mounts.ns.opens { mp := mounts.count, ino := outcome.root } then
        .ok (mounts.install vnode (fs.filesystem outcome) arguments.flags)
      else
        .ok mounts := by
  obtain ⟨device, isDevice⟩ := mountable.device.eq_ok
  rw [sysMount_found privileged, isDevice, mountable.dest]
  dsimp only
  rw [if_neg (Classical.not_not.mpr mountable.directory),
    if_neg mountable.notRoot, mounted]

theorem sysMount_mountError (privileged : ¬ Unprivileged process)
    (mountable : Mountable mounts process arguments fs vnode) {err : Errno}
    (failed : outcome.mount = .error err) :
    sysMount mounts process (arguments.request (some fs) outcome) =
      .error err := by
  obtain ⟨device, isDevice⟩ := mountable.device.eq_ok
  rw [sysMount_found privileged, isDevice, mountable.dest]
  dsimp only
  rw [if_neg (Classical.not_not.mpr mountable.directory),
    if_neg mountable.notRoot, failed]

theorem Quiet.releaseAndReturn {entry : VnodeTable}
    (quiet : Quiet mounts entry [pointer] table)
    (kernel : MountKernel) (held : List RegisteredFs)
    (result : Except Errno Unit) :
    ∃ after,
      (Counted.releaseAndReturn pointer result).run
          { kernel with fsList := held, table := table } =
        some (result, { kernel with fsList := held, table := after }) ∧
        Quiet mounts entry [] after := by
  obtain ⟨released, isReleased⟩ := quiet.rel
  refine ⟨_, ?_, isReleased⟩
  show (((VNODE_REL pointer).run table).map _).bind _ = _
  rw [released]
  rfl

variable (represents : kernel.Represents mounts)

include represents

theorem mountDriver_ends (privileged : ¬ Unprivileged process)
    (found : holdFs arguments.fstype kernel.fsList = some (fs, held))
    (quiet : Quiet mounts kernel.table [pointer] table)
    (names : Names table pointer vnode)
    (mountable : Mountable mounts process arguments fs vnode) (device : Nat) :
    ∃ result after,
      (Counted.mountDriver mounts.ns nlink arguments outcome fs device
          pointer).run { kernel with fsList := held, table := table } =
        some (result, after) ∧
        MountEnds mounts nlink process arguments outcome kernel result
          after := by
  unfold Counted.mountDriver
  cases isMount : outcome.mount with
  | error err =>
    obtain ⟨after, runs, isQuiet⟩ :=
      quiet.releaseAndReturn kernel held (.error err)
    exact ⟨.error err, _, runs, .failed privileged found isQuiet
      (sysMount_mountError privileged mountable isMount)⟩
  | ok done =>
    by_cases opens :
        mounts.ns.opens { mp := mounts.count, ino := outcome.root } = true
    · have ends :=
        @MountEnds.mounted mounts nlink process arguments outcome kernel fs
          held table vnode pointer
          { mp := mounts.count
            device := device
            devname := arguments.src
            fsName := fs.name
            flags := arguments.flags }
          privileged found quiet names mountable isMount opens rfl
      refine ⟨.ok (), _, ?_, ends⟩
      rw [← represents.count] at opens ⊢
      exact if_pos opens
    · obtain ⟨after, runs, isQuiet⟩ :=
        quiet.releaseAndReturn kernel held (.ok ())
      refine ⟨.ok (), _, ?_, .unopened privileged found isQuiet mountable
        isMount opens⟩
      rw [← represents.count] at opens
      exact (if_neg opens).trans runs

/-- From the test for a directory on. -/
theorem mountOver_ends (privileged : ¬ Unprivileged process)
    (found : holdFs arguments.fstype kernel.fsList = some (fs, held))
    (quiet : Quiet mounts kernel.table [pointer] table)
    (names : Names table pointer vnode)
    (deviceFound : DeviceFound mounts process fs arguments.src)
    (dest : vnodeGet mounts.ns process true arguments.dest = .ok vnode)
    (device : Nat) :
    ∃ result after,
      (Counted.mountOver mounts.ns nlink arguments outcome fs device
          pointer).run { kernel with fsList := held, table := table } =
        some (result, after) ∧
        MountEnds mounts nlink process arguments outcome kernel result
          after := by
  obtain ⟨itsDevice, isDevice⟩ := deviceFound.eq_ok
  obtain ⟨cell, isCell, isName⟩ := id names
  have isRoot : pointer = (table.mountpoints cell.vnode.mp).rootVnode ↔
        vnode = (mounts.ns.mountpoint vnode.mp).rootVnode := by
    rw [isName]
    have rootNamed := quiet.shows.roots pointer vnode names
    constructor
    · intro same
      rw [← same] at rootNamed
      exact names.unique rootNamed
    · intro same
      rw [← same] at rootNamed
      exact quiet.shows.unique _ _ vnode names rootNamed
  have reads :
      (Counted.mountOver mounts.ns nlink arguments outcome fs device
          pointer).run { kernel with fsList := held, table := table } =
        (if ¬ mounts.ns.isDir cell.vnode then
          Counted.releaseAndReturn pointer (.error .ENOTDIR)
        else if pointer = (table.mountpoints cell.vnode.mp).rootVnode then
          Counted.releaseAndReturn pointer (.error .EBUSY)
        else
          Counted.mountDriver mounts.ns nlink arguments outcome fs device
            pointer).run { kernel with fsList := held, table := table } := by
    have read : (readVnode pointer).run table = some (cell, table) := by
      simp [readVnode, StateT.run, isCell]
    show (((readVnode pointer).run table).map _).bind _ = _
    rw [read]
    rfl
  rw [reads]
  by_cases directory : mounts.ns.isDir vnode = true
  · rw [isName, if_neg (Classical.not_not.mpr directory)]
    by_cases busy : vnode = (mounts.ns.mountpoint vnode.mp).rootVnode
    · rw [← isName, if_pos (isRoot.mpr busy)]
      obtain ⟨after, runs, isQuiet⟩ :=
        quiet.releaseAndReturn kernel held (.error .EBUSY)
      refine ⟨_, _, runs, .failed privileged found isQuiet ?_⟩
      rw [sysMount_found privileged, isDevice, dest]
      dsimp only
      rw [if_neg (Classical.not_not.mpr directory), if_pos busy]
    · rw [← isName, if_neg fun same => busy (isRoot.mp same)]
      exact mountDriver_ends represents privileged found quiet names
        ⟨deviceFound, dest, directory, busy⟩ device
  · rw [isName, if_pos directory]
    obtain ⟨after, runs, isQuiet⟩ :=
      quiet.releaseAndReturn kernel held (.error .ENOTDIR)
    refine ⟨_, _, runs, .failed privileged found isQuiet ?_⟩
    rw [sysMount_found privileged, isDevice, dest]
    dsimp only
    rw [if_pos directory]

/-- Behind `fs_lookup`. -/
theorem mountFs_ends (named : PointersNamed process pointers kernel.table)
    (rdev : Vnode → Nat) (privileged : ¬ Unprivileged process)
    (found : holdFs arguments.fstype kernel.fsList = some (fs, held)) :
    ∃ result after,
      (Counted.mountFs mounts.ns nlink rdev process pointers arguments outcome
          fs).run { kernel with fsList := held } = some (result, after) ∧
        MountEnds mounts nlink process arguments outcome kernel result
          after := by
  have start : Quiet mounts kernel.table [] kernel.table :=
    ⟨.start represents.sound, represents.shows, represents.within⟩
  obtain ⟨device, table, runs, quiet, isDevice⟩ :=
    start.mountDevice represents.sound named nlink rdev arguments fs
  unfold Counted.mountFs
  rw [StateT.run_bind]
  have runsDevice :
      (onTable
          (Counted.mountDevice mounts.ns nlink rdev process pointers
            arguments fs)).run { kernel with fsList := held } =
        some (device, { kernel with fsList := held, table := table }) := by
    show ((Counted.mountDevice mounts.ns nlink rdev process pointers
      arguments fs).run kernel.table).map _ = _
    rw [runs]
    rfl
  rw [runsDevice]
  cases device with
  | error err =>
    refine ⟨.error err, _, rfl, .failed privileged found quiet ?_⟩
    rw [sysMount_found privileged, isDevice.1, isDevice.2]
    rfl
  | ok number =>
    obtain ⟨itsDevice, isOk⟩ := isDevice.eq_ok
    obtain ⟨result, after, runsGet, isQuiet, resolved⟩ :=
      quiet.vnodeGet represents.sound named nlink arguments.dest
    have runsDest :
        (onTable
            (Counted.vnodeGet mounts.ns nlink process pointers true
              arguments.dest)).run
            { kernel with fsList := held, table := table } =
          some (result, { kernel with fsList := held, table := after }) := by
      show ((Counted.vnodeGet mounts.ns nlink process pointers true
        arguments.dest).run table).map _ = _
      rw [runsGet]
      rfl
    show ∃ ended final,
      ((onTable
          (Counted.vnodeGet mounts.ns nlink process pointers true
            arguments.dest)).run
          { kernel with fsList := held, table := table }).bind _ =
        some (ended, final) ∧ _
    rw [runsDest]
    cases result with
    | error err =>
      refine ⟨.error .ENOENT, _, rfl, .failed privileged found isQuiet ?_⟩
      rw [sysMount_found privileged, isOk, resolved]
    | ok pointer =>
      obtain ⟨vnode, names, dest⟩ := resolved
      exact mountOver_ends represents privileged found isQuiet names
        isDevice dest number

theorem sysMount_ends (named : PointersNamed process pointers kernel.table)
    (nlink : Vnode → BitVec 16) (rdev : Vnode → Nat)
    (arguments : MountArguments) (outcome : MountOutcome) :
    ∃ result after,
      (Counted.sysMount mounts.ns nlink rdev process pointers arguments
          outcome).run kernel = some (result, after) ∧
        MountEnds mounts nlink process arguments outcome kernel result
          after := by
  unfold Counted.sysMount
  by_cases unprivileged : Unprivileged process
  · have refuses : process.euid ≠ 0 ∧ process.uid ≠ 0 := unprivileged
    rw [if_pos refuses]
    exact ⟨_, _, rfl, .refused unprivileged⟩
  · have allows : ¬ (process.euid ≠ 0 ∧ process.uid ≠ 0) := unprivileged
    rw [if_neg allows]
    cases found : holdFs arguments.fstype kernel.fsList with
    | none =>
      refine ⟨.error .ENOTSUP, kernel, ?_, .unknown unprivileged found⟩
      rw [StateT.run_bind]
      have looked :
          (fsLookup arguments.fstype).run kernel = some (none, kernel) := by
        simp [fsLookup, StateT.run, found]
      rw [looked]
      rfl
    | some result =>
      obtain ⟨fs, held⟩ := result
      have looked : (fsLookup arguments.fstype).run kernel =
            some (some fs, { kernel with fsList := held }) := by
        simp [fsLookup, StateT.run, found]
      rw [StateT.run_bind, looked]
      exact mountFs_ends represents named rdev unprivileged found

end Ends

end Idylla.Vfs
