import Idylla.Lib.Run
import Idylla.Vfs.VnodeGet

namespace Idylla.Vfs

/-!
# Arrangements of mounts

`sys_mount` and the arrangements it builds from a mounted root filesystem.
Between two mounts the contents of the filesystems may change in any way that
leaves covered directories directories: no call removes a directory, and
`sys_chmod` keeps the type of a file.
-/

/-- The mounted filesystems and how many there are. -/
structure Mounts where
  count : Nat
  ns : Namespace

/-- What a filesystem driver contributes to a mount. -/
structure Filesystem where
  /-- The driver works without a device (`FS_NODEV`). -/
  nodev : Bool
  /-- What `fs_ops->mount` returns. -/
  mount : Except Errno Unit
  /-- What `fs_ops->root` returns. -/
  root : Nat
  ops : VnodeOps

/--
The arguments of `sys_mount`, with the filesystem that `fs_lookup` finds
under the given type.
-/
structure MountRequest where
  src : List Char
  dest : List Char
  fs : Option Filesystem
  flags : Nat

/-- Puts a new mountpoint over a directory. -/
def Mounts.install (mounts : Mounts) (vnode : Vnode) (fs : Filesystem)
    (flags : Nat) : Mounts where
  count := mounts.count + 1
  ns :=
    { mounts.ns with
      mountpoint := fun mp =>
        if mp = mounts.count then
          { rootVnode := { mp := mounts.count, ino := fs.root }
            parentVnode := some vnode
            flags := flags
            ops := fs.ops }
        else
          mounts.ns.mountpoint mp
      vfsmountedhere := fun covered =>
        if covered = vnode then some mounts.count
        else mounts.ns.vfsmountedhere covered }

/-- `sys_mount`. -/
def sysMount (mounts : Mounts) (process : Process)
    (request : MountRequest) : Except Errno Mounts :=
  if process.euid ≠ 0 ∧ process.uid ≠ 0 then
    .error .EPERM
  else
    match request.fs with
    | none => .error .ENOTSUP
    | some fs =>
      let device :=
        if fs.nodev then .ok process.vnodeRoot
        else vnodeGet mounts.ns process true request.src
      match device, vnodeGet mounts.ns process true request.dest with
      | .error err, _ => .error err
      | .ok _, .error _ => .error .ENOENT
      | .ok _, .ok vnode =>
        if ¬ mounts.ns.isDir vnode then
          .error .ENOTDIR
        else if vnode = (mounts.ns.mountpoint vnode.mp).rootVnode then
          .error .EBUSY
        else
          match fs.mount with
          | .error err => .error err
          | .ok _ =>
            if mounts.ns.opens { mp := mounts.count, ino := fs.root } then
              .ok (mounts.install vnode fs request.flags)
            else
              -- The call returns the 0 of `fs_ops->mount`.
              .ok mounts

/-- A call of `sys_mount`, or a change of contents between two calls. -/
inductive MountLabel where
  | mount (process : Process) (request : MountRequest)
  | change

/-- A vnode of one of the mounted filesystems. -/
def Mounts.Holds (mounts : Mounts) (vnode : Vnode) : Prop :=
  vnode.mp < mounts.count

/-- The steps between arrangements of mounts. -/
inductive MountStep : Mounts → MountLabel → Mounts → Prop where
  | mount {mounts next : Mounts} {process : Process} {request : MountRequest}
      (rootHeld : mounts.Holds process.vnodeRoot)
      (currentHeld : mounts.Holds process.vnodeCurrent)
      (returns : sysMount mounts process request = .ok next) :
      MountStep mounts (.mount process request) next
  | change {mounts next : Mounts} (sameCount : next.count = mounts.count)
      (sameMounts : next.ns.mountpoint = mounts.ns.mountpoint)
      (sameCovers : next.ns.vfsmountedhere = mounts.ns.vfsmountedhere)
      (directoriesStay :
        ∀ mp < mounts.count, ∀ vnode,
          (mounts.ns.mountpoint mp).parentVnode = some vnode →
          mounts.ns.isDir vnode = true →
          next.ns.isDir vnode = true) :
      MountStep mounts .change next

/-- Only the root filesystem is mounted, as `vfs_mount_root` leaves it. -/
structure OnlyRoot (mounts : Mounts) : Prop where
  one : mounts.count = 1
  root_mp : (mounts.ns.mountpoint 0).rootVnode.mp = 0
  no_parent : (mounts.ns.mountpoint 0).parentVnode = none
  nothing_mounted : ∀ vnode, mounts.ns.vfsmountedhere vnode = none

/-- The arrangements that mounts over the root filesystem lead to. -/
def ReachableMounts (mounts : Mounts) : Prop :=
  ∃ first labels, OnlyRoot first ∧ Lib.Run MountStep first labels mounts

/--
What every arrangement of mounts satisfies: a mounted filesystem hangs below
a directory of an earlier one that is not itself a root.
-/
structure MountsSound (mounts : Mounts) : Prop where
  root_mp : ∀ mp < mounts.count, (mounts.ns.mountpoint mp).rootVnode.mp = mp
  parent_earlier : ∀ mp < mounts.count, ∀ vnode,
      (mounts.ns.mountpoint mp).parentVnode = some vnode →
      vnode.mp < mp
  parent_not_root : ∀ mp < mounts.count, ∀ vnode,
      (mounts.ns.mountpoint mp).parentVnode = some vnode →
      vnode ≠ (mounts.ns.mountpoint vnode.mp).rootVnode
  parent_directory : ∀ mp < mounts.count, ∀ vnode,
      (mounts.ns.mountpoint mp).parentVnode = some vnode →
      mounts.ns.isDir vnode = true
  mounted_here : ∀ vnode mp, mounts.ns.vfsmountedhere vnode = some mp →
      mp < mounts.count ∧ (mounts.ns.mountpoint mp).parentVnode = some vnode

theorem OnlyRoot.sound {mounts : Mounts} (onlyRoot : OnlyRoot mounts) :
    MountsSound mounts := by
  have isRoot : ∀ mp < mounts.count, mp = 0 := by
    have one := onlyRoot.one
    omega
  refine ⟨?_, ?_, ?_, ?_, ?_⟩
  · intro mp bounded
    rw [isRoot mp bounded, onlyRoot.root_mp]
  all_goals
    first
    | (intro mp bounded vnode isParent
       rw [isRoot mp bounded, onlyRoot.no_parent] at isParent
       simp at isParent)
    | (intro vnode mp covered
       simp [onlyRoot.nothing_mounted] at covered)

namespace MountsSound

variable {mounts : Mounts} {process : Process} {followlink : Bool}

theorem leaveMount_held (sound : MountsSound mounts) {vnode : Vnode}
    (held : mounts.Holds vnode) (name : List Char) :
    mounts.Holds (leaveMount mounts.ns vnode name) := by
  unfold leaveMount
  dsimp only
  split
  · cases isParent : (mounts.ns.mountpoint vnode.mp).parentVnode with
    | none =>
      exact held
    | some parent =>
      exact Nat.lt_trans
        (sound.parent_earlier vnode.mp held parent isParent) held
  · exact held

theorem findVnode_held (sound : MountsSound mounts)
    {vnode newVnode : Vnode} {name : List Char} (held : mounts.Holds vnode)
    (found : findVnode mounts.ns vnode name = .ok newVnode) :
    mounts.Holds newVnode := by
  obtain ⟨ino, -, rfl⟩ := findVnode_ok mounts.ns found
  unfold enterMount
  split
  next mp covered =>
    have earlier := (sound.mounted_here _ mp covered).1
    unfold Mounts.Holds
    rw [sound.root_mp mp earlier]
    exact earlier
  · exact held

theorem vnodeGet_held
    (sound : MountsSound mounts) (rootHeld : mounts.Holds process.vnodeRoot)
    (currentHeld : mounts.Holds process.vnodeCurrent)
    {path : List Char} {vnode : Vnode}
    (resolved : vnodeGet mounts.ns process followlink path = .ok vnode) :
    mounts.Holds vnode :=
  vnodeGet_closed rootHeld currentHeld
    (fun _ name held => sound.leaveMount_held held name)
    (fun _ name _ held _ found =>
      sound.findVnode_held (sound.leaveMount_held held name) found)
    resolved

theorem install (sound : MountsSound mounts) {vnode : Vnode}
    (held : mounts.Holds vnode) (directory : mounts.ns.isDir vnode = true)
    (notRoot : vnode ≠ (mounts.ns.mountpoint vnode.mp).rootVnode)
    (fs : Filesystem) (flags : Nat) :
    MountsSound (mounts.install vnode fs flags) := by
  have old : ∀ mp < mounts.count,
        (mounts.install vnode fs flags).ns.mountpoint mp =
          mounts.ns.mountpoint mp := by
    intro mp bounded
    exact if_neg (Nat.ne_of_lt bounded)
  have new :
      ((mounts.install vnode fs flags).ns.mountpoint
          mounts.count).parentVnode = some vnode ∧
        ((mounts.install vnode fs flags).ns.mountpoint
          mounts.count).rootVnode.mp = mounts.count := by
    simp [Mounts.install]
  have oldOrNew : ∀ mp < (mounts.install vnode fs flags).count,
        mp < mounts.count ∨ mp = mounts.count :=
    fun mp bounded => Nat.lt_succ_iff_lt_or_eq.mp bounded
  refine ⟨?_, ?_, ?_, ?_, ?_⟩
  · intro mp bounded
    rcases oldOrNew mp bounded with earlier | rfl
    · rw [old mp earlier, sound.root_mp mp earlier]
    · exact new.2
  · intro mp bounded parent isParent
    rcases oldOrNew mp bounded with earlier | rfl
    · rw [old mp earlier] at isParent
      exact sound.parent_earlier mp earlier parent isParent
    · rw [new.1, Option.some.injEq] at isParent
      subst isParent
      exact held
  · intro mp bounded parent isParent
    rcases oldOrNew mp bounded with earlier | rfl
    · rw [old mp earlier] at isParent
      rw [old parent.mp (Nat.lt_trans
        (sound.parent_earlier mp earlier parent isParent) earlier)]
      exact sound.parent_not_root mp earlier parent isParent
    · rw [new.1, Option.some.injEq] at isParent
      subst isParent
      rw [old vnode.mp held]
      exact notRoot
  · intro mp bounded parent isParent
    rcases oldOrNew mp bounded with earlier | rfl
    · rw [old mp earlier] at isParent
      exact sound.parent_directory mp earlier parent isParent
    · rw [new.1, Option.some.injEq] at isParent
      subst isParent
      exact directory
  · intro covered mp isCovered
    by_cases isVnode : covered = vnode
    · have isNew : mounts.count = mp := by
        simpa [Mounts.install, isVnode] using isCovered
      subst isNew
      exact ⟨Nat.lt_succ_self _, isVnode ▸ new.1⟩
    · have wasCovered : mounts.ns.vfsmountedhere covered = some mp := by
        simpa [Mounts.install, isVnode] using isCovered
      obtain ⟨earlier, isParent⟩ := sound.mounted_here covered mp wasCovered
      exact ⟨Nat.lt_succ_of_lt earlier, by rw [old mp earlier, isParent]⟩

end MountsSound

theorem sysMount_ok
    {mounts next : Mounts} {process : Process} {request : MountRequest}
    (returns : sysMount mounts process request = .ok next) :
    next = mounts ∨
      ∃ vnode fs,
        vnodeGet mounts.ns process true request.dest = .ok vnode ∧
          mounts.ns.isDir vnode = true ∧
          vnode ≠ (mounts.ns.mountpoint vnode.mp).rootVnode ∧
          next = mounts.install vnode fs request.flags := by
  unfold sysMount at returns
  split at returns
  · simp at returns
  cases isFs : request.fs with
  | none =>
    simp [isFs] at returns
  | some fs =>
    simp only [isFs] at returns
    split at returns
    · simp at returns
    · simp at returns
    next vnode _ resolved =>
      split at returns
      · simp at returns
      · split at returns
        · simp at returns
        next directory notRoot =>
          cases mounted : fs.mount with
          | error err =>
            simp [mounted] at returns
          | ok done =>
            simp only [mounted] at returns
            split at returns
            · refine .inr ⟨vnode, fs, resolved, ?_, notRoot, ?_⟩
              · simpa using directory
              · exact (Except.ok.inj returns).symm
            · exact .inl (Except.ok.inj returns).symm

theorem MountStep.sound {mounts next : Mounts} {label : MountLabel}
    (step : MountStep mounts label next) (sound : MountsSound mounts) :
    MountsSound next := by
  cases step with
  | mount rootHeld currentHeld returns =>
    rcases sysMount_ok returns with
      rfl | ⟨vnode, fs, resolved, directory, notRoot, rfl⟩
    · exact sound
    · exact sound.install (sound.vnodeGet_held rootHeld currentHeld resolved)
        directory notRoot fs _
  | change sameCount sameMounts sameCovers directoriesStay =>
    refine ⟨?_, ?_, ?_, ?_, ?_⟩
    all_goals rw [sameCount, sameMounts]
    · exact sound.root_mp
    · exact sound.parent_earlier
    · exact sound.parent_not_root
    · intro mp bounded vnode isParent
      exact directoriesStay mp bounded vnode isParent
        (sound.parent_directory mp bounded vnode isParent)
    · rw [sameCovers]
      exact sound.mounted_here

theorem ReachableMounts.sound {mounts : Mounts}
    (reachable : ReachableMounts mounts) : MountsSound mounts := by
  obtain ⟨first, labels, onlyRoot, run⟩ := reachable
  exact run.invariant (fun _ state => MountsSound state) onlyRoot.sound
    (fun sound step => step.sound sound)

end Idylla.Vfs
