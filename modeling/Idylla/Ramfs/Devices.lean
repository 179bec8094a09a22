import Idylla.Ramfs.MountCalls

namespace Idylla.Ramfs

open Idylla.Lib Idylla.Vfs

/-!
# Device nodes on ramfs

The type of each inode and the type in each cached vnode are partial maps.
Calls only ever take types away or put new inodes in, so that the devices of a
mount are those of `sys_mknod` and of the modes that become a device's: under
the umask, or when `ramfs_mkdir` adds the bit of a directory.
-/

/-- `S_ISCHR` or `S_ISBLK` -/
def IsDevice (mode : Nat) : Prop :=
  mode &&& S_IFMT = S_IFCHR ∨ mode &&& S_IFMT = S_IFBLK

namespace RamfsMount

/-- The type of an inode. -/
def fileType (mount : RamfsMount) (ino : Nat) : Option Nat :=
  (mount.inodeTable ino).map fun inode => inode.mode &&& S_IFMT

/-- The type in the vnode of an inode. -/
def cachedType (mount : RamfsMount) (ino : Nat) : Option Nat :=
  (mount.vnodes ino).map fun vnode => vnode.mode &&& S_IFMT

/-- Every device is one that was there before, and of the same type. -/
def MakesNoDevice (mount next : RamfsMount) : Prop :=
  ∀ ino inode, next.inodeTable ino = some inode → IsDevice inode.mode →
    ∃ before,
      mount.inodeTable ino = some before ∧
        before.mode &&& S_IFMT = inode.mode &&& S_IFMT

end RamfsMount

/-- Neither the user nor the effective user is root. -/
def Caller.Unprivileged (caller : Caller) : Prop :=
  caller.process.euid ≠ 0 ∧ caller.process.uid ≠ 0

/-- A call that no privileged process makes. -/
def MountCall.Unprivileged : MountCall → Prop
  | .walk caller _ _ => caller.Unprivileged
  | .entry caller _ _ _ => caller.Unprivileged
  | .openFile caller _ _ _ => caller.Unprivileged
  | .chmod caller _ _ => caller.Unprivileged
  | _ => True

/-- The mode of the inode that an operation of the driver makes. -/
def newMode : EntryOperation → Option Nat
  | .creat mode _ _ => some (S_IFREG ||| mode &&& 0o777)
  | .mknod mode _ _ _ => some mode
  | .mkdir mode _ _ => some (S_IFDIR ||| mode)
  | .unlink => none

/-- The mode of the inode that a call makes on the mount. -/
def MountCall.made (mp : Nat) (mount : RamfsMount) : MountCall → Option Nat
  | .entry caller path call _ =>
    match call.run (mount.view mp caller.around) caller.process path with
    | .performs directory _ operation =>
      if directory.mp = mp then newMode operation else none
    | _ => none
  | _ => none

namespace RamfsMount

variable {mount : RamfsMount} {ino : Nat}

theorem fileType_modifyInode {change : RamfsInode → RamfsInode}
    (sameMode : ∀ inode, (change inode).mode = inode.mode) :
    (mount.modifyInode ino change).fileType = mount.fileType := by
  funext other
  unfold fileType modifyInode setInode
  dsimp only
  split
  next same =>
    rw [same, Option.map_map]
    congr 1
    funext inode
    exact congrArg (· &&& S_IFMT) (sameMode inode)
  · rfl

theorem fileType_ramfsPutEntry (parent : Nat) (name : List Char) :
    (mount.ramfsPutEntry parent ino name).fileType = mount.fileType := by
  unfold ramfsPutEntry
  rw [fileType_modifyInode fun inode => inode.mode_putEntry _]
  exact fileType_modifyInode fun _ => rfl

theorem fileType_putInode (inode : RamfsInode) :
    (mount.putInode inode).fileType = fun other =>
      if other = mount.freshNumber then some (inode.mode &&& S_IFMT)
      else mount.fileType other := by
  funext other
  unfold fileType putInode setInode
  dsimp only
  split <;> rfl

theorem fileType_setInode (inode : Option RamfsInode) :
    (mount.setInode ino inode).fileType = fun other =>
      if other = ino then inode.map fun inode => inode.mode &&& S_IFMT
      else mount.fileType other := by
  funext other
  unfold fileType setInode
  dsimp only
  split <;> rfl

theorem cachedType_setVnode (vnode : Option CachedVnode) :
    (mount.setVnode ino vnode).cachedType = fun other =>
      if other = ino then vnode.map fun vnode => vnode.mode &&& S_IFMT
      else mount.cachedType other := by
  funext other
  unfold cachedType setVnode
  dsimp only
  split <;> rfl

end RamfsMount

/-- No inode lies behind the last number, and vnodes have their types. -/
structure TypesAgree (mount : RamfsMount) : Prop where
  numbered : ∀ ino, mount.inodes < ino → mount.fileType ino = none
  cached : ∀ ino type, mount.cachedType ino = some type →
      mount.fileType ino = some type

/-- The mount `next` agrees and has types of `mount` and of one new inode. -/
structure TypeStep
    (mount next : RamfsMount)
    (made : Option Nat) : Prop where
  agree : TypesAgree next
  types : ∀ ino type, next.fileType ino = some type →
      mount.fileType ino = some type ∨
        ∃ mode, made = some mode ∧ type = mode &&& S_IFMT

namespace TypeStep

variable {mount middle next : RamfsMount} {made : Option Nat}

theorem trans (first : TypeStep mount middle made)
    (second : TypeStep middle next none) : TypeStep mount next made := by
  refine ⟨second.agree, fun ino type isType => ?_⟩
  rcases second.types ino type isType with before | ⟨mode, isMade, -⟩
  · exact first.types ino type before
  · cases isMade

end TypeStep

theorem RamfsMount.MakesNoDevice.trans {mount middle next : RamfsMount}
    (first : mount.MakesNoDevice middle) (second : middle.MakesNoDevice next) :
    mount.MakesNoDevice next := by
  intro ino inode isInode isDevice
  obtain ⟨between, isBetween, sameType⟩ := second ino inode isInode isDevice
  have stillDevice : IsDevice between.mode := by
    unfold IsDevice
    rw [sameType]
    exact isDevice
  obtain ⟨before, isBefore, same⟩ := first ino between isBetween stillDevice
  exact ⟨before, isBefore, same.trans sameType⟩

namespace TypesAgree

variable {mount next : RamfsMount} {ino : Nat}

section

variable (agree : TypesAgree mount)

include agree

theorem stays : TypeStep mount mount none :=
  ⟨agree, fun _ _ isType => .inl isType⟩

theorem keeps (sameInodes : next.inodes = mount.inodes)
    (sameVnodes : next.vnodes = mount.vnodes)
    (sameTypes : next.fileType = mount.fileType) :
    TypeStep mount next none := by
  refine ⟨⟨fun other behind => ?_, fun other type isCached => ?_⟩,
    fun other type isType => .inl (sameTypes ▸ isType)⟩
  · rw [sameTypes]
    exact agree.numbered other (sameInodes ▸ behind)
  · rw [sameTypes]
    unfold RamfsMount.cachedType at isCached
    rw [sameVnodes] at isCached
    exact agree.cached other type isCached

theorem setVnode {vnode : Option CachedVnode}
    (sameType :
      ∀ cached, vnode = some cached →
        mount.fileType ino = some (cached.mode &&& S_IFMT)) :
    TypeStep mount (mount.setVnode ino vnode) none := by
  refine ⟨⟨agree.numbered, fun other type isCached => ?_⟩,
    fun _ _ isType => .inl isType⟩
  rw [RamfsMount.cachedType_setVnode] at isCached
  dsimp only at isCached
  split at isCached
  next same =>
    obtain ⟨cached, rfl, rfl⟩ := Option.map_eq_some_iff.mp isCached
    rw [same]
    exact sameType cached rfl
  · exact agree.cached other type isCached

theorem fileType_of_vnode {vnode : CachedVnode}
    (isVnode : mount.vnodes ino = some vnode) :
    mount.fileType ino = some (vnode.mode &&& S_IFMT) := by
  apply agree.cached
  rw [RamfsMount.cachedType, isVnode, Option.map_some]

theorem setInode {inode : Option RamfsInode}
    (sameType :
      ∀ after, inode = some after →
        mount.fileType ino = some (after.mode &&& S_IFMT))
    (dropped : inode = none → mount.vnodes ino = none) :
    TypeStep mount (mount.setInode ino inode) none := by
  have types :
      ∀ other type, (mount.setInode ino inode).fileType other = some type →
        mount.fileType other = some type := by
    intro other type isType
    rw [RamfsMount.fileType_setInode] at isType
    dsimp only at isType
    split at isType
    next same =>
      obtain ⟨after, rfl, rfl⟩ := Option.map_eq_some_iff.mp isType
      rw [same]
      exact sameType after rfl
    · exact isType
  refine ⟨⟨fun other behind => ?_, fun other type isCached => ?_⟩,
    fun other type isType => .inl (types other type isType)⟩
  · cases isType : (mount.setInode ino inode).fileType other with
    | none =>
      rfl
    | some type =>
      have before := types other type isType
      rw [agree.numbered other behind] at before
      cases before
  · have before := agree.cached other type isCached
    rw [RamfsMount.fileType_setInode]
    dsimp only
    split
    next same =>
      subst same
      cases inode with
      | none =>
        have noVnode := dropped rfl
        unfold RamfsMount.cachedType at isCached
        rw [show (mount.setInode other none).vnodes other = none from
          noVnode] at isCached
        cases isCached
      | some after =>
        rw [← before, sameType after rfl, Option.map_some]
    · exact before

theorem fresh :
    mount.fileType mount.freshNumber = none := by
  unfold RamfsMount.freshNumber
  split
  next i isFound =>
    have isNone := Option.isNone_iff_eq_none.mp (@List.find?_some _
      (fun i => (mount.inodeTable (i + 1)).isNone) i _ isFound)
    rw [RamfsMount.fileType, isNone, Option.map_none]
  · exact agree.numbered _ (Nat.lt_succ_self mount.inodes)

theorem putInode (inode : RamfsInode) :
    TypeStep mount (mount.putInode inode) (some inode.mode) := by
  have unnumbered : ∀ ino, max mount.inodes mount.freshNumber < ino →
        (mount.putInode inode).fileType ino = none := by
    intro ino behind
    rw [RamfsMount.fileType_putInode]
    dsimp only
    rw [if_neg (by omega)]
    exact agree.numbered ino (by omega)
  refine ⟨⟨unnumbered, fun ino type isCached => ?_⟩, fun ino type isType => ?_⟩
  · have before := agree.cached ino type isCached
    rw [RamfsMount.fileType_putInode]
    dsimp only
    split
    next isFresh =>
      rw [isFresh, agree.fresh] at before
      cases before
    · exact before
  · rw [RamfsMount.fileType_putInode] at isType
    dsimp only at isType
    split at isType
    · cases isType
      exact .inr ⟨inode.mode, rfl, rfl⟩
    · exact .inl isType

theorem ramfsPutEntry (parent child : Nat) (name : List Char) :
    TypeStep mount (mount.ramfsPutEntry parent child name) none :=
  agree.keeps rfl rfl (RamfsMount.fileType_ramfsPutEntry parent name)

theorem record (dir : Nat) (event : EntryEvent) :
    TypeStep mount (mount.record dir event) none :=
  agree.keeps rfl rfl rfl

theorem ramfsCreate (parent : Nat) (name : List Char) (inode : RamfsInode) :
    TypeStep mount (mount.ramfsCreate parent name inode) (some inode.mode) := by
  have added := agree.putInode inode
  have linked :=
    added.trans (added.agree.ramfsPutEntry parent mount.freshNumber name)
  exact linked.trans (linked.agree.record parent _)

theorem ramfsMkdir (parent mode : Nat) (name : List Char) :
    TypeStep mount (mount.ramfsMkdir parent name mode)
      (some (S_IFDIR ||| mode)) := by
  have added := agree.putInode (.new (S_IFDIR ||| mode) 0)
  have dotted :=
    added.trans
      (added.agree.ramfsPutEntry mount.freshNumber mount.freshNumber ['.'])
  have filled :=
    dotted.trans
      (dotted.agree.ramfsPutEntry mount.freshNumber parent ['.', '.'])
  have linked :=
    filled.trans (filled.agree.ramfsPutEntry parent mount.freshNumber name)
  exact linked.trans (linked.agree.record parent _)

theorem ramfsUnlink {parent : Nat} {inode : RamfsInode}
    (isInode : mount.inodeTable parent = some inode) (name : List Char) :
    TypeStep mount (mount.ramfsUnlink parent inode name).1 none := by
  unfold RamfsMount.ramfsUnlink
  split
  · exact agree.stays
  next after unlinks =>
    have recorded := agree.record parent (.removed parent name)
    have isType : mount.fileType parent = some (after.mode &&& S_IFMT) := by
      rw [RamfsMount.fileType, isInode, Option.map_some,
        (RamfsInode.unlink_keeps unlinks).1]
    refine recorded.trans (recorded.agree.setInode ?_ nofun)
    intro other isAfter
    cases isAfter
    exact isType

theorem driverCall {dir : Nat} {name : List Char} {operation : EntryOperation}
    {after : RamfsMount} {returnsZero : Bool}
    (performs :
      mount.driverCall dir name operation = some (after, returnsZero)) :
    TypeStep mount after (newMode operation) := by
  obtain ⟨inode, isInode, isAfter⟩ := Option.map_eq_some_iff.mp performs
  cases operation with
  | creat mode uid gid | mknod mode dev uid gid =>
    cases isAfter
    exact agree.ramfsCreate dir name _
  | mkdir mode uid gid =>
    cases isAfter
    exact agree.ramfsMkdir dir mode name
  | unlink =>
    obtain rfl : (mount.ramfsUnlink dir inode name).1 = after :=
      congrArg Prod.fst isAfter
    exact agree.ramfsUnlink isInode name

theorem vnodeCache (caches : mount.vnodeCache ino = some next) :
    TypeStep mount next none := by
  unfold RamfsMount.vnodeCache at caches
  split at caches
  · cases caches
    exact agree.stays
  split at caches
  · cases caches
    exact agree.stays
  split at caches
  · cases caches
  next inode isInode =>
    cases caches
    refine agree.setVnode fun cached isCached => ?_
    cases isCached
    rw [RamfsMount.fileType, isInode]
    rfl

theorem cacheFound {mp : Nat} {lookups : List Lookup}
    (caches : RamfsMount.cacheFound mp lookups mount = some next) :
    TypeStep mount next none := by
  induction lookups generalizing mount with
  | nil =>
    cases caches
    exact agree.stays
  | cons lookup lookups ih =>
    unfold RamfsMount.cacheFound at caches
    split at caches
    · split at caches
      · exact ih agree caches
      · obtain ⟨cached, isCached, later⟩ := Option.bind_eq_some_iff.mp caches
        have first := agree.vnodeCache isCached
        exact first.trans (ih first.agree later)
    · exact ih agree caches

theorem changeVnode {vnode after : CachedVnode}
    (isVnode : mount.vnodes ino = some vnode)
    (sameType : after.mode &&& S_IFMT = vnode.mode &&& S_IFMT) :
    TypeStep mount (mount.setVnode ino (some after)) none := by
  refine agree.setVnode fun cached isCached => ?_
  cases isCached
  rw [sameType]
  exact agree.fileType_of_vnode isVnode

theorem ramfsFlush (flushes : mount.ramfsFlush ino = some next) :
    TypeStep mount next none := by
  unfold RamfsMount.ramfsFlush at flushes
  split at flushes
  next vnode inode isVnode isInode =>
    cases flushes
    refine agree.setInode (fun after isAfter => ?_) nofun
    cases isAfter
    exact agree.fileType_of_vnode isVnode
  · cases flushes

theorem vnodeFree (frees : mount.vnodeFree ino = some next) :
    TypeStep mount next none := by
  unfold RamfsMount.vnodeFree at frees
  split at frees
  next vnode inode isVnode isInode =>
    split at frees
    · cases frees
      exact agree.stays
    · cases frees
      have dropped : TypeStep mount (mount.setVnode ino none) none :=
        agree.setVnode nofun
      refine dropped.trans (dropped.agree.setInode ?_ fun _ => if_pos rfl)
      intro after isAfter
      split at isAfter
      · cases isAfter
      · cases isAfter
        exact agree.fileType_of_vnode isVnode
  · cases frees

theorem vnodeHold (holds : mount.vnodeHold ino = some next) :
    TypeStep mount next none := by
  obtain ⟨vnode, isVnode, rfl⟩ := Option.map_eq_some_iff.mp holds
  exact agree.changeVnode isVnode rfl

theorem vnodeRel (releases : mount.vnodeRel ino = some next) :
    TypeStep mount next none := by
  obtain ⟨vnode, isVnode, releases⟩ := Option.bind_eq_some_iff.mp releases
  split at releases
  · cases releases
  · cases releases
    exact agree.changeVnode isVnode rfl

theorem dropLink {isDirectory : Bool}
    (drops : mount.dropLink ino isDirectory = some next) :
    TypeStep mount next none := by
  unfold RamfsMount.dropLink at drops
  split at drops
  · cases drops
  next vnode isVnode =>
    dsimp only at drops
    have changed : TypeStep mount
          (mount.setVnode ino
            (some
              { vnode with
                nlink := (vnode.nlink + (nlinkMod - 1)) % nlinkMod }))
          none :=
      agree.changeVnode isVnode rfl
    split at drops
    · exact changed.trans (changed.agree.vnodeFree drops)
    · exact changed.trans (changed.agree.ramfsFlush drops)

theorem withFiles (files : Heap RamfsFile) :
    TypeStep mount { mount with files := files } none :=
  agree.keeps rfl rfl rfl

end

section Calls

variable {mp : Nat} {caller : Caller} {path : List Char}

theorem openFile (agree : TypesAgree mount) {flags : Nat} {descriptor : Bool}
    (opens : mount.openFile mp caller path flags descriptor = some next) :
    TypeStep mount next none := by
  unfold RamfsMount.openFile at opens
  dsimp only at opens
  split at opens
  · cases opens
    exact agree.stays
  split at opens
  · cases opens
    exact agree.stays
  split at opens
  · cases opens
    exact agree.stays
  · obtain ⟨held, isHeld, rfl⟩ := Option.map_eq_some_iff.mp opens
    have holds := agree.vnodeHold isHeld
    exact holds.trans (holds.agree.withFiles _)

theorem closeFile (agree : TypesAgree mount) {file : Nat}
    (closes : mount.closeFile file = some next) : TypeStep mount next none := by
  unfold RamfsMount.closeFile at closes
  split at closes
  · cases closes
  next closed isClosed =>
    split at closes
    · cases closes
      exact agree.withFiles _
    · obtain ⟨released, isReleased, frees⟩ := Option.bind_eq_some_iff.mp closes
      have unfiled := agree.withFiles (mount.files.free file)
      have unheld := unfiled.trans (unfiled.agree.vnodeRel isReleased)
      exact unheld.trans (unheld.agree.vnodeFree frees)

theorem sysChmod (agree : TypesAgree mount) {mode : Nat}
    (changes : mount.sysChmod mp caller path mode = some next) :
    TypeStep mount next none := by
  unfold RamfsMount.sysChmod at changes
  split at changes
  · cases changes
    exact agree.stays
  next ino isTarget =>
    split at changes
    · cases changes
    next vnode isVnode =>
      have changed : TypeStep mount
            (mount.setVnode ino
              (some
                { vnode with
                  mode := (vnode.mode &&& S_IFMT) ||| (mode &&& 0o777) }))
            none :=
        agree.changeVnode isVnode (type_of_chmod vnode.mode mode)
      exact changed.trans (changed.agree.ramfsFlush changes)

theorem finishUnlink {after : RamfsMount} (agree : TypesAgree after)
    {directory : Vnode}
    (finishes : mount.finishUnlink mp caller path directory after = some next) :
    TypeStep after next none := by
  unfold RamfsMount.finishUnlink at finishes
  split at finishes
  · cases finishes
  split at finishes
  · exact agree.dropLink finishes
  · cases finishes
    exact agree.stays

theorem entry (agree : TypesAgree mount) {call : EntryCall} {elsewhere : Bool}
    (returns : mount.entry mp caller path call elsewhere = some next) :
    TypeStep mount next
      (MountCall.made mp mount (.entry caller path call elsewhere)) := by
  unfold RamfsMount.entry at returns
  simp only [MountCall.made]
  cases outcome :
      call.run (mount.view mp caller.around) caller.process path with
  | overrun =>
    rw [outcome] at returns
    cases returns
  | refused err | opens vnode =>
    rw [outcome] at returns
    cases returns
    exact agree.stays
  | performs directory name operation =>
    rw [outcome] at returns
    obtain ⟨⟨after, returnsZero⟩, isPerformed, finishes⟩ :=
      Option.bind_eq_some_iff.mp returns
    have performed : TypeStep mount after
          (if directory.mp = mp then newMode operation else none) := by
      by_cases isHere : directory.mp = mp
      · rw [if_pos isHere] at isPerformed ⊢
        exact agree.driverCall isPerformed
      · rw [if_neg isHere] at isPerformed ⊢
        cases isPerformed
        exact agree.stays
    dsimp only at finishes ⊢
    split at finishes
    · exact performed.trans (finishUnlink performed.agree finishes)
    · cases finishes
      exact performed

theorem step (agree : TypesAgree mount) {call : MountCall}
    (called : MountStep mp mount call next) :
    TypeStep mount next (call.made mp mount) := by
  cases call with
  | walk caller path followlink =>
    exact agree.cacheFound called
  | entry caller path call elsewhere =>
    exact agree.entry called
  | openFile caller path flags descriptor =>
    exact agree.openFile called
  | closeFile file =>
    exact agree.closeFile called
  | chmod caller path mode =>
    exact agree.sysChmod called
  | hold ino =>
    exact agree.vnodeHold called
  | release ino =>
    exact agree.vnodeRel called

end Calls

theorem mounted : TypesAgree .mounted := by
  constructor
  · intro ino behind
    have isOther : ino ≠ RAMFS_ROOT_INODE := by
      have behind : 1 < ino := behind
      unfold RAMFS_ROOT_INODE
      omega
    simp [RamfsMount.fileType, RamfsMount.mounted, RamfsMount.setVnode,
      RamfsMount.ramfsPutEntry, RamfsMount.addLink, RamfsMount.modifyInode,
      RamfsMount.setInode, isOther]
  · intro ino type isCached
    obtain ⟨vnode, isVnode, rfl⟩ := Option.map_eq_some_iff.mp isCached
    unfold RamfsMount.mounted RamfsMount.setVnode at isVnode
    dsimp only at isVnode
    split at isVnode
    next isRoot =>
      cases isVnode
      rw [isRoot]
      rfl
    · cases isVnode

theorem reached {mp : Nat} {calls : List MountCall}
    (ran : Run (MountStep mp) .mounted calls mount) : TypesAgree mount :=
  ran.invariant (fun _ mount => TypesAgree mount) .mounted
    fun agree called => (agree.step called).agree

end TypesAgree

section Modes

variable {ns : Namespace} {process : Process} {path name : List Char}
  {call : EntryCall} {directory : Vnode} {operation : EntryOperation}

end Modes

section Unprivileged

variable {mp : Nat} {mount next : RamfsMount}

end Unprivileged

end Idylla.Ramfs
