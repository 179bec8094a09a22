import Idylla.Ramfs.MountCalls

namespace Idylla.Ramfs

open Idylla.Lib Idylla.Vfs

/-!
# Entries of ramfs directories stay

What the calls have made of the names in each directory is a partial map.  The
directories of a mount show that map as long as no call puts a stale size back
into an inode and none makes an entry beside one of the same name.
-/

/-- The inode number that each name of each directory stands for. -/
abbrev Bindings := Nat → List Char → Option Nat

/-- What an event makes of the bindings. -/
def EntryEvent.apply (bindings : Bindings) : EntryEvent → Bindings
  | .made dir name ino => fun other named =>
    if other = dir ∧ named = name then some ino else bindings other named
  | .removed dir name => fun other named =>
    if other = dir ∧ named = name then none else bindings other named

/-- The bindings that the events of a mount have left. -/
def RamfsMount.bindings (mount : RamfsMount) : Bindings :=
  mount.log.foldl EntryEvent.apply fun _ _ => none

/-- A directory does not have the name. -/
def RamfsMount.Missing (mount : RamfsMount) (dir : Nat)
    (name : List Char) : Prop :=
  ∀ inode, mount.inodeTable dir = some inode → inode.IsDir →
    inode.lookup name = none

/-- The size in the vnode of a directory cuts off no entry that is alive. -/
def RamfsMount.KeepsSize (mount : RamfsMount) (ino : Nat) : Prop :=
  ∀ inode vnode, mount.inodeTable ino = some inode →
    mount.vnodes ino = some vnode → inode.IsDir →
    inode.EndsBefore vnode.size

/-- The vnode of a directory counts a link. -/
def RamfsMount.KeepsLink (mount : RamfsMount) (ino : Nat) : Prop :=
  ∀ inode vnode, mount.inodeTable ino = some inode →
    mount.vnodes ino = some vnode → inode.IsDir → vnode.nlink ≠ 0

/--
What the calls do not see to: an entry is made only under a name that is not
in the directory, and the vnode of a directory is flushed only with a size that
keeps all entries, and closed only with a link.
-/
def KeepsEntries (mp : Nat) (mount : RamfsMount) : MountCall → Prop
  | .entry caller path call _ =>
    ∀ directory name operation,
      call.run (mount.view mp caller.around) caller.process path =
        .performs directory name operation →
      operation ≠ .unlink → directory.mp = mp →
      mount.Missing directory.ino name
  | .chmod caller path _ =>
    ∀ ino, mount.chmodTarget mp caller path = some ino → mount.KeepsSize ino
  | .closeFile file =>
    ∀ closed vnode, mount.files.cells file = some closed →
      mount.vnodes closed.ino = some vnode → vnode.refcount = 1 →
      mount.KeepsSize closed.ino ∧ mount.KeepsLink closed.ino
  | _ => True

namespace RamfsMount.Missing

variable {mount : RamfsMount} {dir : Nat} {name : List Char}

section

variable (missing : mount.Missing dir name)

include missing

theorem modifyInode (ino : Nat) {change : RamfsInode → RamfsInode}
    (sameMode : ∀ inode, (change inode).mode = inode.mode)
    (keeps :
      dir = ino →
        ∀ inode, inode.lookup name = none → (change inode).lookup name = none) :
    (mount.modifyInode ino change).Missing dir name := by
  intro after isAfter isDir
  by_cases same : dir = ino
  · have isMapped : (mount.inodeTable ino).map change = some after :=
      (if_pos same).symm.trans isAfter
    obtain ⟨inode, isInode, rfl⟩ := Option.map_eq_some_iff.mp isMapped
    unfold RamfsInode.IsDir at isDir
    rw [sameMode] at isDir
    exact keeps same inode (missing inode (same ▸ isInode) isDir)
  · have isOther : mount.inodeTable dir = some after :=
      (if_neg same).symm.trans isAfter
    exact missing after isOther isDir

theorem addLink (ino : Nat) : (mount.addLink ino).Missing dir name :=
  missing.modifyInode ino (fun _ => rfl) fun _ _ isMissing => isMissing

theorem ramfsPutEntry {parent ino : Nat} {other : List Char} (alive : ino ≠ 0)
    (differs : dir = parent → name ≠ other) :
    (mount.ramfsPutEntry parent ino other).Missing dir name := by
  refine (missing.addLink ino).modifyInode parent
    (fun inode => inode.mode_putEntry _) ?_
  intro same inode isMissing
  exact RamfsInode.lookup_putEntry_none alive isMissing (differs same)

theorem putInode {inode : RamfsInode} (isOther : dir ≠ mount.freshNumber) :
    (mount.putInode inode).Missing dir name :=
  fun holder isHolder => missing holder ((if_neg isOther).symm.trans isHolder)

end

theorem new (mode rdev : Nat) (name : List Char) :
    (mount.putInode (.new mode rdev)).Missing mount.freshNumber name := by
  intro inode isInode isDir
  cases (if_pos rfl).symm.trans isInode
  rfl

end RamfsMount.Missing

/-- A mount whose directories show what has been made of them. -/
structure MountSound (mount : RamfsMount) : Prop where
  numbered : ∀ ino, ino = 0 ∨ mount.inodes < ino → mount.inodeTable ino = none
  cached : ∀ ino vnode, mount.vnodes ino = some vnode →
      ∃ inode,
        mount.inodeTable ino = some inode ∧
          inode.mode &&& S_IFMT = vnode.mode &&& S_IFMT ∧
          vnode.size ≤ inode.size
  bound : ∀ dir name ino, mount.bindings dir name = some ino →
      ∃ inode,
        mount.inodeTable dir = some inode ∧ inode.IsDir ∧ inode.Binds name ino

namespace MountSound

variable {mount : RamfsMount}

variable {ino : Nat}

theorem setInode (sound : MountSound mount) {inode after : RamfsInode}
    (isInode : mount.inodeTable ino = some inode)
    (sameType : after.mode &&& S_IFMT = inode.mode &&& S_IFMT)
    (fits :
      ∀ vnode, mount.vnodes ino = some vnode →
        vnode.size ≤ inode.size → vnode.size ≤ after.size)
    (keeps :
      inode.IsDir →
        ∀ name other, mount.bindings ino name = some other →
          inode.Binds name other → after.Binds name other) :
    MountSound (mount.setInode ino (some after)) := by
  constructor
  · intro other outside
    have isOther : other ≠ ino := by
      rintro rfl
      rw [sound.numbered other outside] at isInode
      cases isInode
    exact (if_neg isOther).trans (sound.numbered other outside)
  · intro other vnode isVnode
    obtain ⟨cached, isCached, isType, within⟩ :=
      sound.cached other vnode isVnode
    by_cases same : other = ino
    · subst same
      cases isInode.symm.trans isCached
      refine ⟨after, if_pos rfl, sameType.trans isType, ?_⟩
      exact fits vnode isVnode within
    · exact ⟨cached, (if_neg same).trans isCached, isType, within⟩
  · intro dir name other isBound
    obtain ⟨holder, isHolder, isDir, binds⟩ :=
      sound.bound dir name other isBound
    by_cases same : dir = ino
    · subst same
      cases isInode.symm.trans isHolder
      refine ⟨after, if_pos rfl, sameType.trans isDir, ?_⟩
      exact keeps isDir name other isBound binds
    · exact ⟨holder, (if_neg same).trans isHolder, isDir, binds⟩

theorem fresh (sound : MountSound mount) :
    mount.inodeTable mount.freshNumber = none := by
  unfold RamfsMount.freshNumber
  split
  next i isFound =>
    exact Option.isNone_iff_eq_none.mp (@List.find?_some _
      (fun i => (mount.inodeTable (i + 1)).isNone) i _ isFound)
  · exact sound.numbered _ (.inr (Nat.lt_succ_self mount.inodes))

theorem freshNumber_ne_zero (mount : RamfsMount) :
    mount.freshNumber ≠ 0 := by
  unfold RamfsMount.freshNumber
  split <;> exact Nat.succ_ne_zero _

theorem putInode (sound : MountSound mount) (inode : RamfsInode) :
    MountSound (mount.putInode inode) := by
  have others {ino : Nat} {holder : RamfsInode}
      (isHolder : mount.inodeTable ino = some holder) :
      (mount.putInode inode).inodeTable ino = some holder := by
    refine (if_neg ?_).trans isHolder
    rintro rfl
    rw [sound.fresh] at isHolder
    cases isHolder
  constructor
  · intro ino outside
    have outside : ino = 0 ∨ max mount.inodes mount.freshNumber < ino := outside
    have alive := freshNumber_ne_zero mount
    exact (if_neg (by omega)).trans (sound.numbered ino (by omega))
  · intro ino vnode isVnode
    obtain ⟨cached, isCached, isType, within⟩ := sound.cached ino vnode isVnode
    exact ⟨cached, others isCached, isType, within⟩
  · intro dir name ino isBound
    obtain ⟨holder, isHolder, isDir, binds⟩ := sound.bound dir name ino isBound
    exact ⟨holder, others isHolder, isDir, binds⟩

theorem modifyInode (sound : MountSound mount) (ino : Nat)
    {change : RamfsInode → RamfsInode}
    (sameType : ∀ inode, (change inode).mode &&& S_IFMT = inode.mode &&& S_IFMT)
    (grows : ∀ inode, inode.size ≤ (change inode).size)
    (keeps :
      ∀ inode, mount.inodeTable ino = some inode → inode.IsDir →
        ∀ name other, mount.bindings ino name = some other →
          inode.Binds name other → (change inode).Binds name other) :
    MountSound (mount.modifyInode ino change) := by
  unfold RamfsMount.modifyInode
  cases isInode : mount.inodeTable ino with
  | some inode =>
    exact sound.setInode isInode (sameType inode)
      (fun _ _ within => Nat.le_trans within (grows inode))
      (keeps inode isInode)
  | none =>
    have unchanged : mount.setInode ino none = mount := by
      unfold RamfsMount.setInode
      congr
      funext other
      split
      next same => rw [same, isInode]
      · rfl
    rw [Option.map_none, unchanged]
    exact sound

variable {name : List Char}

theorem ramfsPutEntry (sound : MountSound mount) {parent ino : Nat}
    (alive : ino ≠ 0) (missing : mount.Missing parent name) :
    MountSound (mount.ramfsPutEntry parent ino name) := by
  have linked : MountSound (mount.addLink ino) := by
    refine sound.modifyInode ino (fun _ => rfl)
      (fun inode => Nat.le_refl inode.size) ?_
    intro inode _ _ name other _ binds
    exact binds.congr fun _ _ =>
      ⟨fun has => ⟨has.inside, has.isEntry, has.alive⟩,
        fun has => ⟨has.inside, has.isEntry, has.alive⟩⟩
  have stillMissing := missing.addLink ino
  refine linked.modifyInode parent (fun inode => ?_)
    (fun inode => inode.size_le_putEntry _) ?_
  · rw [RamfsInode.mode_putEntry]
  · intro inode isInode isDir named other _ binds
    refine binds.putEntry alive ?_
    rintro rfl
    have isFound := RamfsInode.lookup_of_binds binds
    rw [stillMissing inode isInode isDir] at isFound
    cases isFound

theorem ramfsPutEntry_binds {parent ino : Nat} (alive : ino ≠ 0)
    (missing : mount.Missing parent name) {after : RamfsInode}
    (isAfter :
      (mount.ramfsPutEntry parent ino name).inodeTable parent = some after)
    (isDir : after.IsDir) : after.Binds name ino := by
  have stillMissing := missing.addLink ino
  obtain ⟨inode, isInode, rfl⟩ :=
    Option.map_eq_some_iff.mp ((if_pos rfl).symm.trans isAfter)
  unfold RamfsInode.IsDir at isDir
  rw [RamfsInode.mode_putEntry] at isDir
  exact RamfsInode.binds_putEntry alive (stillMissing inode isInode isDir)

theorem holdsDir_iff {ino : Nat} :
    mount.holdsDir ino = true ↔
      ∃ inode, mount.inodeTable ino = some inode ∧ inode.IsDir := by
  unfold RamfsMount.holdsDir RamfsInode.IsDir
  cases mount.inodeTable ino with
  | none =>
    simp
  | some inode =>
    simp

variable {dir : Nat}

theorem bindings_record (event : EntryEvent)
    (isDir : mount.holdsDir dir = true) :
    (mount.record dir event).bindings = event.apply mount.bindings := by
  unfold RamfsMount.bindings RamfsMount.record
  rw [if_pos isDir, List.foldl_append]
  rfl

theorem record_of_not_dir (event : EntryEvent)
    (notDir : ¬ mount.holdsDir dir = true) :
    mount.record dir event = mount := by
  unfold RamfsMount.record
  rw [if_neg notDir]

variable (sound : MountSound mount)

include sound

theorem recordMade {ino : Nat}
    (binds :
      ∀ inode, mount.inodeTable dir = some inode → inode.IsDir →
        inode.Binds name ino) :
    MountSound (mount.record dir (.made dir name ino)) := by
  by_cases isDir : mount.holdsDir dir = true
  · refine ⟨sound.numbered, sound.cached, fun other named number => ?_⟩
    rw [bindings_record _ isDir]
    intro isBound
    unfold EntryEvent.apply at isBound
    dsimp only at isBound
    split at isBound
    next same =>
      cases isBound
      obtain ⟨rfl, rfl⟩ := same
      obtain ⟨inode, isInode, isDir⟩ := holdsDir_iff.mp isDir
      exact ⟨inode, isInode, isDir, binds inode isInode isDir⟩
    · exact sound.bound other named number isBound
  · rw [record_of_not_dir _ isDir]
    exact sound

theorem recordRemoved (dir : Nat) (name : List Char) :
    MountSound (mount.record dir (.removed dir name)) := by
  by_cases isDir : mount.holdsDir dir = true
  · refine ⟨sound.numbered, sound.cached, fun other named number => ?_⟩
    rw [bindings_record _ isDir]
    intro isBound
    unfold EntryEvent.apply at isBound
    dsimp only at isBound
    split at isBound
    · cases isBound
    · exact sound.bound other named number isBound
  · rw [record_of_not_dir _ isDir]
    exact sound

variable {inode : RamfsInode}

theorem ne_freshNumber (isInode : mount.inodeTable ino = some inode) :
    ino ≠ mount.freshNumber := by
  rintro rfl
  rw [sound.fresh] at isInode
  cases isInode

variable {parent : Nat}

theorem ramfsCreate {holder : RamfsInode}
    (isHolder : mount.inodeTable parent = some holder)
    (missing : mount.Missing parent name) (inode : RamfsInode) :
    MountSound (mount.ramfsCreate parent name inode) := by
  have alive := freshNumber_ne_zero mount
  have stillMissing : (mount.putInode inode).Missing parent name :=
    missing.putInode (sound.ne_freshNumber isHolder)
  refine ((sound.putInode inode).ramfsPutEntry alive stillMissing).recordMade
    fun after isAfter isDir => ?_
  exact ramfsPutEntry_binds alive stillMissing isAfter isDir

theorem ramfsMkdir {holder : RamfsInode}
    (isHolder : mount.inodeTable parent = some holder)
    (missing : mount.Missing parent name) (mode : Nat) :
    MountSound (mount.ramfsMkdir parent name mode) := by
  have alive := freshNumber_ne_zero mount
  have isOther := sound.ne_freshNumber isHolder
  have parentAlive : parent ≠ 0 := by
    rintro rfl
    rw [sound.numbered 0 (.inl rfl)] at isHolder
    cases isHolder
  have noDot : (mount.putInode (.new (S_IFDIR ||| mode) 0)).Missing
      mount.freshNumber ['.'] :=
    .new _ _ _
  have noDots : ((mount.putInode (.new (S_IFDIR ||| mode) 0)).ramfsPutEntry
      mount.freshNumber mount.freshNumber ['.']).Missing
      mount.freshNumber ['.', '.'] :=
    (RamfsMount.Missing.new _ _ _).ramfsPutEntry alive fun _ => by decide
  have stillMissing : (mount.newDirectory parent mode).Missing parent name :=
    ((missing.putInode isOther).ramfsPutEntry alive
      fun same => absurd same isOther).ramfsPutEntry parentAlive
      fun same => absurd same isOther
  have filled : MountSound (mount.newDirectory parent mode) :=
    ((sound.putInode _).ramfsPutEntry alive noDot).ramfsPutEntry parentAlive
      noDots
  refine (filled.ramfsPutEntry alive stillMissing).recordMade
    fun after isAfter isDir => ?_
  exact ramfsPutEntry_binds alive stillMissing isAfter isDir

theorem ramfsUnlink (isInode : mount.inodeTable parent = some inode)
    (name : List Char) :
    MountSound (mount.ramfsUnlink parent inode name).1 := by
  unfold RamfsMount.ramfsUnlink
  split
  · exact sound
  next after unlinks =>
    obtain ⟨sameMode, sameSize⟩ := RamfsInode.unlink_keeps unlinks
    refine (sound.recordRemoved parent name).setInode isInode
      (congrArg (· &&& S_IFMT) sameMode)
      (fun _ _ within => sameSize ▸ within) ?_
    intro isDir named other isBound binds
    refine binds.unlink unlinks ?_
    rintro rfl
    rw [bindings_record _ (holdsDir_iff.mpr ⟨inode, isInode, isDir⟩),
      EntryEvent.apply] at isBound
    simp at isBound

theorem driverCall {operation : EntryOperation}
    (missing : operation ≠ .unlink → mount.Missing dir name)
    {after : RamfsMount} {returnsZero : Bool}
    (performs :
      mount.driverCall dir name operation = some (after, returnsZero)) :
    MountSound after ∧ after.vnodes = mount.vnodes := by
  obtain ⟨inode, isInode, isAfter⟩ := Option.map_eq_some_iff.mp performs
  cases operation with
  | creat mode uid gid | mknod mode dev uid gid =>
    cases isAfter
    exact ⟨sound.ramfsCreate isInode (missing nofun) _, rfl⟩
  | mkdir mode uid gid =>
    cases isAfter
    exact ⟨sound.ramfsMkdir isInode (missing nofun) _, rfl⟩
  | unlink =>
    obtain rfl : (mount.ramfsUnlink dir inode name).1 = after :=
      congrArg Prod.fst isAfter
    refine ⟨sound.ramfsUnlink isInode name, ?_⟩
    unfold RamfsMount.ramfsUnlink
    split <;> rfl

theorem setVnode {vnode : Option CachedVnode}
    (agrees :
      ∀ cached, vnode = some cached →
        ∃ inode,
          mount.inodeTable ino = some inode ∧
            inode.mode &&& S_IFMT = cached.mode &&& S_IFMT ∧
            cached.size ≤ inode.size) :
    MountSound (mount.setVnode ino vnode) := by
  refine ⟨sound.numbered, fun other cached isCached => ?_, sound.bound⟩
  by_cases same : other = ino
  · subst same
    exact agrees cached ((if_pos rfl).symm.trans isCached)
  · exact sound.cached other cached ((if_neg same).symm.trans isCached)

variable {vnode : CachedVnode}

theorem changeVnode {after : CachedVnode}
    (isVnode : mount.vnodes ino = some vnode)
    (sameType : after.mode &&& S_IFMT = vnode.mode &&& S_IFMT)
    (sameSize : after.size = vnode.size) :
    MountSound (mount.setVnode ino (some after)) := by
  obtain ⟨inode, isInode, isType, within⟩ := sound.cached ino vnode isVnode
  refine sound.setVnode fun cached isCached => ?_
  cases isCached
  exact ⟨inode, isInode, isType.trans sameType.symm, sameSize ▸ within⟩

variable {next : RamfsMount}

theorem vnodeCache (caches : mount.vnodeCache ino = some next) :
    MountSound next := by
  unfold RamfsMount.vnodeCache at caches
  split at caches
  · cases caches
    exact sound
  split at caches
  · cases caches
    exact sound
  split at caches
  · cases caches
  next inode isInode =>
    cases caches
    refine sound.setVnode fun cached isCached => ?_
    cases isCached
    exact ⟨inode, isInode, rfl, Nat.le_refl inode.size⟩

variable {mp : Nat}

theorem cacheFound {lookups : List Lookup}
    (caches : RamfsMount.cacheFound mp lookups mount = some next) :
    MountSound next := by
  induction lookups generalizing mount with
  | nil =>
    cases caches
    exact sound
  | cons lookup lookups ih =>
    unfold RamfsMount.cacheFound at caches
    split at caches
    · split at caches
      · exact ih sound caches
      · obtain ⟨cached, isCached, later⟩ := Option.bind_eq_some_iff.mp caches
        exact ih (sound.vnodeCache isCached) later
    · exact ih sound caches

theorem binds_flushed (isInode : mount.inodeTable ino = some inode)
    (isVnode : mount.vnodes ino = some vnode)
    (keeps : mount.KeepsSize ino) (isDir : inode.IsDir) {other : Nat}
    (binds : inode.Binds name other) :
    (inode.flushed vnode).Binds name other := by
  obtain ⟨cached, isCached, -, within⟩ := sound.cached ino vnode isVnode
  cases isInode.symm.trans isCached
  exact binds.resize rfl within (keeps inode vnode isInode isVnode isDir)

theorem type_flushed (isInode : mount.inodeTable ino = some inode)
    (isVnode : mount.vnodes ino = some vnode) :
    (inode.flushed vnode).mode &&& S_IFMT = inode.mode &&& S_IFMT := by
  obtain ⟨cached, isCached, isType, -⟩ := sound.cached ino vnode isVnode
  cases isInode.symm.trans isCached
  exact isType.symm

theorem ramfsFlush (keeps : mount.KeepsSize ino)
    (flushes : mount.ramfsFlush ino = some next) : MountSound next := by
  unfold RamfsMount.ramfsFlush at flushes
  split at flushes
  next vnode inode isVnode isInode =>
    cases flushes
    refine sound.setInode isInode (sound.type_flushed isInode isVnode) ?_
      fun isDir _ _ _ binds =>
        sound.binds_flushed isInode isVnode keeps isDir binds
    intro cached isCached _
    cases isVnode.symm.trans isCached
    exact Nat.le_refl vnode.size
  · cases flushes

theorem removeInode (noVnode : mount.vnodes ino = none)
    (notDir : ∀ inode, mount.inodeTable ino = some inode → ¬ inode.IsDir) :
    MountSound (mount.setInode ino none) := by
  constructor
  · intro other outside
    by_cases same : other = ino
    · exact if_pos same
    · exact (if_neg same).trans (sound.numbered other outside)
  · intro other vnode isVnode
    obtain ⟨inode, isInode, agrees⟩ := sound.cached other vnode isVnode
    have isOther : other ≠ ino := by
      rintro rfl
      cases noVnode.symm.trans isVnode
    exact ⟨inode, (if_neg isOther).trans isInode, agrees⟩
  · intro dir name other isBound
    obtain ⟨inode, isInode, isDir, binds⟩ := sound.bound dir name other isBound
    have isOther : dir ≠ ino := by
      rintro rfl
      exact notDir inode isInode isDir
    exact ⟨inode, (if_neg isOther).trans isInode, isDir, binds⟩

theorem vnodeFree
    (keeps :
      ∀ vnode, mount.vnodes ino = some vnode → vnode.refcount = 0 →
        mount.KeepsSize ino ∧ mount.KeepsLink ino)
    (frees : mount.vnodeFree ino = some next) : MountSound next := by
  unfold RamfsMount.vnodeFree at frees
  split at frees
  next vnode inode isVnode isInode =>
    split at frees
    · cases frees
      exact sound
    next unused =>
      dsimp only at frees
      obtain ⟨keepsSize, keepsLink⟩ :=
        keeps vnode isVnode (Nat.eq_zero_of_not_pos unused)
      have dropped : MountSound (mount.setVnode ino none) :=
        sound.setVnode nofun
      have noVnode : (mount.setVnode ino none).vnodes ino = none := if_pos rfl
      split at frees
      next unlinked =>
        cases frees
        refine dropped.removeInode noVnode fun other isOther isDir => ?_
        exact keepsLink other vnode isOther isVnode isDir unlinked
      · cases frees
        refine dropped.setInode isInode (sound.type_flushed isInode isVnode)
          (fun cached isCached _ => ?_)
          fun isDir _ _ _ binds =>
            sound.binds_flushed isInode isVnode keepsSize isDir binds
        cases noVnode.symm.trans isCached
  · cases frees

theorem vnodeHold (holds : mount.vnodeHold ino = some next) :
    MountSound next := by
  obtain ⟨vnode, isVnode, rfl⟩ := Option.map_eq_some_iff.mp holds
  exact sound.changeVnode isVnode rfl rfl

theorem vnodeRel (releases : mount.vnodeRel ino = some next) :
    MountSound next ∧
      ∃ vnode,
        mount.vnodes ino = some vnode ∧ vnode.refcount ≠ 0 ∧
          next =
            mount.setVnode ino
              (some { vnode with refcount := vnode.refcount - 1 }) := by
  obtain ⟨vnode, isVnode, releases⟩ := Option.bind_eq_some_iff.mp releases
  split at releases
  · cases releases
  next isHeld =>
    cases releases
    exact ⟨sound.changeVnode isVnode rfl rfl, vnode, isVnode, isHeld, rfl⟩

theorem dropLink
    (notDir :
      ∀ vnode, mount.vnodes ino = some vnode → vnode.mode &&& S_IFMT ≠ S_IFDIR)
    {isDirectory : Bool} (drops : mount.dropLink ino isDirectory = some next) :
    MountSound next := by
  unfold RamfsMount.dropLink at drops
  split at drops
  · cases drops
  next vnode isVnode =>
    dsimp only at drops
    have changed : MountSound
          (mount.setVnode ino
            (some
              { vnode with
                nlink := (vnode.nlink + (nlinkMod - 1)) % nlinkMod })) :=
      sound.changeVnode isVnode rfl rfl
    have noDir {inode : RamfsInode}
        (isInode : mount.inodeTable ino = some inode) :
        ¬ inode.IsDir := by
      intro isDir
      obtain ⟨cached, isCached, isType, -⟩ := sound.cached ino vnode isVnode
      cases isInode.symm.trans isCached
      exact notDir vnode isVnode (isType.symm.trans isDir)
    split at drops
    · refine changed.vnodeFree (fun _ _ _ => ⟨?_, ?_⟩) drops
      · exact fun _ _ isInode _ isDir => absurd isDir (noDir isInode)
      · exact fun _ _ isInode _ isDir => absurd isDir (noDir isInode)
    · refine changed.ramfsFlush ?_ drops
      exact fun _ _ isInode _ isDir => absurd isDir (noDir isInode)

theorem withFiles (files : Heap RamfsFile) :
    MountSound { mount with files := files } :=
  ⟨sound.numbered, sound.cached, sound.bound⟩

variable {path : List Char}

theorem openFile {caller : Caller} {flags : Nat} {descriptor : Bool}
    (opens : mount.openFile mp caller path flags descriptor = some next) :
    MountSound next := by
  unfold RamfsMount.openFile at opens
  dsimp only at opens
  split at opens
  · cases opens
    exact sound
  split at opens
  · cases opens
    exact sound
  split at opens
  · cases opens
    exact sound
  · obtain ⟨held, isHeld, rfl⟩ := Option.map_eq_some_iff.mp opens
    exact (sound.vnodeHold isHeld).withFiles _

theorem closeFile {mp file : Nat}
    (keeps : KeepsEntries mp mount (.closeFile file))
    (closes : mount.closeFile file = some next) : MountSound next := by
  unfold RamfsMount.closeFile at closes
  split at closes
  · cases closes
  next closed isClosed =>
    split at closes
    · cases closes
      exact sound.withFiles _
    · obtain ⟨released, isReleased, frees⟩ := Option.bind_eq_some_iff.mp closes
      obtain ⟨stillSound, vnode, isVnode, isHeld, rfl⟩ :=
        (sound.withFiles _).vnodeRel isReleased
      refine stillSound.vnodeFree (fun other isOther unused => ?_) frees
      cases (if_pos rfl).symm.trans isOther
      have isLast : vnode.refcount = 1 := by
        have unused : vnode.refcount - 1 = 0 := unused
        omega
      obtain ⟨keepsSize, keepsLink⟩ :=
        keeps closed vnode isClosed isVnode isLast
      constructor
      · intro inode cached isInode isCached isDir
        cases (if_pos rfl).symm.trans isCached
        exact keepsSize inode vnode isInode isVnode isDir
      · intro inode cached isInode isCached isDir
        cases (if_pos rfl).symm.trans isCached
        exact keepsLink inode vnode isInode isVnode isDir

theorem sysChmod {mp mode : Nat} {caller : Caller}
    (keeps : KeepsEntries mp mount (.chmod caller path mode))
    (changes : mount.sysChmod mp caller path mode = some next) :
    MountSound next := by
  unfold RamfsMount.sysChmod at changes
  split at changes
  · cases changes
    exact sound
  next ino isTarget =>
    split at changes
    · cases changes
    next vnode isVnode =>
      have changed : MountSound
            (mount.setVnode ino
              (some
                { vnode with
                  mode := (vnode.mode &&& S_IFMT) ||| (mode &&& 0o777) })) :=
        sound.changeVnode isVnode (type_of_chmod vnode.mode mode) rfl
      refine changed.ramfsFlush ?_ changes
      intro inode cached isInode isCached isDir
      cases (if_pos rfl).symm.trans isCached
      exact keeps ino isTarget inode vnode isInode isVnode isDir

omit sound

theorem unlinks_file {ns : Namespace} {process : Process}
    {call : EntryCall} {directory vnode : Vnode}
    (performs : call.run ns process path = .performs directory name .unlink)
    (found : vnodeGet ns process true path = .ok vnode) :
    ns.isDir vnode = false := by
  cases call with
  | sysUnlink =>
    unfold EntryCall.run Vfs.sysUnlink at performs
    rw [found] at performs
    dsimp only at performs
    split at performs
    · cases performs
    split at performs
    · cases performs
    next notDir => exact Bool.eq_false_iff.mpr notDir
  | sysOpen flags mode =>
    unfold EntryCall.run Vfs.sysOpen at performs
    rw [found] at performs
    dsimp only at performs
    split at performs <;> cases performs
  | sysMknod mode dev =>
    unfold EntryCall.run Vfs.sysMknod at performs
    rw [found] at performs
    dsimp only at performs
    split at performs <;> cases performs
  | sysMkdir mode =>
    unfold EntryCall.run Vfs.sysMkdir at performs
    rw [found] at performs
    cases performs

theorem entry (sound : MountSound mount)
    {mp : Nat} {caller : Caller} {path : List Char} {call : EntryCall}
    {elsewhere : Bool}
    (keeps : KeepsEntries mp mount (.entry caller path call elsewhere))
    {next : RamfsMount}
    (returns : mount.entry mp caller path call elsewhere = some next) :
    MountSound next := by
  unfold RamfsMount.entry at returns
  split at returns
  · cases returns
  · cases returns
    exact sound
  · cases returns
    exact sound
  next directory name operation performs =>
    obtain ⟨⟨after, returnsZero⟩, isPerformed, finishes⟩ :=
      Option.bind_eq_some_iff.mp returns
    have performed : MountSound after ∧ after.vnodes = mount.vnodes := by
      split at isPerformed
      next isHere =>
        exact sound.driverCall
          (fun notUnlink => keeps _ _ _ performs notUnlink isHere)
          isPerformed
      · cases isPerformed
        exact ⟨sound, rfl⟩
    obtain ⟨stillSound, sameVnodes⟩ := performed
    dsimp only at finishes
    split at finishes
    next isUnlink =>
      obtain ⟨rfl, -⟩ := isUnlink
      unfold RamfsMount.finishUnlink at finishes
      split at finishes
      · cases finishes
      next vnode found =>
        have notDir := unlinks_file performs found
        split at finishes
        next isHere =>
          refine stillSound.dropLink (fun cached isCached isDir => ?_) finishes
          rw [sameVnodes] at isCached
          have isDirectory :
              (mount.view mp caller.around).isDir vnode = true := by
            unfold Namespace.isDir Namespace.fileType RamfsMount.view
            dsimp only
            rw [if_pos isHere, RamfsMount.attributes, isCached]
            exact beq_iff_eq.mpr isDir
          rw [notDir] at isDirectory
          cases isDirectory
        · cases finishes
          exact stillSound
    · cases finishes
      exact stillSound

theorem step (sound : MountSound mount) {call : MountCall}
    (keeps : KeepsEntries mp mount call)
    (called : MountStep mp mount call next) : MountSound next := by
  cases call with
  | walk caller path followlink =>
    exact sound.cacheFound called
  | entry caller path call elsewhere =>
    exact sound.entry keeps called
  | openFile caller path flags descriptor =>
    exact sound.openFile called
  | closeFile file =>
    exact sound.closeFile keeps called
  | chmod caller path mode =>
    exact sound.sysChmod keeps called
  | hold ino =>
    exact sound.vnodeHold called
  | release ino =>
    exact (sound.vnodeRel called).1

theorem mounted : MountSound .mounted := by
  refine ⟨fun ino outside => ?_, fun ino vnode isVnode => ?_, nofun⟩
  · have isOther : ino ≠ RAMFS_ROOT_INODE := by
      have outside : ino = 0 ∨ 1 < ino := outside
      unfold RAMFS_ROOT_INODE
      omega
    simp [RamfsMount.mounted, RamfsMount.setVnode, RamfsMount.ramfsPutEntry,
      RamfsMount.addLink, RamfsMount.modifyInode, RamfsMount.setInode, isOther]
  · unfold RamfsMount.mounted RamfsMount.setVnode at isVnode
    dsimp only at isVnode
    split at isVnode
    next isRoot =>
      obtain ⟨inode, isInode, rfl⟩ := Option.map_eq_some_iff.mp isVnode
      rw [isRoot]
      exact ⟨inode, isInode, rfl, Nat.le_refl inode.size⟩
    · cases isVnode

end MountSound

/-- The mount after calls, the last of which comes first. -/
def RamfsMount.after : List MountCall → RamfsMount
  | [] => .mounted
  | call :: earlier => (call.run 0 (after earlier)).getD .mounted

end Idylla.Ramfs
