import Idylla.Ramfs.VolumeSound

namespace Idylla.Ramfs

open Idylla.Lib

/-!
# Calls on a volume

What every call does to a volume: it changes neither the space nor which files
there are, or it writes to a file, or it clears the slot of one.  A call on a
name that is not that of a directory, and with a range that fits, is defined.
-/

/-- A name in a directory that stands for a file or for nothing. -/
def RamfsVolume.IsFileName (volume : RamfsVolume) (dir : Nat)
    (name : List Char) : Prop :=
  ∃ parent, volume.directory dir = some parent ∧
    ∀ num, parent.lookup name = some num →
      ∃ id inode, volume.fileAt num = some (id, inode)

/-- A descriptor of a file. -/
def RamfsVolume.OpenAs (volume : RamfsVolume) (id fd : Nat) : Prop :=
  ∃ file, volume.files.cells fd = some file ∧ file.inode = id

/--
The calls that clear the slot of a file: the unlink of its name while it is not
open, and the close of its last descriptor when it has no name.
-/
def ClearedBy (volume : RamfsVolume) (id : Nat) : VolumeCall → Prop
  | .sysUnlink dir name none =>
    volume.names dir name = some id ∧ ∀ fd, ¬ volume.OpenAs id fd
  | .sysClose fd =>
    ¬ volume.tree.Named id ∧ ∀ other, volume.OpenAs id other ↔ other = fd
  | _ => False

/-- The calls that neither write to a file nor take a reference away. -/
def VolumeCall.Keeps : VolumeCall → Prop
  | .sysWrite _ _ _ _ none => False
  | .sysClose _ => False
  | .sysUnlink _ _ none => False
  | _ => True

/-- What a call has written to a file that is open. -/
structure WritesFile
    (volume : RamfsVolume) (fd : Nat) (buf : List (BitVec 8)) (offset : Nat)
    (fresh : Memory (BitVec 8))
    (outcome : RamfsOutcome) : Prop where
  wrote : ∃ file inode written, volume.files.cells fd = some file ∧
      volume.fileAt file.ino = some (file.inode, inode) ∧
      ramfsWrite volume.space inode buf offset fresh = some written ∧
      outcome.result = written.result ∧
      outcome.volume.space = written.space ∧
      ∀ other,
        outcome.volume.sizeAt other =
          if other = file.ino then written.inode.size
          else volume.sizeAt other
  freed : outcome.volume.freed = volume.freed
  inodes : outcome.volume.inodes = volume.inodes

/-- What a call does to the space and to the slots of files. -/
inductive VolumeEffect
    (volume : RamfsVolume) : VolumeCall → RamfsOutcome → Prop where
  | quiet {call : VolumeCall} {outcome : RamfsOutcome}
      (isQuiet : Quiet volume outcome.volume)
      (notWritten :
        ∀ fd buf offset fresh, call = .sysWrite fd buf offset fresh none →
          volume.files.cells fd = none)
      (notCleared : ∀ id, ¬ ClearedBy volume id call) :
      VolumeEffect volume call outcome
  | writes {fd offset : Nat} {buf : List (BitVec 8)} {fresh : Memory (BitVec 8)}
      {outcome : RamfsOutcome}
      (writes : WritesFile volume fd buf offset fresh outcome) :
      VolumeEffect volume (.sysWrite fd buf offset fresh none) outcome
  | clears {num id : Nat} {call : VolumeCall} {outcome : RamfsOutcome}
      (clears : Clears volume num id outcome.volume)
      (clearedBy : ClearedBy volume id call) :
      VolumeEffect volume call outcome

/-- A call returns and keeps what the calls keep. -/
def Completes (volume : RamfsVolume) (call : VolumeCall) : Prop :=
  ∃ outcome, call.run volume = some outcome ∧
    VolumeSound none outcome.volume ∧ VolumeEffect volume call outcome

section Quiet

variable {volume middle after : RamfsVolume} {num id : Nat}

theorem Quiet.refl : Quiet volume volume :=
  ⟨rfl, rfl, Nat.le_refl _, fun _ => rfl⟩

theorem Quiet.trans (first : Quiet volume middle)
    (second : Quiet middle after) : Quiet volume after :=
  ⟨second.freed.trans first.freed, second.space.trans first.space,
    Nat.le_trans first.inodes second.inodes,
    fun num => (second.sizes num).trans (first.sizes num)⟩

theorem Clears.of_quiet (quiet : Quiet volume middle)
    (isFile : ∃ inode, volume.fileAt num = some (id, inode))
    (clears : Clears middle num id after) : Clears volume num id after := by
  refine ⟨isFile, ?_, clears.space.trans quiet.space,
    Nat.le_trans quiet.inodes clears.inodes, fun other => ?_⟩
  · rw [clears.freed, quiet.freed]
  · rw [clears.sizes, quiet.sizes]

theorem Quiet.effect {call : VolumeCall} {outcome : RamfsOutcome}
    (quiet : Quiet volume outcome.volume) (keeps : call.Keeps) :
    VolumeEffect volume call outcome := by
  refine .quiet quiet ?_ ?_
  · rintro fd buf offset fresh rfl
    exact keeps.elim
  · rintro id clearedBy
    cases call with
    | sysClose fd =>
      exact keeps
    | sysUnlink dir name refused =>
      cases refused with
      | none =>
        exact keeps
      | some err =>
        exact clearedBy
    | _ =>
      exact clearedBy

end Quiet

/-- A call has found a file by its name and holds its vnode. -/
structure Found
    (volume : RamfsVolume) (dir : Nat) (name : List Char) (num id : Nat)
    (held : RamfsVolume) : Prop where
  get : volume.vnodeGet dir name = some (.ok (held, num))
  sound : VolumeSound (some num) held
  same : ∃ vnodes serials,
      held = { volume with vnodes := vnodes, serials := serials }
  isDir :
    ∃ parent, volume.directory dir = some parent ∧ parent.lookup name = some num
  isFile : ∃ inode, volume.fileAt num = some (id, inode)
  isName : volume.names dir name = some id

section Walks

variable {volume held : RamfsVolume} {dir num id : Nat}
  {name : List Char} {inode : FileInode}

theorem Found.quiet (found : Found volume dir name num id held) :
    Quiet volume held := by
  obtain ⟨vnodes, serials, rfl⟩ := found.same
  exact ⟨rfl, rfl, Nat.le_refl _, fun _ => rfl⟩

theorem found_or_missing (sound : VolumeSound none volume)
    (isFileName : volume.IsFileName dir name) :
    (∃ parent, volume.directory dir = some parent ∧ parent.lookup name = none ∧
      volume.vnodeGet dir name = some (.error .ENOENT)) ∨
    ∃ num id held, Found volume dir name num id held := by
  obtain ⟨parent, isDir, files⟩ := isFileName
  cases isFound : parent.lookup name with
  | none =>
    refine .inl ⟨parent, isDir, isFound, ?_⟩
    unfold RamfsVolume.vnodeGet
    rw [isDir, Option.bind_some, isFound]
  | some num =>
    obtain ⟨id, inode, isFile⟩ := files num isFound
    have isName := sound.names_of_lookup isDir isFound isFile
    have inside : num ≤ volume.inodes :=
      (sound.tree.numbers (tree_slots_file.mpr ⟨inode, isFile⟩)).2
    cases isCached : volume.vnodes num with
    | some vnode =>
      refine .inr ⟨num, id, _, ?_, sound.hold isCached,
        ⟨_, _, rfl⟩, ⟨parent, isDir, isFound⟩, ⟨inode, isFile⟩,
        isName⟩
      unfold RamfsVolume.vnodeGet
      rw [isDir, Option.bind_some, isFound]
      dsimp only
      rw [isCached]
    | none =>
      refine .inr ⟨num, id, _, ?_, sound.cache isCached isFile,
        ⟨_, _, rfl⟩, ⟨parent, isDir, isFound⟩, ⟨inode, isFile⟩,
        isName⟩
      unfold RamfsVolume.vnodeGet
      rw [isDir, Option.bind_some, isFound]
      dsimp only
      rw [isCached]
      rw [if_neg (Nat.not_lt.mpr inside), fileAt_eq_some.mp isFile]

theorem isFileName_of_get (sound : VolumeSound none volume)
    {got : Except Errno (RamfsVolume × Nat)}
    (gets : volume.vnodeGet dir name = some got) :
    volume.IsFileName dir name := by
  obtain ⟨parent, isDir, gets⟩ := Option.bind_eq_some_iff.mp gets
  refine ⟨parent, isDir, fun num isFound => ?_⟩
  rw [isFound] at gets
  dsimp only at gets
  split at gets
  next vnode isCached =>
    obtain ⟨id, inode, isFile, -⟩ := sound.cached isCached
    exact ⟨id, inode, isFile⟩
  · split at gets
    next outside =>
      have isParent := tree_slots_directory.mpr isDir
      rcases sound.tree.entries isParent isFound with
        ⟨inode, isSlot⟩ | ⟨id, isSlot, -⟩
      · exact absurd (sound.tree.numbers isSlot).2 (Nat.not_le.mpr outside)
      · exact absurd (sound.tree.numbers isSlot).2 (Nat.not_le.mpr outside)
    · split at gets
      next id inode isSlot => exact ⟨id, inode, fileAt_eq_some.mpr isSlot⟩
      · cases gets

theorem release_sound (sound : VolumeSound (some num) volume)
    (isFile : volume.fileAt num = some (id, inode))
    (isNamed : volume.tree.Named id) (result : Except Errno Nat) :
    ∃ after,
      volume.release num result = some { volume := after, result := result } ∧
      VolumeSound none after ∧ Quiet volume after := by
  obtain ⟨vnode, isCached⟩ := sound.cached_of_held
  obtain ⟨-, here⟩ := sound.cachedFile isCached isFile
  have hasLinks : vnode.nlink ≠ 0 := by
    rw [here.nlink_of_named isNamed]
    exact Nat.one_ne_zero
  obtain ⟨releases, soundAfter⟩ := sound.vnodeRel isCached (.inl hasLinks)
  refine ⟨_, ?_, soundAfter, rfl, rfl, Nat.le_refl _, fun _ => rfl⟩
  unfold RamfsVolume.release
  rw [releases, Option.map_some]

theorem openVnode_sound (sound : VolumeSound (some num) volume)
    (isFile : volume.fileAt num = some (id, inode))
    (isNamed : volume.tree.Named id) (granted hasSlot : Bool) :
    ∃ outcome, volume.openVnode num granted hasSlot = some outcome ∧
      VolumeSound none outcome.volume ∧ Quiet volume outcome.volume := by
  unfold RamfsVolume.openVnode
  split
  · obtain ⟨after, releases, soundAfter, quiet⟩ :=
      release_sound sound isFile isNamed (.error .EACCES)
    exact ⟨_, releases, soundAfter, quiet⟩
  · split
    · obtain ⟨after, releases, soundAfter, quiet⟩ :=
        release_sound sound isFile isNamed (.error .EMFILE)
      exact ⟨_, releases, soundAfter, quiet⟩
    · obtain ⟨vnode, isCached⟩ := sound.cached_of_held
      rw [isCached, Option.map_some]
      exact ⟨_, rfl, sound.opening isCached, rfl, rfl, Nat.le_refl _,
        fun _ => rfl⟩

theorem Found.file (found : Found volume dir name num id held) :
    (∃ inode, held.fileAt num = some (id, inode)) ∧ held.tree.Named id := by
  obtain ⟨vnodes, serials, rfl⟩ := found.same
  exact ⟨found.isFile, dir, name, found.isName⟩

theorem Found.cached (found : Found volume dir name num id held) :
    ∃ vnode inode, held.vnodes num = some vnode ∧
      held.fileAt num = some (id, inode) ∧ inode.Fits ∧
      VnodeSound held.tree.Named 1 (held.OpensAt num) id inode vnode := by
  obtain ⟨⟨inode, isFile⟩, -⟩ := found.file
  obtain ⟨vnode, isCached⟩ := found.sound.cached_of_held
  obtain ⟨block, here⟩ := found.sound.cachedFile isCached isFile
  rw [holds_self] at here
  exact ⟨vnode, inode, isCached, isFile, block, here⟩

theorem Found.release (found : Found volume dir name num id held)
    (result : Except Errno Nat) :
    ∃ after,
      held.release num result = some { volume := after, result := result } ∧
      VolumeSound none after ∧ Quiet volume after := by
  obtain ⟨⟨inode, isFile⟩, isNamed⟩ := found.file
  obtain ⟨after, releases, soundAfter, quiet⟩ :=
    release_sound found.sound isFile isNamed result
  exact ⟨after, releases, soundAfter, found.quiet.trans quiet⟩

theorem Found.openVnode (found : Found volume dir name num id held)
    (granted hasSlot : Bool) :
    ∃ outcome, held.openVnode num granted hasSlot = some outcome ∧
      VolumeSound none outcome.volume ∧ Quiet volume outcome.volume := by
  obtain ⟨⟨inode, isFile⟩, isNamed⟩ := found.file
  obtain ⟨outcome, opens, soundAfter, quiet⟩ :=
    openVnode_sound found.sound isFile isNamed granted hasSlot
  exact ⟨outcome, opens, soundAfter, found.quiet.trans quiet⟩

end Walks

section Calls

variable {volume : RamfsVolume} {dir : Nat} {name : List Char}

theorem ramfsCreate_sound (sound : VolumeSound none volume)
    {parent : RamfsInode} {inode : FileInode}
    (isDir : volume.directory dir = some parent)
    (missing : parent.lookup name = none) (links : inode.nlink = 0)
    (isEmpty : inode.size = 0) :
    VolumeSound none (volume.ramfsCreate dir parent name inode) ∧
      Quiet volume (volume.ramfsCreate dir parent name inode) ∧
      ∃ num id held,
        Found (volume.ramfsCreate dir parent name inode) dir name num id
          held := by
  have block : inode.Fits := ⟨by omega, by omega, by omega⟩
  have soundAfter := sound.create isDir missing links block
  have files := @fileAt_ramfsCreate volume inode dir parent name sound.tree
    isDir
  obtain ⟨positive, isFree⟩ := freshNumber_free sound.tree
  have noFile : volume.fileAt volume.freshNumber = none := by
    unfold RamfsVolume.fileAt
    rw [isFree, Option.bind_none]
  have distinct := sound.tree.directories (tree_slots_directory.mpr isDir)
  have lookups := @RamfsInode.Distinct.lookup_putEntry parent name
    volume.freshNumber distinct (Nat.ne_of_gt positive) missing
  have isParent : (volume.ramfsCreate dir parent name inode).directory dir =
        some
          (parent.putEntry { name := name, inode := volume.freshNumber }) := by
    unfold RamfsVolume.directory
    have isSlot : (volume.ramfsCreate dir parent name inode).inodeTable dir =
          some
            (.directory
              (parent.putEntry
                { name := name, inode := volume.freshNumber })) :=
      if_pos rfl
    rw [isSlot]
  refine ⟨soundAfter, ⟨rfl, rfl, Nat.le_max_left _ _, fun num => ?_⟩, ?_⟩
  · unfold RamfsVolume.sizeAt
    rw [files]
    split
    next same =>
      rw [same, noFile]
      exact isEmpty
    · rfl
  · have isFileName :
        (volume.ramfsCreate dir parent name inode).IsFileName dir name := by
      refine ⟨_, isParent, fun num isFound => ?_⟩
      rw [lookups, if_pos rfl] at isFound
      cases isFound
      exact ⟨_, _, (files _).trans (if_pos rfl)⟩
    rcases found_or_missing soundAfter isFileName with
      ⟨other, isOther, isMissing, -⟩ | found
    · rw [isParent] at isOther
      cases isOther
      rw [lookups, if_pos rfl] at isMissing
      cases isMissing
    · exact found

section

variable (sound : VolumeSound none volume)
  (isFileName : volume.IsFileName dir name)

include sound isFileName

theorem sysStat_completes :
    Completes volume (.sysStat dir name) := by
  unfold Completes VolumeCall.run RamfsVolume.sysStat
  dsimp only
  rcases found_or_missing sound isFileName with
    ⟨parent, -, -, gets⟩ | ⟨num, id, held, found⟩
  · rw [gets, Option.bind_some]
    exact ⟨_, rfl, sound, Quiet.effect .refl trivial⟩
  · rw [found.get, Option.bind_some]
    obtain ⟨after, releases, soundAfter, quiet⟩ := found.release (.ok 0)
    exact ⟨_, releases, soundAfter, quiet.effect trivial⟩

theorem sysOpen_completes
    (creates exclusive : Bool) (mode : Nat) (refused : Option Errno)
    (granted hasSlot : Bool) :
    Completes volume
      (.sysOpen dir name creates exclusive mode refused granted hasSlot) := by
  unfold Completes VolumeCall.run RamfsVolume.sysOpen
  dsimp only
  rcases found_or_missing sound isFileName with
    ⟨parent, isDir, missing, gets⟩ | ⟨num, id, held, found⟩
  · rw [gets, Option.bind_some]
    dsimp only
    split
    · cases refused with
      | some err =>
        exact ⟨_, rfl, sound, Quiet.effect .refl trivial⟩
      | none =>
        rw [isDir, Option.bind_some]
        obtain ⟨-, quiet, num, id, held, found⟩ :=
          @ramfsCreate_sound _ dir name sound parent
            (FileInode.new (S_IFREG ||| mode &&& 0o777) 0) isDir missing
            rfl rfl
        rw [found.get, Option.bind_some]
        obtain ⟨outcome, opens, soundAfter, quietOpen⟩ :=
          found.openVnode granted hasSlot
        exact ⟨_, opens, soundAfter, (quiet.trans quietOpen).effect trivial⟩
    · exact ⟨_, rfl, sound, Quiet.effect .refl trivial⟩
  · rw [found.get, Option.bind_some]
    dsimp only
    split
    · obtain ⟨after, releases, soundAfter, quiet⟩ :=
        found.release (.error .EEXIST)
      exact ⟨_, releases, soundAfter, quiet.effect trivial⟩
    · obtain ⟨outcome, opens, soundAfter, quiet⟩ :=
        found.openVnode granted hasSlot
      exact ⟨_, opens, soundAfter, quiet.effect trivial⟩

theorem sysMknod_completes (mode rdev uid gid : Nat) (refused : Option Errno) :
    Completes volume (.sysMknod dir name mode rdev uid gid refused) := by
  unfold Completes VolumeCall.run RamfsVolume.sysMknod
  dsimp only
  rcases found_or_missing sound isFileName with
    ⟨parent, isDir, missing, gets⟩ | ⟨num, id, held, found⟩
  · rw [gets, Option.bind_some]
    cases refused with
    | some err =>
      exact ⟨_, rfl, sound, Quiet.effect .refl trivial⟩
    | none =>
      rw [isDir, Option.map_some]
      obtain ⟨soundAfter, quiet, -⟩ :=
        @ramfsCreate_sound _ dir name sound parent
          { FileInode.new mode rdev with uid := uid, gid := gid } isDir
          missing rfl rfl
      exact ⟨_, rfl, soundAfter, quiet.effect trivial⟩
  · rw [found.get, Option.bind_some]
    obtain ⟨after, releases, soundAfter, quiet⟩ :=
      found.release (.error .EEXIST)
    exact ⟨_, releases, soundAfter, quiet.effect trivial⟩

theorem sysMkdir_completes (mode uid gid : Nat) (refused : Option Errno) :
    Completes volume (.sysMkdir dir name mode uid gid refused) := by
  unfold Completes VolumeCall.run RamfsVolume.sysMkdir
  dsimp only
  rcases found_or_missing sound isFileName with
    ⟨parent, isDir, missing, gets⟩ | ⟨num, id, held, found⟩
  · rw [gets, Option.bind_some]
    cases refused with
    | some err =>
      exact ⟨_, rfl, sound, Quiet.effect .refl trivial⟩
    | none =>
      rw [isDir, Option.map_some]
      have quiet :
          Quiet volume (volume.ramfsMkdir dir parent name mode uid gid) := by
        refine ⟨rfl, rfl, Nat.le_max_left _ _, fun num => ?_⟩
        unfold RamfsVolume.sizeAt
        rw [fileAt_ramfsMkdir sound.tree isDir]
      exact ⟨_, rfl, sound.mkdir isDir missing, quiet.effect trivial⟩
  · rw [found.get, Option.bind_some]
    obtain ⟨after, releases, soundAfter, quiet⟩ :=
      found.release (.error .EEXIST)
    exact ⟨_, releases, soundAfter, quiet.effect trivial⟩

end

theorem ramfsFlush_sound {held : Option Nat} {num id : Nat} {inode : FileInode}
    {vnode flushed : FileVnode} (sound : VolumeSound held volume)
    (isCached : volume.vnodes num = some vnode)
    (isFile : volume.fileAt num = some (id, inode))
    (isInode : flushed.inode = vnode.inode)
    (isSize : flushed.size = vnode.size) :
    ∃ after, volume.ramfsFlush num flushed = some after ∧
      VolumeSound held after ∧ Quiet volume after ∧
      (∃ inode, after.fileAt num = some (id, inode)) ∧
      after.tree = volume.tree := by
  obtain ⟨block, here⟩ := sound.cachedFile isCached isFile
  have isId : flushed.inode = id := isInode.trans here.isInode
  have sameSize : flushed.size = inode.size := isSize.trans here.isSize
  have kept :
      (volume.setSlot num
        (some (.file id (inode.flushed flushed)))).setVnode num (some vnode) =
        volume.setSlot num (some (.file id (inode.flushed flushed))) := by
    unfold RamfsVolume.setVnode
    congr 1
    funext other
    split
    next same =>
      rw [same]
      exact isCached.symm
    · rfl
  have edited :=
    @VolumeSound.edit volume held num id inode vnode sound isCached isFile
      (inode.flushed flushed) vnode volume.space
      (block.congr sameSize rfl) rfl rfl rfl rfl isSize.symm
  refine ⟨volume.setSlot num (some (.file id (inode.flushed flushed))), ?_,
    kept ▸ edited, ⟨rfl, rfl, Nat.le_refl _, fun other => ?_⟩,
    ⟨inode.flushed flushed, ?_⟩, tree_setSlot_file isFile _⟩
  · unfold RamfsVolume.ramfsFlush
    rw [deref_eq isFile isId, Option.map_some, isId]
  · rw [sizeAt_setSlot]
    split
    next same =>
      unfold RamfsVolume.sizeAt
      rw [same, isFile]
      exact sameSize
    · rfl
  · rw [fileAt_setSlot, if_pos rfl]
    rfl

theorem sysChmod_completes
    (sound : VolumeSound none volume) (isFileName : volume.IsFileName dir name)
    (mode : Nat) (refused : Option Errno) :
    Completes volume (.sysChmod dir name mode refused) := by
  unfold Completes VolumeCall.run RamfsVolume.sysChmod
  dsimp only
  rcases found_or_missing sound isFileName with
    ⟨parent, -, -, gets⟩ | ⟨num, id, held, found⟩
  · rw [gets, Option.bind_some]
    exact ⟨_, rfl, sound, Quiet.effect .refl trivial⟩
  · rw [found.get, Option.bind_some]
    dsimp only
    cases refused with
    | some err =>
      obtain ⟨after, releases, soundAfter, quiet⟩ := found.release (.error err)
      exact ⟨_, releases, soundAfter, quiet.effect trivial⟩
    | none =>
      obtain ⟨vnode, inode, isCached, isFile, block, here⟩ := found.cached
      have isNamed := found.file.2
      rw [isCached, Option.bind_some]
      generalize isChanged :
        { vnode with
          mode := vnode.mode &&& Vfs.S_IFMT ||| mode &&& 0o777 } = changed
      have changedSound :
          VolumeSound (some num) (held.setVnode num (some changed)) := by
        refine found.sound.updateVnode isFile block (fun _ _ => rfl) ?_
        rw [holds_self, ← isChanged]
        exact here.edit rfl rfl rfl rfl here.isSize
      obtain ⟨flushed, flushes, soundFlushed, quietFlushed,
          ⟨inodeAfter, isAfter⟩, tree⟩ :=
        @ramfsFlush_sound _ _ num id inode changed changed changedSound
          (if_pos rfl) isFile rfl rfl
      rw [flushes, Option.bind_some]
      have stillNamed : flushed.tree.Named id := by
        rw [tree]
        exact isNamed
      obtain ⟨after, releases, soundAfter, quiet⟩ :=
        release_sound soundFlushed isAfter stillNamed (.ok 0)
      have quietChanged : Quiet held (held.setVnode num (some changed)) :=
        ⟨rfl, rfl, Nat.le_refl _, fun _ => rfl⟩
      refine ⟨_, releases, soundAfter, Quiet.effect ?_ trivial⟩
      exact found.quiet.trans (quietChanged.trans (quietFlushed.trans quiet))

variable {fd : Nat}

theorem openFile_sound (sound : VolumeSound none volume) {file : OpenedFile}
    (isOpen : volume.files.cells fd = some file) :
    ∃ vnode inode, volume.vnodes file.ino = some vnode ∧
      volume.fileVnode file = some vnode ∧
      vnode.inode = file.inode ∧
      volume.fileAt file.ino = some (file.inode, inode) ∧
      volume.deref file.ino vnode = some inode ∧
      vnode.size = inode.size ∧ inode.Fits := by
  obtain ⟨vnode, isCached⟩ := sound.cached_of_open isOpen
  obtain ⟨id, inode, isFile, block, here⟩ := sound.cached isCached
  obtain ⟨isVnode, isId⟩ := here.opened ⟨isOpen, rfl⟩
  refine ⟨vnode, inode, isCached, ?_, here.isInode.trans isId.symm, ?_,
    deref_eq isFile here.isInode, here.isSize, block⟩
  · unfold RamfsVolume.fileVnode
    rw [isCached, Option.filter_some, isVnode, beq_self_eq_true]
    rfl
  · rw [isFile, isId]

variable {inode : FileInode}

theorem opensAt_of_openAs (sound : VolumeSound none volume) {num id : Nat}
    (isFile : volume.fileAt num = some (id, inode))
    (isOpen : volume.OpenAs id fd) : ∃ file, volume.OpensAt num fd file := by
  obtain ⟨file, isCell, rfl⟩ := isOpen
  obtain ⟨-, opened, -, -, -, isOther, -⟩ := openFile_sound sound isCell
  have isSlot := tree_slots_file.mpr ⟨inode, isFile⟩
  have isOtherSlot := tree_slots_file.mpr ⟨opened, isOther⟩
  exact ⟨file, isCell, sound.tree.slotOnce isSlot isOtherSlot⟩

variable {offset : Nat}

theorem toOff_le_toSize (number : Int) : toOff number ≤ toSize number := by
  unfold toOff toSize
  rw [Int.bmod_def]
  split <;> omega

variable {buf : List (BitVec 8)}

theorem ramfsWrite_fits {space : RamfsSpace}
    {fresh : Memory (BitVec 8)} {written : RamfsWritten} (block : inode.Fits)
    (wrote : ramfsWrite space inode buf offset fresh = some written) :
    written.inode.Fits ∧
      written.vnodeSize.getD inode.size = written.inode.size := by
  unfold ramfsWrite at wrote
  dsimp only at wrote
  split at wrote
  · split at wrote
    · obtain rfl := Option.some.inj wrote
      exact ⟨block, rfl⟩
    · obtain ⟨stored, isStored, rfl⟩ := Option.map_eq_some_iff.mp wrote
      obtain ⟨-, size, length, -⟩ := FileInode.store_some isStored
      refine ⟨?_, rfl⟩
      generalize toLoff (offset + buf.length : Nat) = fileEnd at size length
      refine ⟨?_, ?_, ?_⟩
      · rw [size]
        exact le_toOff fileEnd
      · rw [size]
        exact toOff_lt fileEnd
      · rw [size, length]
        exact toOff_le_toSize fileEnd
  · obtain ⟨stored, isStored, rfl⟩ := Option.map_eq_some_iff.mp wrote
    obtain ⟨-, size, length, -⟩ := FileInode.store_some isStored
    exact ⟨block.congr size length, size.symm⟩

theorem sysWrite_completes (sound : VolumeSound none volume)
    {fresh : Memory (BitVec 8)} {refused : Option Errno}
    {outcome : RamfsOutcome}
    (runs : volume.sysWrite fd buf offset fresh refused = some outcome) :
    VolumeSound none outcome.volume ∧
      VolumeEffect volume (.sysWrite fd buf offset fresh refused) outcome := by
  unfold RamfsVolume.sysWrite at runs
  cases isOpen : volume.files.cells fd with
  | none =>
    rw [isOpen] at runs
    cases runs
    refine ⟨sound, .quiet .refl ?_ fun _ impossible => impossible⟩
    intro other _ _ _ isWrite
    cases isWrite
    exact isOpen
  | some file =>
    rw [isOpen] at runs
    cases refused with
    | some err =>
      cases runs
      exact ⟨sound, Quiet.effect .refl trivial⟩
    | none =>
      obtain ⟨vnode, inode, isCached, isVnode, isInode, isFile, isData,
        isSize, block⟩ := openFile_sound sound isOpen
      dsimp only at runs
      rw [isVnode, Option.bind_some, isData, Option.bind_some] at runs
      obtain ⟨written, wrote, rfl⟩ := Option.map_eq_some_iff.mp runs
      obtain ⟨blockAfter, sizeAfter⟩ := ramfsWrite_fits block wrote
      rw [← isSize] at sizeAfter
      rw [isInode]
      constructor
      · exact sound.edit isCached isFile blockAfter isInode.symm rfl rfl
          rfl sizeAfter
      · refine .writes ⟨⟨file, inode, written, isOpen, isFile, wrote,
          rfl, rfl, fun other => ?_⟩, rfl, rfl⟩
        exact @sizeAt_setSlot { volume with space := written.space }
          file.ino (some (.file file.inode written.inode)) other

theorem sysClose_completes (sound : VolumeSound none volume) (fd : Nat) :
    Completes volume (.sysClose fd) := by
  unfold Completes VolumeCall.run RamfsVolume.sysClose
  dsimp only
  cases isOpen : volume.files.cells fd with
  | none =>
    refine ⟨_, rfl, sound, .quiet .refl (by simp) ?_⟩
    rintro id ⟨-, only⟩
    obtain ⟨file, isCell, -⟩ := (only fd).mpr rfl
    rw [isOpen] at isCell
    cases isCell
  | some file =>
    obtain ⟨vnode, inode, isCached, isVnode, isInode, isFile, -, -, -⟩ :=
      openFile_sound sound isOpen
    obtain ⟨-, here⟩ := sound.cachedFile isCached isFile
    obtain ⟨released, done, releases, frees, soundAfter, effect⟩ :=
      (sound.closing isOpen).drop isCached
    dsimp only
    rw [isVnode, Option.bind_some, releases, Option.bind_some, frees,
      Option.map_some]
    have quiet : Quiet volume { volume with files := volume.files.free fd } :=
      ⟨rfl, rfl, Nat.le_refl _, fun _ => rfl⟩
    refine ⟨_, rfl, soundAfter, ?_⟩
    rcases effect with ⟨quietAfter, used⟩ | ⟨noLinks, unopened, clears⟩
    · refine .quiet (quiet.trans quietAfter) (by simp) ?_
      rintro id ⟨unnamed, only⟩
      obtain ⟨also, isCell, isId⟩ := (only fd).mpr rfl
      rw [isOpen] at isCell
      cases isCell
      rcases used with hasLinks | ⟨other, another, isStillOpen⟩
      · rw [← isId] at unnamed
        exact unnamed (here.named_of_links hasLinks).2
      · have differs : other ≠ fd := by
          rintro rfl
          have isFreed := isStillOpen.1
          rw [Heap.cells_free_same] at isFreed
          cases isFreed
        have isOther := isStillOpen.1
        rw [Heap.cells_free_of_ne differs] at isOther
        have sameInode := (here.opened ⟨isOther, isStillOpen.2⟩).2
        exact differs ((only other).mp ⟨another, isOther, sameInode.trans isId⟩)
    · rw [isInode] at clears
      refine .clears (clears.of_quiet quiet ⟨inode, isFile⟩)
        ⟨here.unnamed_of_no_links noLinks, fun other => ⟨fun isOther => ?_, ?_⟩⟩
      · obtain ⟨also, isCell, isNumber⟩ :=
          opensAt_of_openAs sound isFile isOther
        refine Decidable.byContradiction fun differs => ?_
        refine unopened other also ⟨?_, isNumber⟩
        rw [← isCell]
        exact Heap.cells_free_of_ne differs
      · rintro rfl
        exact ⟨file, isOpen, rfl⟩

theorem unlinked_stays {num id : Nat} {vnode : FileVnode}
    (sound : VolumeSound (some num) volume)
    (isCached : volume.vnodes num = some vnode)
    (isFile : volume.fileAt num = some (id, inode))
    (isShared : 1 < vnode.refcount) :
    ∃ released done, volume.vnodeRel num = some released ∧
      released.ramfsFlush num vnode = some done ∧
      VolumeSound none done ∧ Quiet volume done := by
  obtain ⟨releases, soundReleased⟩ := sound.vnodeRel isCached (.inr isShared)
  obtain ⟨done, flushes, soundDone, quietDone, -⟩ :=
    @ramfsFlush_sound _ none num id inode _ vnode soundReleased
      (if_pos rfl) isFile rfl rfl
  have quiet : Quiet volume
        (volume.setVnode num
          (some { vnode with refcount := vnode.refcount - 1 })) :=
    ⟨rfl, rfl, Nat.le_refl _, fun _ => rfl⟩
  exact ⟨_, done, releases, flushes, soundDone, quiet.trans quietDone⟩

theorem sysUnlink_completes
    (sound : VolumeSound none volume) (isFileName : volume.IsFileName dir name)
    (refused : Option Errno) :
    Completes volume (.sysUnlink dir name refused) := by
  unfold Completes VolumeCall.run RamfsVolume.sysUnlink
  dsimp only
  rcases found_or_missing sound isFileName with
    ⟨parent, isDir, missing, gets⟩ | ⟨num, id, held, found⟩
  · rw [gets, Option.bind_some]
    refine ⟨_, rfl, sound, .quiet .refl (by simp) fun id clearedBy => ?_⟩
    cases refused with
    | some err =>
      exact clearedBy
    | none =>
      have isName := clearedBy.1
      have noName :=
        sound.tree.names_eq_none (tree_slots_directory.mpr isDir) missing
      exact absurd (noName.symm.trans isName) (by simp)
  · rw [found.get, Option.bind_some]
    dsimp only
    cases refused with
    | some err =>
      obtain ⟨after, releases, soundAfter, quiet⟩ := found.release (.error err)
      exact ⟨_, releases, soundAfter, quiet.effect trivial⟩
    | none =>
      obtain ⟨parent, isParent, isFound⟩ := found.isDir
      obtain ⟨vnode, inode, isCached, isFile, -, here⟩ := found.cached
      have isDir : held.directory dir = some parent := by
        obtain ⟨vnodes, serials, rfl⟩ := found.same
        exact isParent
      obtain ⟨after, unlinks, noLinks, soundUnlinked⟩ :=
        found.sound.unname isDir isFound isFile isCached
      rw [isDir, Option.bind_some, unlinks]
      dsimp only
      generalize isUnlinked :
        (held.setSlot dir (some (.directory after))).setName dir name
          none = unlinked at soundUnlinked
      have vnodes : unlinked.vnodes num = some vnode := by
        rw [← isUnlinked]
        exact isCached
      rw [vnodes, Option.bind_some, noLinks]
      have isStillFile (other : Nat) :
          unlinked.fileAt other = held.fileAt other := by
        rw [← isUnlinked]
        exact fileAt_setDirectory isDir other
      have quietUnlinked : Quiet held
            (unlinked.setVnode num (some { vnode with nlink := 0 })) := by
        rw [← isUnlinked]
        refine ⟨rfl, rfl, Nat.le_refl _, fun other => ?_⟩
        exact congrArg (fun file => file.elim 0 fun file => file.2.size)
          (fileAt_setDirectory isDir other)
      have quiet := found.quiet.trans quietUnlinked
      have notCleared (isStillOpen : ∃ fd file, held.OpensAt num fd file)
          (other : Nat) :
          ¬ ClearedBy volume other (.sysUnlink dir name none) := by
        rintro ⟨isName, unopened⟩
        obtain ⟨fd, file, isOpen⟩ := isStillOpen
        rw [found.isName] at isName
        cases isName
        refine unopened fd ⟨file, ?_, (here.opened isOpen).2⟩
        obtain ⟨cache, serials, rfl⟩ := found.same
        exact isOpen.1
      by_cases isLast : vnode.refcount = 1
      · obtain ⟨released, done, releases, frees, soundDone, effect⟩ :=
          soundUnlinked.drop (if_pos rfl)
        rw [releases, Option.bind_some, if_pos ⟨rfl, isLast⟩, frees,
          Option.map_some]
        refine ⟨_, rfl, soundDone, ?_⟩
        rcases effect with ⟨quietDone, used⟩ | ⟨-, unopened, clears⟩
        · refine .quiet (quiet.trans quietDone) (by simp) ?_
          refine notCleared ?_
          rw [← isUnlinked] at used
          exact used.resolve_left (absurd rfl)
        · obtain rfl : vnode.inode = id := here.isInode
          refine .clears (clears.of_quiet quiet found.isFile)
            ⟨found.isName, fun fd isOpen => ?_⟩
          obtain ⟨inode, isFile⟩ := found.isFile
          obtain ⟨file, opens⟩ := opensAt_of_openAs sound isFile isOpen
          obtain ⟨cache, serials, rfl⟩ := found.same
          refine unopened fd file ?_
          rw [← isUnlinked]
          exact opens
      · have positive := here.refcount_pos
        obtain ⟨released, done, releases, flushes, soundDone, quietDone⟩ :=
          unlinked_stays soundUnlinked (if_pos rfl)
            ((isStillFile num).trans isFile)
            (by show 1 < vnode.refcount; omega)
        rw [releases, Option.bind_some, if_neg fun both => isLast both.2,
          flushes, Option.map_some]
        obtain ⟨count, hasCount, isCount⟩ := here.counted
        exact ⟨_, rfl, soundDone,
          .quiet (quiet.trans quietDone) (by simp)
            (notCleared (hasCount.exists (by omega)))⟩

end Calls

section Steps

variable {volume after : RamfsVolume} {call : VolumeCall}

theorem completes_of_run (sound : VolumeSound none volume)
    {outcome : RamfsOutcome} (runs : call.run volume = some outcome) :
    Completes volume call := by
  have regular {dir : Nat} {name : List Char}
      {rest : Except Errno (RamfsVolume × Nat) → Option RamfsOutcome}
      (binds : (volume.vnodeGet dir name).bind rest = some outcome) :
      volume.IsFileName dir name := by
    obtain ⟨got, gets, -⟩ := Option.bind_eq_some_iff.mp binds
    exact isFileName_of_get sound gets
  cases call with
  | sysOpen dir name creates exclusive mode refused granted hasSlot =>
    exact sysOpen_completes sound (regular runs) creates exclusive mode
      refused granted hasSlot
  | sysMknod dir name mode rdev uid gid refused =>
    exact sysMknod_completes sound (regular runs) mode rdev uid gid refused
  | sysMkdir dir name mode uid gid refused =>
    exact sysMkdir_completes sound (regular runs) mode uid gid refused
  | sysStat dir name =>
    exact sysStat_completes sound (regular runs)
  | sysChmod dir name mode refused =>
    exact sysChmod_completes sound (regular runs) mode refused
  | sysRead fd len offset =>
    refine ⟨outcome, runs, ?_⟩
    obtain ⟨read, -, rfl⟩ := Option.map_eq_some_iff.mp runs
    exact ⟨sound, Quiet.effect .refl trivial⟩
  | sysWrite fd buf offset fresh refused =>
    exact ⟨outcome, runs, sysWrite_completes sound runs⟩
  | sysClose fd =>
    exact sysClose_completes sound fd
  | sysUnlink dir name refused =>
    exact sysUnlink_completes sound (regular runs) refused

theorem volumeStep_cases (sound : VolumeSound none volume)
    (stepped : VolumeStep volume call after) :
    VolumeSound none after ∧
      ∃ outcome, call.run volume = some outcome ∧
        outcome.volume = after ∧ VolumeEffect volume call outcome := by
  obtain ⟨outcome, runs, rfl⟩ := stepped
  obtain ⟨other, runsToo, soundAfter, effect⟩ := completes_of_run sound runs
  rw [runs] at runsToo
  cases runsToo
  exact ⟨soundAfter, outcome, runs, rfl, effect⟩

theorem clearedBy_unique {id other : Nat} (clearedBy : ClearedBy volume id call)
    (alsoCleared : ClearedBy volume other call) : other = id := by
  cases call with
  | sysClose fd =>
    obtain ⟨file, isOpen, rfl⟩ := (clearedBy.2 fd).mpr rfl
    obtain ⟨also, isAlso, rfl⟩ := (alsoCleared.2 fd).mpr rfl
    rw [isOpen] at isAlso
    cases isAlso
    rfl
  | sysUnlink dir name refused =>
    cases refused with
    | none =>
      exact Option.some.inj (alsoCleared.1.symm.trans clearedBy.1)
    | some err =>
      exact clearedBy.elim
  | _ =>
    exact clearedBy.elim

end Steps

end Idylla.Ramfs
