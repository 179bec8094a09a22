import Idylla.Ramfs.Tree

namespace Idylla.Ramfs

open Idylla.Lib

/-!
# References to the files of a volume

A vnode of the cache counts the files that are open through it and the call that
holds it, has the size of the inode in its slot, and counts a link where the
file has a name.  A file without a name is kept by what refers to its vnode.
-/

/-- The file in a slot, with its number. -/
def RamfsSlot.asFile : RamfsSlot → Option (Nat × FileInode)
  | .directory _ => none
  | .file id inode => some (id, inode)

namespace RamfsVolume

/-- The file in a slot of the table. -/
def fileAt (volume : RamfsVolume) (num : Nat) : Option (Nat × FileInode) :=
  (volume.inodeTable num).bind RamfsSlot.asFile

/-- The size of the file in a slot. -/
def sizeAt (volume : RamfsVolume) (num : Nat) : Int :=
  (volume.fileAt num).elim 0 fun file => file.2.size

/-- A file that is open through the vnode of a number. -/
def OpensAt (volume : RamfsVolume) (num fd : Nat) (file : OpenedFile) : Prop :=
  volume.files.cells fd = some file ∧ file.ino = num

end RamfsVolume

/-- A change that leaves the space and clears no slot. -/
structure Quiet (volume after : RamfsVolume) : Prop where
  freed : after.freed = volume.freed
  space : after.space = volume.space
  inodes : volume.inodes ≤ after.inodes
  sizes : ∀ num, after.sizeAt num = volume.sizeAt num

/-- A change that clears the slot of a file and leaves the space. -/
structure Clears
    (volume : RamfsVolume) (num id : Nat)
    (after : RamfsVolume) : Prop where
  isFile : ∃ inode, volume.fileAt num = some (id, inode)
  freed : after.freed = volume.freed ++ [id]
  space : after.space = volume.space
  inodes : volume.inodes ≤ after.inodes
  sizes :
    ∀ other, after.sizeAt other = if other = num then 0 else volume.sizeAt other

/-- How often a call holds the vnode of a number. -/
def holds (held : Option Nat) (num : Nat) : Nat :=
  if held = some num then 1 else 0

/-- The size of a file is that of an `off_t` and ends in the block. -/
structure FileInode.Fits (inode : FileInode) : Prop where
  lower : -2 ^ 31 ≤ inode.size
  upper : inode.size < 2 ^ 31
  inside : inode.size ≤ inode.data.length

/-- A vnode of the cache and the file in its slot. -/
structure VnodeSound
    (named : Nat → Prop)
    (held : Nat)
    (opens : Nat → OpenedFile → Prop)
    (id : Nat) (inode : FileInode)
    (vnode : FileVnode) : Prop where
  isInode : vnode.inode = id
  isSize : vnode.size = inode.size
  opened :
    ∀ {fd file}, opens fd file → file.vnode = vnode.serial ∧ file.inode = id
  counted : ∃ count, HasCount (fun fd => ∃ file, opens fd file) count ∧
      vnode.refcount = count + held
  links : vnode.nlink = 1 ∧ named id ∨
      vnode.nlink = 0 ∧ ¬ named id ∧ 0 < vnode.refcount

/-- The file in a slot, if there is one, and what refers to it. -/
def SlotSound (named : Nat → Prop) (held : Nat)
    (opens : Nat → OpenedFile → Prop) :
    Option (Nat × FileInode) → Option FileVnode → Prop
  | some (id, inode), some vnode =>
    inode.Fits ∧ VnodeSound named held opens id inode vnode
  | some (id, inode), none =>
    inode.Fits ∧ inode.nlink = 1 ∧ named id ∧
      held = 0 ∧ ∀ fd file, ¬ opens fd file
  | none, none => held = 0 ∧ ∀ fd file, ¬ opens fd file
  | none, some _ => False

/-- What the calls keep, while one of them may hold a vnode. -/
structure VolumeSound (held : Option Nat) (volume : RamfsVolume) : Prop where
  tree : TreeSound volume.tree
  slots : ∀ num,
      SlotSound volume.tree.Named (holds held num) (volume.OpensAt num)
        (volume.fileAt num) (volume.vnodes num)

section Slots

variable {volume : RamfsVolume} {num id : Nat} {inode : FileInode}

theorem FileInode.Fits.congr {after : FileInode} (fits : inode.Fits)
    (size : after.size = inode.size)
    (length : after.data.length = inode.data.length) : after.Fits := by
  refine ⟨?_, ?_, ?_⟩
  · rw [size]
    exact fits.lower
  · rw [size]
    exact fits.upper
  · rw [size, length]
    exact fits.inside

@[simp] theorem holds_self : holds (some num) num = 1 := by
  simp [holds]

theorem holds_of_ne {other : Nat} (differs : other ≠ num) :
    holds (some num) other = 0 := by
  simp [holds, Ne.symm differs]

theorem fileAt_eq_some :
    volume.fileAt num = some (id, inode) ↔
      volume.inodeTable num = some (.file id inode) := by
  unfold RamfsVolume.fileAt RamfsSlot.asFile
  cases volume.inodeTable num with
  | none =>
    simp
  | some slot =>
    cases slot with
    | directory =>
      simp
    | file =>
      simp

theorem fileAt_setSlot (slot : Option RamfsSlot) (other : Nat) :
    (volume.setSlot num slot).fileAt other =
      if other = num then slot.bind RamfsSlot.asFile
      else volume.fileAt other := by
  show (if other = num then slot else volume.inodeTable other).bind _ = _
  split <;> rfl

theorem sizeAt_setSlot (slot : Option RamfsSlot) (other : Nat) :
    (volume.setSlot num slot).sizeAt other =
      if other = num then
        (slot.bind RamfsSlot.asFile).elim 0 fun file => file.2.size
      else volume.sizeAt other := by
  unfold RamfsVolume.sizeAt
  rw [fileAt_setSlot]
  split <;> rfl

theorem tree_slots_file :
    volume.tree.slots num = some (.file id) ↔
      ∃ inode, volume.fileAt num = some (id, inode) := by
  simp only [fileAt_eq_some]
  show (volume.inodeTable num).map RamfsSlot.shape = _ ↔ _
  cases volume.inodeTable num with
  | none =>
    simp
  | some slot =>
    cases slot with
    | directory | file =>
      simp [RamfsSlot.shape]

theorem tree_slots_directory {parent : RamfsInode} :
    volume.tree.slots num = some (.directory parent) ↔
      volume.directory num = some parent := by
  unfold RamfsVolume.directory
  show (volume.inodeTable num).map RamfsSlot.shape = _ ↔ _
  cases volume.inodeTable num with
  | none =>
    simp
  | some slot =>
    cases slot with
    | directory | file =>
      simp [RamfsSlot.shape]

theorem tree_setSlot_file (isFile : volume.fileAt num = some (id, inode))
    (after : FileInode) :
    (volume.setSlot num (some (.file id after))).tree = volume.tree := by
  have isSlot := fileAt_eq_some.mp isFile
  unfold RamfsVolume.tree RamfsVolume.setSlot
  congr 1
  funext other
  dsimp only
  split
  next same =>
    rw [same, isSlot]
    rfl
  · rfl

theorem tree_bindName (dir : Nat) (after : RamfsInode) (name : List Char)
    (bound : Option Nat) :
    ((volume.setSlot dir (some (.directory after))).setName dir name
      bound).tree = volume.tree.bindName dir after name bound := by
  unfold RamfsVolume.tree RamfsVolume.setName RamfsVolume.setSlot
    RamfsTree.bindName
  congr 1
  funext other
  dsimp only
  split <;> rfl

theorem tree_addFile (inode : FileInode) :
    ({ volume with
        inodes := max volume.inodes num
        ids := volume.ids + 1 }.setSlot num
      (some (.file volume.ids inode))).tree = volume.tree.addFile num := by
  unfold RamfsVolume.tree RamfsVolume.setSlot RamfsTree.addFile
    RamfsTree.addSlot
  congr 1
  funext other
  dsimp only
  split <;> rfl

theorem tree_addDirectory (made : RamfsInode) :
    ({ volume with inodes := max volume.inodes num }.setSlot num
      (some (.directory made))).tree =
        volume.tree.addSlot num (.directory made) := by
  unfold RamfsVolume.tree RamfsVolume.setSlot RamfsTree.addSlot
  congr 1
  funext other
  dsimp only
  split <;> rfl

theorem tree_free :
    RamfsVolume.tree
        { volume.setSlot num none with freed := volume.freed ++ [id] } =
      volume.tree.free num id := by
  unfold RamfsVolume.tree RamfsVolume.setSlot RamfsTree.free
  congr 1
  funext other
  dsimp only
  split <;> rfl

theorem freshNumber_free (sound : TreeSound volume.tree) :
    0 < volume.freshNumber ∧ volume.inodeTable volume.freshNumber = none := by
  unfold RamfsVolume.freshNumber
  split
  next i isFound =>
    have isFree := List.find?_some isFound
    exact ⟨Nat.succ_pos i, Option.isNone_iff_eq_none.mp isFree⟩
  · refine ⟨Nat.succ_pos _, ?_⟩
    cases isSlot : volume.inodeTable (volume.inodes + 1) with
    | none =>
      rfl
    | some slot =>
      have shape : volume.tree.slots (volume.inodes + 1) = some slot.shape := by
        show (volume.inodeTable _).map _ = _
        rw [isSlot, Option.map_some]
      have bounds := sound.numbers shape
      exact absurd bounds.2 (Nat.not_succ_le_self _)

theorem fileAt_directory {parent : RamfsInode}
    (isDir : volume.directory num = some parent) :
    volume.fileAt num = none := by
  unfold RamfsVolume.directory at isDir
  unfold RamfsVolume.fileAt
  split at isDir
  next isSlot =>
    rw [isSlot]
    rfl
  · cases isDir

theorem fileAt_setDirectory {dir : Nat} {parent after : RamfsInode}
    (isDir : volume.directory dir = some parent) (other : Nat) :
    (volume.setSlot dir (some (.directory after))).fileAt other =
      volume.fileAt other := by
  rw [fileAt_setSlot]
  split
  next same =>
    rw [same, fileAt_directory isDir]
    rfl
  · rfl

theorem directory_setSlot {dir : Nat} {parent : RamfsInode}
    (isDir : volume.directory dir = some parent)
    (isFree : volume.inodeTable num = none) (slot : Option RamfsSlot) :
    (volume.setSlot num slot).directory dir = some parent := by
  have differs : dir ≠ num := by
    rintro rfl
    unfold RamfsVolume.directory at isDir
    rw [isFree] at isDir
    cases isDir
  rw [← isDir]
  unfold RamfsVolume.directory RamfsVolume.setSlot
  dsimp only
  rw [if_neg differs]

theorem fileAt_ramfsCreate {dir : Nat} {parent : RamfsInode} {name : List Char}
    (sound : TreeSound volume.tree) (isDir : volume.directory dir = some parent)
    (other : Nat) :
    (volume.ramfsCreate dir parent name inode).fileAt other =
      if other = volume.freshNumber then
        some
          (volume.ids, { inode with nlink := (inode.nlink + 1) % nlinkMod })
      else volume.fileAt other := by
  have isFree := (freshNumber_free sound).2
  have isParent :=
    @directory_setSlot
      { volume with
        inodes := max volume.inodes volume.freshNumber
        ids := volume.ids + 1 } volume.freshNumber dir parent isDir isFree
      (some
        (.file volume.ids { inode with nlink := (inode.nlink + 1) % nlinkMod }))
  refine (fileAt_setDirectory isParent other).trans ?_
  exact fileAt_setSlot _ other

theorem fileAt_ramfsMkdir
    {dir : Nat} {parent : RamfsInode} {name : List Char} {mode uid gid : Nat}
    (sound : TreeSound volume.tree) (isDir : volume.directory dir = some parent)
    (other : Nat) :
    (volume.ramfsMkdir dir parent name mode uid gid).fileAt other =
      volume.fileAt other := by
  have isFree := (freshNumber_free sound).2
  have isParent :=
    @directory_setSlot
      { volume with inodes := max volume.inodes volume.freshNumber }
      volume.freshNumber dir parent isDir isFree
  refine (fileAt_setDirectory (isParent _) other).trans ?_
  refine (fileAt_setSlot _ other).trans ?_
  split
  next same =>
    unfold RamfsVolume.fileAt
    rw [same, isFree]
    rfl
  · rfl

theorem deref_eq (isFile : volume.fileAt num = some (id, inode))
    {vnode : FileVnode} (isInode : vnode.inode = id) :
    volume.deref num vnode = some inode := by
  unfold RamfsVolume.deref
  rw [fileAt_eq_some.mp isFile]
  exact if_pos isInode.symm

end Slots

section Vnodes

variable {named namedAfter : Nat → Prop} {held : Nat}
  {opens opensAfter : Nat → OpenedFile → Prop} {id : Nat}
  {inode inodeAfter : FileInode} {vnode vnodeAfter : FileVnode}

theorem SlotSound.congr
    {file : Option (Nat × FileInode)} {cached : Option FileVnode}
    (sound : SlotSound named held opens file cached)
    (names : ∀ id inode, file = some (id, inode) → (namedAfter id ↔ named id))
    (files : ∀ fd file, opensAfter fd file ↔ opens fd file) :
    SlotSound namedAfter held opensAfter file cached := by
  obtain rfl : opensAfter = opens :=
    funext fun fd => funext fun file => propext (files fd file)
  cases file with
  | none =>
    cases cached with
    | none =>
      exact sound
    | some vnode =>
      exact sound
  | some pair =>
    have sameName := names pair.1 pair.2 rfl
    cases cached with
    | none =>
      obtain ⟨block, links, isNamed, unreferenced⟩ := sound
      exact ⟨block, links, sameName.mpr isNamed, unreferenced⟩
    | some vnode =>
      obtain ⟨block, isInode, isSize, opened, counted, links⟩ := sound
      refine ⟨block, isInode, isSize, opened, counted, ?_⟩
      rw [sameName]
      exact links

namespace VnodeSound

theorem hold (sound : VnodeSound named held opens id inode vnode) :
    VnodeSound named (held + 1) opens id inode
      { vnode with refcount := vnode.refcount + 1 } := by
  obtain ⟨count, hasCount, isCount⟩ := sound.counted
  refine ⟨sound.isInode, sound.isSize, sound.opened,
    ⟨count, hasCount, congrArg (· + 1) isCount⟩, ?_⟩
  exact sound.links.imp_right fun ⟨links, unnamed, _⟩ =>
    ⟨links, unnamed, Nat.succ_pos _⟩

theorem refcount_pos
    (sound : VnodeSound named (held + 1) opens id inode vnode) :
    0 < vnode.refcount := by
  obtain ⟨count, -, isCount⟩ := sound.counted
  omega

theorem named_of_links (sound : VnodeSound named held opens id inode vnode)
    (hasLinks : vnode.nlink ≠ 0) : vnode.nlink = 1 ∧ named id :=
  sound.links.resolve_right fun unlinked => hasLinks unlinked.1

theorem unnamed_of_no_links (sound : VnodeSound named held opens id inode vnode)
    (noLinks : vnode.nlink = 0) : ¬ named id := by
  rcases sound.links with ⟨oneLink, -⟩ | ⟨-, unnamed, -⟩
  · rw [noLinks] at oneLink
    cases oneLink
  · exact unnamed

theorem nlink_of_named (sound : VnodeSound named held opens id inode vnode)
    (isNamed : named id) : vnode.nlink = 1 :=
  (sound.links.resolve_right fun unlinked => unlinked.2.1 isNamed).1

theorem rel (sound : VnodeSound named (held + 1) opens id inode vnode)
    (stays : vnode.nlink ≠ 0 ∨ 1 < vnode.refcount) :
    VnodeSound named held opens id inode
      { vnode with refcount := vnode.refcount - 1 } := by
  obtain ⟨count, hasCount, isCount⟩ := sound.counted
  refine ⟨sound.isInode, sound.isSize, sound.opened, ⟨count, hasCount, ?_⟩, ?_⟩
  · show vnode.refcount - 1 = count + held
    omega
  · refine sound.links.imp_right fun ⟨links, unnamed, _⟩ => ⟨links, unnamed, ?_⟩
    have another := stays.resolve_left (absurd links)
    exact Nat.sub_pos_of_lt another

theorem edit (sound : VnodeSound named held opens id inode vnode)
    (isInode : vnodeAfter.inode = vnode.inode)
    (isSerial : vnodeAfter.serial = vnode.serial)
    (refcount : vnodeAfter.refcount = vnode.refcount)
    (nlink : vnodeAfter.nlink = vnode.nlink)
    (isSize : vnodeAfter.size = inodeAfter.size) :
    VnodeSound named held opens id inodeAfter vnodeAfter := by
  refine ⟨isInode.trans sound.isInode, isSize, ?_, ?_, ?_⟩
  · rw [isSerial]
    exact sound.opened
  · rw [refcount]
    exact sound.counted
  · rw [nlink, refcount]
    exact sound.links

theorem opening (sound : VnodeSound named (held + 1) opens id inode vnode)
    {fd : Nat} {file : OpenedFile} (isVnode : file.vnode = vnode.serial)
    (isInode : file.inode = id) (free : ∀ other, ¬ opens fd other)
    (files :
      ∀ other also,
        opensAfter other also ↔ other = fd ∧ also = file ∨ opens other also) :
    VnodeSound named held opensAfter id inode vnode := by
  obtain ⟨count, hasCount, isCount⟩ := sound.counted
  refine ⟨sound.isInode, sound.isSize, fun isOpen => ?_,
    ⟨count + 1, ?_, by omega⟩, sound.links⟩
  · rcases (files _ _).mp isOpen with ⟨rfl, rfl⟩ | isOpen
    · exact ⟨isVnode, isInode⟩
    · exact sound.opened isOpen
  · have absent : ¬ ∃ file, opens fd file :=
      fun ⟨other, isOpen⟩ => free other isOpen
    refine hasCount.insert absent fun other => ?_
    simp only [files, exists_or]
    simp

theorem closing (sound : VnodeSound named held opens id inode vnode)
    {fd : Nat} {file : OpenedFile} (isOpen : opens fd file)
    (files :
      ∀ other also, opensAfter other also ↔ other ≠ fd ∧ opens other also) :
    VnodeSound named (held + 1) opensAfter id inode vnode := by
  obtain ⟨count, hasCount, isCount⟩ := sound.counted
  obtain ⟨left, rfl⟩ := Nat.exists_eq_add_of_lt (hasCount.pos ⟨file, isOpen⟩)
  rw [Nat.zero_add] at hasCount
  refine ⟨sound.isInode, sound.isSize, fun isLeft => ?_,
    ⟨left, ?_, by omega⟩, sound.links⟩
  · exact sound.opened ((files _ _).mp isLeft).2
  · refine hasCount.erase ⟨file, isOpen⟩ fun other => ?_
    simp only [files]
    simp

theorem unname (sound : VnodeSound named (held + 1) opens id inode vnode)
    (unnamed : ¬ namedAfter id) :
    VnodeSound namedAfter (held + 1) opens id inode { vnode with nlink := 0 } :=
  ⟨sound.isInode, sound.isSize, sound.opened, sound.counted,
    .inr ⟨rfl, unnamed, sound.refcount_pos⟩⟩

end VnodeSound

end Vnodes

namespace VolumeSound

variable {volume after : RamfsVolume} {held heldAfter : Option Nat}
  {num id fd : Nat} {inode : FileInode} {vnode : FileVnode} {file : OpenedFile}

theorem update (sound : VolumeSound held volume) (tree : TreeSound after.tree)
    (names :
      ∀ other id inode, other ≠ num → volume.fileAt other = some (id, inode) →
        (after.tree.Named id ↔ volume.tree.Named id))
    (slots :
      ∀ other, other ≠ num →
        after.fileAt other = volume.fileAt other ∧
          after.vnodes other = volume.vnodes other ∧
          holds heldAfter other = holds held other)
    (files :
      ∀ other fd file, other ≠ num →
        (after.OpensAt other fd file ↔ volume.OpensAt other fd file))
    (here :
      SlotSound after.tree.Named (holds heldAfter num) (after.OpensAt num)
        (after.fileAt num) (after.vnodes num)) :
    VolumeSound heldAfter after := by
  refine ⟨tree, fun other => ?_⟩
  by_cases same : other = num
  · rw [same]
    exact here
  · obtain ⟨isFile, isVnode, isHeld⟩ := slots other same
    rw [isFile, isVnode, isHeld]
    exact (sound.slots other).congr
      (fun id inode isFile => names other id inode same isFile)
      fun fd file => files other fd file same

theorem cached (sound : VolumeSound held volume)
    (isCached : volume.vnodes num = some vnode) :
    ∃ id inode, volume.fileAt num = some (id, inode) ∧ inode.Fits ∧
      VnodeSound volume.tree.Named (holds held num) (volume.OpensAt num) id
        inode vnode := by
  have here := sound.slots num
  rw [isCached] at here
  cases isFile : volume.fileAt num with
  | none =>
    rw [isFile] at here
    exact here.elim
  | some pair =>
    rw [isFile] at here
    exact ⟨pair.1, pair.2, rfl, here⟩

theorem cachedFile (sound : VolumeSound held volume)
    (isCached : volume.vnodes num = some vnode)
    (isFile : volume.fileAt num = some (id, inode)) :
    inode.Fits ∧
      VnodeSound volume.tree.Named (holds held num) (volume.OpensAt num) id
        inode vnode := by
  obtain ⟨_, _, isSame, here⟩ := sound.cached isCached
  rw [isFile] at isSame
  cases isSame
  exact here

theorem cached_of_held (sound : VolumeSound (some num) volume) :
    ∃ vnode, volume.vnodes num = some vnode := by
  have here := sound.slots num
  rw [holds_self] at here
  cases isCached : volume.vnodes num with
  | some vnode =>
    exact ⟨vnode, rfl⟩
  | none =>
    rw [isCached] at here
    cases isFile : volume.fileAt num with
    | none =>
      rw [isFile] at here
      exact absurd here.1 (Nat.one_ne_zero)
    | some pair =>
      rw [isFile] at here
      exact absurd here.2.2.2.1 (Nat.one_ne_zero)

theorem cached_of_open (sound : VolumeSound held volume)
    (isOpen : volume.files.cells fd = some file) :
    ∃ vnode, volume.vnodes file.ino = some vnode := by
  have here := sound.slots file.ino
  cases isCached : volume.vnodes file.ino with
  | some vnode =>
    exact ⟨vnode, rfl⟩
  | none =>
    rw [isCached] at here
    cases isFile : volume.fileAt file.ino with
    | none =>
      rw [isFile] at here
      exact absurd ⟨isOpen, rfl⟩ (here.2 fd file)
    | some pair =>
      rw [isFile] at here
      exact absurd ⟨isOpen, rfl⟩ (here.2.2.2.2 fd file)

theorem updateVnode (sound : VolumeSound held volume)
    (isFile : volume.fileAt num = some (id, inode)) (block : inode.Fits)
    (elsewhere :
      ∀ other, other ≠ num → holds heldAfter other = holds held other)
    (here :
      VnodeSound volume.tree.Named (holds heldAfter num)
        (volume.OpensAt num) id inode vnode) :
    VolumeSound heldAfter (volume.setVnode num (some vnode)) := by
  refine @sound.update _ _ _ _ num sound.tree
    (fun _ _ _ _ _ => Iff.rfl) (fun other differs => ?_)
    (fun _ _ _ _ => Iff.rfl) ?_
  · exact ⟨rfl, if_neg differs, elsewhere other differs⟩
  · have isVnode : (volume.setVnode num (some vnode)).vnodes num = some vnode :=
      if_pos rfl
    show SlotSound _ _ _ (volume.fileAt num) _
    rw [isVnode, isFile]
    exact ⟨block, here⟩

theorem hold (sound : VolumeSound none volume)
    (isCached : volume.vnodes num = some vnode) :
    VolumeSound (some num)
      (volume.setVnode num
        (some { vnode with refcount := vnode.refcount + 1 })) := by
  obtain ⟨id, inode, isFile, block, here⟩ := sound.cached isCached
  refine sound.updateVnode isFile block
    (fun other differs => holds_of_ne differs) ?_
  rw [holds_self]
  exact here.hold

theorem cache (sound : VolumeSound none volume)
    (missing : volume.vnodes num = none)
    (isFile : volume.fileAt num = some (id, inode)) :
    VolumeSound (some num)
      ({ volume with serials := volume.serials + 1 }.setVnode num
        (some (inode.opened id volume.serials))) := by
  have here := sound.slots num
  rw [missing, isFile] at here
  obtain ⟨block, links, isNamed, -, unopened⟩ := here
  have soundSerials :
      VolumeSound none { volume with serials := volume.serials + 1 } :=
    ⟨sound.tree, sound.slots⟩
  refine soundSerials.updateVnode isFile block
    (fun other differs => holds_of_ne differs) ?_
  refine ⟨rfl, rfl, fun isOpen => absurd isOpen (unopened _ _),
    ⟨0, hasCount_zero_iff.mpr ?_, ?_⟩, .inl ⟨links, isNamed⟩⟩
  · exact fun fd ⟨file, isOpen⟩ => unopened fd file isOpen
  · rw [holds_self]
    rfl

theorem vnodeRel (sound : VolumeSound (some num) volume)
    (isCached : volume.vnodes num = some vnode)
    (stays : vnode.nlink ≠ 0 ∨ 1 < vnode.refcount) :
    volume.vnodeRel num =
        some
          (volume.setVnode num
            (some { vnode with refcount := vnode.refcount - 1 })) ∧
      VolumeSound none
        (volume.setVnode num
          (some { vnode with refcount := vnode.refcount - 1 })) := by
  obtain ⟨id, inode, isFile, block, here⟩ := sound.cached isCached
  rw [holds_self] at here
  constructor
  · unfold RamfsVolume.vnodeRel
    rw [isCached, Option.bind_some, if_neg (Nat.ne_of_gt here.refcount_pos)]
  · exact sound.updateVnode isFile block
      (fun other differs => (holds_of_ne differs).symm) (here.rel stays)

/-- The vnode that a call holds is given to a new file. -/
theorem opening (sound : VolumeSound (some num) volume)
    (isCached : volume.vnodes num = some vnode) :
    VolumeSound none
      { volume with
        files :=
          volume.files.alloc
            { ino := num, vnode := vnode.serial, inode := vnode.inode } } := by
  obtain ⟨id, inode, isFile, block, here⟩ := sound.cached isCached
  rw [holds_self] at here
  generalize isNew :
    { ino := num, vnode := vnode.serial, inode := vnode.inode :
      OpenedFile } = opened
  have number : opened.ino = num := by rw [← isNew]
  have files (other fd : Nat) (file : OpenedFile) :
      RamfsVolume.OpensAt
          { volume with files := volume.files.alloc opened } other fd file ↔
        (fd = volume.files.next ∧ file = opened ∧ other = num) ∨
          volume.OpensAt other fd file := by
    show (volume.files.alloc opened).cells fd = some file ∧ file.ino = other ↔ _
    by_cases isNext : fd = volume.files.next
    · subst isNext
      have unused : volume.files.cells volume.files.next = none :=
        volume.files.unallocated _ (Nat.le_refl _)
      rw [Heap.cells_alloc_next]
      constructor
      · rintro ⟨same, isOther⟩
        obtain rfl := Option.some.inj same
        exact .inl ⟨rfl, rfl, isOther.symm.trans number⟩
      · rintro (⟨-, rfl, rfl⟩ | ⟨isOpen, -⟩)
        · exact ⟨rfl, number⟩
        · rw [unused] at isOpen
          cases isOpen
    · show (if fd = volume.files.next then some opened
        else volume.files.cells fd) = some file ∧ file.ino = other ↔ _
      rw [if_neg isNext]
      exact ⟨.inr, fun isOpen =>
        isOpen.resolve_left fun isNew => isNext isNew.1⟩
  refine @sound.update _ _ _ _ num sound.tree
    (fun _ _ _ _ _ => Iff.rfl) (fun other differs => ?_)
    (fun other fd file differs => ?_) ?_
  · exact ⟨rfl, rfl, (holds_of_ne differs).symm⟩
  · rw [files]
    exact ⟨fun isOpen => isOpen.resolve_left fun isNew =>
      differs isNew.2.2, .inr⟩
  · show SlotSound _ _ _ (volume.fileAt num) (volume.vnodes num)
    rw [isCached, isFile]
    have isVnode : opened.vnode = vnode.serial := by rw [← isNew]
    have isInode : opened.inode = id := by
      rw [← isNew]
      exact here.isInode
    have free (other : OpenedFile) :
        ¬ volume.OpensAt num volume.files.next other := by
      rintro ⟨isOpen, -⟩
      rw [volume.files.unallocated _ (Nat.le_refl _)] at isOpen
      cases isOpen
    refine ⟨block, here.opening isVnode isInode free fun fd file => ?_⟩
    rw [files]
    simp

theorem closing (sound : VolumeSound none volume)
    (isOpen : volume.files.cells fd = some file) :
    VolumeSound (some file.ino)
      { volume with files := volume.files.free fd } := by
  obtain ⟨vnode, isCached⟩ := sound.cached_of_open isOpen
  obtain ⟨id, inode, isFile, block, here⟩ := sound.cached isCached
  have files (num other : Nat) (also : OpenedFile) :
      RamfsVolume.OpensAt
          { volume with files := volume.files.free fd } num other also ↔
        other ≠ fd ∧ volume.OpensAt num other also := by
    show (if other = fd then none else volume.files.cells other) =
      some also ∧ also.ino = num ↔ _
    split
    next same => simp [same]
    next differs => exact ⟨fun isOpen => ⟨differs, isOpen⟩, And.right⟩
  refine @sound.update _ _ _ _ file.ino sound.tree
    (fun _ _ _ _ _ => Iff.rfl) (fun other differs => ?_)
    (fun num other also differs => ?_) ?_
  · exact ⟨rfl, rfl, holds_of_ne differs⟩
  · rw [files]
    refine ⟨And.right, fun isOther => ⟨?_, isOther⟩⟩
    rintro rfl
    obtain ⟨same, isNumber⟩ := isOther
    rw [isOpen] at same
    cases same
    exact differs isNumber.symm
  · show SlotSound _ _ _ (volume.fileAt file.ino) (volume.vnodes file.ino)
    rw [isCached, isFile, holds_self]
    exact ⟨block, here.closing ⟨isOpen, rfl⟩ (files file.ino)⟩

/-- The contents of a file change together with its vnode. -/
theorem edit (sound : VolumeSound held volume)
    (isCached : volume.vnodes num = some vnode)
    (isFile : volume.fileAt num = some (id, inode))
    {inodeAfter : FileInode} {vnodeAfter : FileVnode} {space : RamfsSpace}
    (block : inodeAfter.Fits) (isInode : vnodeAfter.inode = vnode.inode)
    (isSerial : vnodeAfter.serial = vnode.serial)
    (refcount : vnodeAfter.refcount = vnode.refcount)
    (nlink : vnodeAfter.nlink = vnode.nlink)
    (isSize : vnodeAfter.size = inodeAfter.size) :
    VolumeSound held
      (({ volume with space := space }.setSlot num
        (some (.file id inodeAfter))).setVnode num (some vnodeAfter)) := by
  obtain ⟨-, here⟩ := sound.cachedFile isCached isFile
  generalize isAfter :
    ({ volume with space := space }.setSlot num
      (some (.file id inodeAfter))).setVnode num (some vnodeAfter) = after
  have tree : after.tree = volume.tree := by
    rw [← isAfter]
    exact @tree_setSlot_file { volume with space := space } num _ _
      isFile inodeAfter
  have files (other : Nat) :
      after.fileAt other = if other = num then some (id, inodeAfter)
        else volume.fileAt other := by
    rw [← isAfter]
    exact fileAt_setSlot _ other
  have vnodes (other : Nat) :
      after.vnodes other =
        if other = num then some vnodeAfter else volume.vnodes other := by
    rw [← isAfter]
    rfl
  have opens (other : Nat) : after.OpensAt other = volume.OpensAt other := by
    rw [← isAfter]
    rfl
  refine @sound.update _ _ _ _ num ?_ ?_ (fun other differs => ?_)
    (fun other _ _ _ => ?_) ?_
  · rw [tree]
    exact sound.tree
  · intro other id inode _ _
    rw [tree]
  · exact ⟨(files other).trans (if_neg differs),
      (vnodes other).trans (if_neg differs), rfl⟩
  · rw [opens]
  · rw [tree, opens, files, vnodes, if_pos rfl, if_pos rfl]
    exact ⟨block, here.edit isInode isSerial refcount nlink isSize⟩

theorem unreferenced (sound : VolumeSound held volume)
    (missing : volume.fileAt num = none) :
    volume.vnodes num = none ∧ ∀ fd file, ¬ volume.OpensAt num fd file := by
  have here := sound.slots num
  rw [missing] at here
  cases isCached : volume.vnodes num with
  | none =>
    rw [isCached] at here
    exact ⟨rfl, here.2⟩
  | some vnode =>
    rw [isCached] at here
    exact here.elim

/-- A new file has one name and no references. -/
theorem create (sound : VolumeSound none volume)
    {dir : Nat} {parent : RamfsInode} {name : List Char}
    (isDir : volume.directory dir = some parent)
    (missing : parent.lookup name = none) (links : inode.nlink = 0)
    (block : inode.Fits) :
    VolumeSound none (volume.ramfsCreate dir parent name inode) := by
  obtain ⟨positive, isFree⟩ := freshNumber_free sound.tree
  generalize isFresh : volume.freshNumber = num at positive isFree
  have noSlot : volume.tree.slots num = none := by
    show (volume.inodeTable num).map _ = none
    rw [isFree, Option.map_none]
  have noFile : volume.fileAt num = none := by
    show (volume.inodeTable num).bind _ = none
    rw [isFree, Option.bind_none]
  obtain ⟨uncached, unopened⟩ := sound.unreferenced noFile
  have isParent := tree_slots_directory.mpr isDir
  have unnamed := sound.tree.names_eq_none isParent missing
  generalize isAfter : volume.ramfsCreate dir parent name inode = after
  have tree : after.tree =
        (volume.tree.addFile num).bindName dir
          (parent.putEntry { name := name, inode := num }) name
          (some volume.ids) := by
    rw [← isAfter, ← isFresh]
    refine (tree_bindName _ _ _ _).trans ?_
    rw [tree_addFile]
  have names (other : Nat) :
      after.tree.Named other ↔
        some volume.ids = some other ∨ volume.tree.Named other := by
    rw [tree]
    exact TreeSound.named_bindName_of_unnamed unnamed
  have slots (other : Nat) :
      after.fileAt other =
        if other = num then
          some (volume.ids, { inode with nlink := 1 })
        else volume.fileAt other := by
    rw [← isAfter, fileAt_ramfsCreate sound.tree isDir, isFresh, links]
    rfl
  have isDirectory :
      (volume.tree.addFile num).slots dir = some (.directory parent) :=
    (TreeSound.slots_addSlot noSlot).mpr (.inl isParent)
  have isNew : (volume.tree.addFile num).slots num = some (.file volume.ids) :=
    (TreeSound.slots_addSlot noSlot).mpr (.inr ⟨rfl, rfl⟩)
  have noName : ¬ (volume.tree.addFile num).Named volume.ids := by
    rintro ⟨other, also, isName⟩
    obtain ⟨-, number, -, -, isSlot⟩ := sound.tree.names isName
    exact Nat.lt_irrefl _ (sound.tree.lt_ids isSlot)
  have distinct := sound.tree.directories isParent
  refine @sound.update _ _ _ _ num ?_ ?_ (fun other different => ?_)
    (fun other _ _ _ => ?_) ?_
  · rw [tree]
    exact (sound.tree.addFile positive noSlot).bindName isDirectory
      (distinct.putEntry missing) (.file isNew noName)
      (distinct.lookup_putEntry (Nat.ne_of_gt positive) missing)
  · intro other id inode different isFile
    have isOld : id < volume.ids :=
      sound.tree.lt_ids (tree_slots_file.mpr ⟨inode, isFile⟩)
    rw [names]
    exact or_iff_right fun isNewId =>
      Nat.ne_of_gt isOld (Option.some.inj isNewId)
  · refine ⟨(slots other).trans (if_neg different), ?_, rfl⟩
    rw [← isAfter]
    rfl
  · rw [← isAfter]
    rfl
  · have noVnode : after.vnodes num = none := by
      rw [← isAfter]
      exact uncached
    rw [slots, if_pos rfl, noVnode]
    refine ⟨block.congr rfl rfl, rfl, ?_, rfl, ?_⟩
    · rw [names]
      exact .inl rfl
    · rw [← isAfter]
      exact unopened

variable {dir : Nat} {parent : RamfsInode} {name : List Char}

/-- A new directory leaves the files and their names. -/
theorem mkdir (sound : VolumeSound none volume) {mode uid gid : Nat}
    (isDir : volume.directory dir = some parent)
    (missing : parent.lookup name = none) :
    VolumeSound none (volume.ramfsMkdir dir parent name mode uid gid) := by
  obtain ⟨positive, isFree⟩ := freshNumber_free sound.tree
  have files :=
    @fileAt_ramfsMkdir volume dir parent name mode uid gid sound.tree isDir
  have isParent := tree_slots_directory.mpr isDir
  have dirAlive := (sound.tree.numbers isParent).1
  have noSlot : volume.tree.slots volume.freshNumber = none := by
    show (volume.inodeTable _).map _ = none
    rw [isFree, Option.map_none]
  have unnamed := sound.tree.names_eq_none isParent missing
  generalize isMade :
    (({ RamfsInode.new (Vfs.S_IFDIR ||| mode) 0 with
        uid := uid, gid := gid, nlink := 2 }.putEntry
      { name := ['.'], inode := volume.freshNumber }).putEntry
        { name := ['.', '.'], inode := dir }) = made
  have entries := @RamfsInode.Distinct.dotEntries
    { RamfsInode.new (Vfs.S_IFDIR ||| mode) 0 with
      uid := uid, gid := gid, nlink := 2 } volume.freshNumber dir rfl
    (Nat.ne_of_gt positive) (Nat.ne_of_gt dirAlive)
  rw [isMade] at entries
  generalize isAfter :
    volume.ramfsMkdir dir parent name mode uid gid = after at files
  have tree : after.tree =
        (volume.tree.addSlot volume.freshNumber
          (.directory made)).bindName dir
            ({ parent with
                nlink := (parent.nlink + 1) % nlinkMod }.putEntry
              { name := name, inode := volume.freshNumber }) name none := by
    rw [← isAfter, ← isMade]
    refine (tree_bindName _ _ _ _).trans ?_
    rw [tree_addDirectory]
  have soundMade :=
    sound.tree.addDirectory positive noSlot entries.1
      fun asked other isFound => by
        rcases entries.2 asked other isFound with isSelf | rfl
        · exact .inl isSelf
        · exact .inr ⟨parent, isParent⟩
  have distinct : RamfsInode.Distinct
        { parent with nlink := (parent.nlink + 1) % nlinkMod } :=
    (sound.tree.directories isParent).congr rfl rfl
  constructor
  · rw [tree]
    exact soundMade.bindName
      ((TreeSound.slots_addSlot noSlot).mpr (.inl isParent))
      (distinct.putEntry missing)
      (.directory ((TreeSound.slots_addSlot noSlot).mpr (.inr ⟨rfl, rfl⟩)))
      (distinct.lookup_putEntry (Nat.ne_of_gt positive) missing)
  · intro num
    rw [files]
    have vnodes : after.vnodes = volume.vnodes := by
      rw [← isAfter]
      rfl
    have opens : after.OpensAt = volume.OpensAt := by
      rw [← isAfter]
      rfl
    rw [vnodes, opens]
    refine (sound.slots num).congr (fun id inode _ => ?_) fun _ _ => Iff.rfl
    have names :
        after.tree.Named id ↔ none = some id ∨ volume.tree.Named id := by
      rw [tree]
      exact TreeSound.named_bindName_of_unnamed unnamed
    rw [names]
    exact or_iff_right fun isNone => by cases isNone

theorem names_of_lookup (sound : VolumeSound held volume)
    (isDir : volume.directory dir = some parent)
    (isFound : parent.lookup name = some num)
    (isFile : volume.fileAt num = some (id, inode)) :
    volume.names dir name = some id := by
  have isSlot := tree_slots_file.mpr ⟨inode, isFile⟩
  rcases sound.tree.entries (tree_slots_directory.mpr isDir) isFound with
    ⟨inode, isDirectory⟩ | ⟨other, isOther, isName⟩
  · rw [isSlot] at isDirectory
    cases isDirectory
  · rw [isSlot] at isOther
    cases isOther
    exact isName

/-- The only name of a file that a call holds is removed. -/
theorem unname (sound : VolumeSound (some num) volume)
    (isDir : volume.directory dir = some parent)
    (isFound : parent.lookup name = some num)
    (isFile : volume.fileAt num = some (id, inode))
    (isCached : volume.vnodes num = some vnode) :
    ∃ after, parent.unlink name = some after ∧
      (vnode.nlink + (nlinkMod - 1)) % nlinkMod = 0 ∧
      VolumeSound (some num)
        (((volume.setSlot dir (some (.directory after))).setName dir name
          none).setVnode num (some { vnode with nlink := 0 })) := by
  have isParent := tree_slots_directory.mpr isDir
  have isSlot := tree_slots_file.mpr ⟨inode, isFile⟩
  obtain ⟨after, unlinks, distinct, lookups⟩ :=
    (sound.tree.directories isParent).unlink isFound
  have isName : volume.tree.names dir name = some id :=
    sound.names_of_lookup isDir isFound isFile
  obtain ⟨block, here⟩ := sound.cachedFile isCached isFile
  rw [holds_self] at here
  have links := here.nlink_of_named ⟨dir, name, isName⟩
  have sameName (other : Nat) :
      (volume.tree.bindName dir after name none).Named other ↔
        other ≠ id ∧ volume.tree.Named other := by
    rw [TreeSound.named_bindName]
    constructor
    · rintro (isNone | ⟨at_, also, differs, isOther⟩)
      · cases isNone
      · refine ⟨?_, at_, also, isOther⟩
        rintro rfl
        exact differs (sound.tree.nameOnce isName isOther)
    · rintro ⟨differs, at_, also, isOther⟩
      refine .inr ⟨at_, also, ?_, isOther⟩
      rintro ⟨rfl, rfl⟩
      rw [isName] at isOther
      exact differs (Option.some.inj isOther).symm
  have tree := sound.tree.bindName isParent distinct .nothing lookups
  have bound := @tree_bindName volume dir after name none
  refine ⟨after, unlinks, by rw [links]; rfl, ?_⟩
  generalize isUnlinked :
    (volume.setSlot dir (some (.directory after))).setName dir name none =
      unlinked at bound
  have files (other : Nat) : unlinked.fileAt other = volume.fileAt other := by
    rw [← isUnlinked]
    exact fileAt_setDirectory isDir other
  have vnodes : unlinked.vnodes = volume.vnodes := by rw [← isUnlinked]; rfl
  have opens (other : Nat) : unlinked.OpensAt other = volume.OpensAt other := by
    rw [← isUnlinked]
    rfl
  refine @sound.update _ _ _ _ num ?_ ?_ (fun other differs => ?_)
    (fun other _ _ _ => ?_) ?_
  · show TreeSound unlinked.tree
    rw [bound]
    exact tree
  · intro other file _ differs isOther
    show unlinked.tree.Named file ↔ _
    rw [bound, sameName]
    refine ⟨And.right, fun isNamed => ⟨?_, isNamed⟩⟩
    rintro rfl
    have isOtherSlot := tree_slots_file.mpr ⟨_, isOther⟩
    exact differs (sound.tree.slotOnce isSlot isOtherSlot)
  · exact ⟨files other, (if_neg differs).trans (by rw [vnodes]), rfl⟩
  · show unlinked.OpensAt other _ _ ↔ _
    rw [opens]
  · show SlotSound unlinked.tree.Named _ (unlinked.OpensAt num)
      (unlinked.fileAt num) (if num = num then _ else _)
    rw [bound, opens, files, isFile, if_pos rfl, holds_self]
    exact ⟨block, here.unname fun isNamed => ((sameName id).mp isNamed).1 rfl⟩

theorem clear (sound : VolumeSound (some num) volume)
    (isFile : volume.fileAt num = some (id, inode))
    (unnamed : ¬ volume.tree.Named id)
    (unopened : ∀ fd file, ¬ volume.OpensAt num fd file) :
    VolumeSound none
      { (volume.setVnode num none).setSlot num none with
        freed := volume.freed ++ [id] } := by
  have tree := @tree_free (volume.setVnode num none) num id
  have isSlot := tree_slots_file.mpr ⟨inode, isFile⟩
  have slots := @fileAt_setSlot (volume.setVnode num none) num none
  refine @sound.update _ _ _ _ num ?_ (fun _ _ _ _ _ => Iff.rfl)
    (fun other differs => ⟨?_, if_neg differs, ?_⟩)
    (fun _ _ _ _ => Iff.rfl) ?_
  · exact tree ▸ sound.tree.free isSlot unnamed
  · exact (slots other).trans (if_neg differs)
  · exact (holds_of_ne differs).symm
  · have noFile := (slots num).trans (if_pos rfl)
    have noVnode : (volume.setVnode num none).vnodes num = none := if_pos rfl
    show SlotSound _ _ _
      (((volume.setVnode num none).setSlot num none).fileAt num)
      ((volume.setVnode num none).vnodes num)
    rw [noFile, noVnode]
    exact ⟨rfl, unopened⟩

theorem forget (sound : VolumeSound (some num) volume)
    (isCached : volume.vnodes num = some vnode)
    (isFile : volume.fileAt num = some (id, inode)) (hasLinks : vnode.nlink ≠ 0)
    (unopened : ∀ fd file, ¬ volume.OpensAt num fd file) {flushed : FileInode}
    (isData : flushed.data = inode.data) (isSize : flushed.size = vnode.size)
    (links : flushed.nlink = vnode.nlink) :
    VolumeSound none
      ((volume.setVnode num none).setSlot num (some (.file id flushed))) := by
  obtain ⟨block, here⟩ := sound.cachedFile isCached isFile
  have named := here.named_of_links hasLinks
  have slots := @fileAt_setSlot (volume.setVnode num none) num
    (some (.file id flushed))
  have tree := @tree_setSlot_file (volume.setVnode num none) num id inode
    isFile flushed
  refine @sound.update _ _ _ _ num ?_ ?_
    (fun other differs => ⟨?_, if_neg differs, ?_⟩)
    (fun _ _ _ _ => Iff.rfl) ?_
  · rw [tree]
    exact sound.tree
  · intro other _ _ _ _
    rfl
  · exact (slots other).trans (if_neg differs)
  · exact (holds_of_ne differs).symm
  · have isFlushed := (slots num).trans (if_pos rfl)
    have noVnode : (volume.setVnode num none).vnodes num = none := if_pos rfl
    show SlotSound _ _ _ _ ((volume.setVnode num none).vnodes num)
    rw [isFlushed, noVnode, tree]
    refine ⟨?_, links.trans named.1, named.2, rfl, unopened⟩
    exact block.congr (isSize.trans here.isSize)
      (congrArg FileBlock.length isData)

theorem vnodeFree_released (isLast : vnode.refcount = 1) :
    (volume.setVnode num
        (some { vnode with refcount := vnode.refcount - 1 })).vnodeFree num =
      (volume.setVnode num none).ramfsClose num
        { vnode with refcount := vnode.refcount - 1 } := by
  have isVnode :
      (volume.setVnode num
        (some { vnode with refcount := vnode.refcount - 1 })).vnodes num =
        some { vnode with refcount := vnode.refcount - 1 } :=
    if_pos rfl
  unfold RamfsVolume.vnodeFree
  rw [isVnode, Option.bind_some, if_neg (by show ¬ 0 < _ - 1; omega)]
  congr 1
  unfold RamfsVolume.setVnode
  congr 1
  funext other
  dsimp only
  split <;> rfl

/-- A call frees the vnode that only it refers to. -/
theorem dropLast (sound : VolumeSound (some num) volume)
    (isCached : volume.vnodes num = some vnode) (isLast : vnode.refcount = 1) :
    (∀ fd file, ¬ volume.OpensAt num fd file) ∧
    ∃ done,
      (volume.setVnode num
        (some { vnode with refcount := vnode.refcount - 1 })).vnodeFree num =
          some done ∧
      VolumeSound none done ∧
      (Quiet volume done ∧ vnode.nlink ≠ 0 ∨
        vnode.nlink = 0 ∧ Clears volume num vnode.inode done) := by
  obtain ⟨id, inode, isFile, -, here⟩ := sound.cached isCached
  rw [holds_self] at here
  obtain ⟨count, hasCount, isCount⟩ := here.counted
  obtain rfl : count = 0 := by omega
  have unopened (fd : Nat) (file : OpenedFile) : ¬ volume.OpensAt num fd file :=
    fun isOpen => hasCount_zero_iff.mp hasCount fd ⟨file, isOpen⟩
  have isData : (volume.setVnode num none).deref num
        { vnode with refcount := vnode.refcount - 1 } = some inode :=
    @deref_eq (volume.setVnode num none) num id inode isFile _ here.isInode
  have frees := @vnodeFree_released volume num vnode isLast
  unfold RamfsVolume.ramfsClose at frees
  rw [isData, Option.map_some] at frees
  refine ⟨unopened, ?_⟩
  obtain rfl := here.isInode
  by_cases noLinks : vnode.nlink = 0
  · have unnamed := here.unnamed_of_no_links noLinks
    rw [if_pos noLinks] at frees
    exact ⟨_, frees, sound.clear isFile unnamed unopened,
      .inr ⟨noLinks, ⟨inode, isFile⟩, rfl, rfl, Nat.le_refl _,
        sizeAt_setSlot none⟩⟩
  · rw [if_neg noLinks] at frees
    refine ⟨_, frees, sound.forget isCached isFile noLinks unopened rfl rfl rfl,
      .inl ⟨⟨rfl, rfl, Nat.le_refl _, fun other => ?_⟩, noLinks⟩⟩
    refine (sizeAt_setSlot _ other).trans ?_
    split
    next same =>
      unfold RamfsVolume.sizeAt
      rw [same, isFile]
      exact here.isSize
    · rfl

theorem drop (sound : VolumeSound (some num) volume)
    (isCached : volume.vnodes num = some vnode) :
    ∃ released done, volume.vnodeRel num = some released ∧
      released.vnodeFree num = some done ∧
      VolumeSound none done ∧
      (Quiet volume done ∧
          (vnode.nlink ≠ 0 ∨ ∃ fd file, volume.OpensAt num fd file) ∨
        vnode.nlink = 0 ∧ (∀ fd file, ¬ volume.OpensAt num fd file) ∧
          Clears volume num vnode.inode done) := by
  obtain ⟨id, inode, isFile, -, here⟩ := sound.cached isCached
  rw [holds_self] at here
  have positive := here.refcount_pos
  have releases : volume.vnodeRel num =
        some
          (volume.setVnode num
            (some { vnode with refcount := vnode.refcount - 1 })) := by
    unfold RamfsVolume.vnodeRel
    rw [isCached, Option.bind_some, if_neg (Nat.ne_of_gt positive)]
  by_cases another : 1 < vnode.refcount
  · obtain ⟨count, hasCount, isCount⟩ := here.counted
    refine ⟨_, _, releases, ?_, (sound.vnodeRel isCached (.inr another)).2,
      .inl ⟨⟨rfl, rfl, Nat.le_refl _, fun _ => rfl⟩,
        .inr (hasCount.exists (by omega))⟩⟩
    unfold RamfsVolume.vnodeFree
    have isVnode :
        (volume.setVnode num
          (some { vnode with refcount := vnode.refcount - 1 })).vnodes num =
          some { vnode with refcount := vnode.refcount - 1 } :=
      if_pos rfl
    rw [isVnode, Option.bind_some, if_pos (Nat.sub_pos_of_lt another)]
  · obtain ⟨unopened, done, frees, soundDone, effect⟩ :=
      sound.dropLast isCached (by omega)
    refine ⟨_, done, releases, frees, soundDone, ?_⟩
    rcases effect with ⟨quiet, hasLinks⟩ | ⟨noLinks, clears⟩
    · exact .inl ⟨quiet, .inl hasLinks⟩
    · exact .inr ⟨noLinks, unopened, clears⟩

end VolumeSound

end Idylla.Ramfs
