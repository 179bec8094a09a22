import Idylla.Ramfs.VolumeCalls

namespace Idylla.Ramfs

open Idylla.Lib

/-!
# Lifetimes of files

An entry and a descriptor refer to the inode that they were made for, whatever
has been unlinked before, and the slot of a file is cleared once: when it has
neither a name nor a descriptor any more.
-/

theorem mounted_sound : VolumeSound none .mounted := by
  have entries := @RamfsInode.Distinct.dotEntries
    { RamfsInode.new (Vfs.S_IFDIR ||| 0o755) 0 with nlink := 2 }
    RAMFS_ROOT_INODE RAMFS_ROOT_INODE rfl (by decide) (by decide)
  generalize isRoot :
    ({ RamfsInode.new (Vfs.S_IFDIR ||| 0o755) 0 with
        nlink := 2 }.putEntry
      { name := ['.'], inode := RAMFS_ROOT_INODE }).putEntry
        { name := ['.', '.'], inode := RAMFS_ROOT_INODE } = root at entries
  have slots {num : Nat} {slot : SlotShape} :
      RamfsVolume.mounted.tree.slots num = some slot ↔
        num = RAMFS_ROOT_INODE ∧ slot = .directory root := by
    rw [← isRoot]
    show (if num = RAMFS_ROOT_INODE then _ else none).map _ = _ ↔ _
    split
    next same =>
      rw [Option.map_some, Option.some.injEq, eq_comm]
      exact ⟨fun isSlot => ⟨same, isSlot⟩, And.right⟩
    next differs =>
      refine ⟨fun impossible => ?_, fun isSlot => absurd isSlot.1 differs⟩
      cases impossible
  have noFile {num id : Nat} :
      RamfsVolume.mounted.tree.slots num ≠ some (.file id) := by
    intro isSlot
    cases (slots.mp isSlot).2
  have tree : TreeSound RamfsVolume.mounted.tree := by
    refine ⟨fun isSlot => ?_, fun isSlot => ?_, fun isSlot isFound => ?_,
      fun isName => ?_, fun isName => ?_, fun isSlot => ?_, fun id => ?_,
      List.nodup_nil, fun isFreed => ?_⟩
    · rw [(slots.mp isSlot).1]
      exact ⟨by decide, by decide⟩
    · cases (slots.mp isSlot).2
      exact entries.1
    · cases (slots.mp isSlot).2
      rcases entries.2 _ _ isFound with rfl | rfl
      · exact .inl ⟨root, slots.mpr ⟨rfl, rfl⟩⟩
      · exact .inl ⟨root, slots.mpr ⟨rfl, rfl⟩⟩
    · cases isName
    · cases isName
    · exact absurd isSlot noFile
    · constructor
      · intro below
        exact absurd below (Nat.not_lt_zero id)
      · rintro (isFreed | ⟨num, isSlot⟩)
        · cases isFreed
        · exact absurd isSlot noFile
    · cases isFreed
  refine ⟨tree, fun num => ?_⟩
  have missing : RamfsVolume.mounted.fileAt num = none := by
    cases isFile : RamfsVolume.mounted.fileAt num with
    | none =>
      rfl
    | some file =>
      have isSlot := tree_slots_file.mpr ⟨file.2, isFile⟩
      exact absurd isSlot noFile
  rw [missing]
  refine ⟨rfl, fun fd file isOpen => ?_⟩
  cases isOpen.1

namespace VolumeSound

variable {volume : RamfsVolume} {id : Nat}

theorem referenced (sound : VolumeSound none volume) {num : Nat}
    (isSlot : volume.tree.slots num = some (.file id))
    (unnamed : ¬ volume.tree.Named id) : ∃ fd, volume.OpenAs id fd := by
  obtain ⟨inode, isFile⟩ := tree_slots_file.mp isSlot
  have here := sound.slots num
  rw [isFile] at here
  cases isCached : volume.vnodes num with
  | none =>
    rw [isCached] at here
    exact absurd here.2.2.1 unnamed
  | some vnode =>
    rw [isCached] at here
    obtain ⟨-, here⟩ := here
    rcases here.links with ⟨-, isNamed⟩ | ⟨-, -, positive⟩
    · exact absurd isNamed unnamed
    · obtain ⟨count, hasCount, isCount⟩ := here.counted
      rw [isCount] at positive
      obtain ⟨fd, file, isOpen⟩ := hasCount.exists positive
      exact ⟨fd, file, isOpen.1, (here.opened isOpen).2⟩

end VolumeSound

end Idylla.Ramfs
