import Mathlib.Algebra.Order.BigOperators.Group.Finset
import Mathlib.Algebra.Order.Group.Int
import Idylla.Ramfs.FileLifetimes

namespace Idylla.Ramfs

open Idylla.Lib

/-!
# The space of a volume

`super->used` is the sum of the sizes of the files as long as every write fits
and no file is cleared that has bytes: nothing subtracts from it, and the test
for free space lets every write pass that makes a file longer.
-/

namespace RamfsVolume

variable (volume : RamfsVolume)

/-- The sum of the sizes of the files whose inodes are in the table. -/
def totalSize : Int :=
  (Finset.range volume.inodes).sum fun i => volume.sizeAt (i + 1)

/-- The space that is used is that of the files, and there is no more. -/
def Accounted : Prop :=
  (volume.space.used : Int) = volume.totalSize ∧
    volume.space.used ≤ volume.space.size

/-- The space is enough for a write to a file. -/
def HasSpace (num fileEnd : Nat) : Prop :=
  volume.space.used - volume.sizeAt num +
      max (volume.sizeAt num) (fileEnd : Int) ≤
    volume.space.size

end RamfsVolume

/--
A write succeeds where the space is enough, and else fails with `-ENOSPC` and
changes nothing.
-/
def AnswersWrites (volume : RamfsVolume) (call : VolumeCall)
    (outcome : RamfsOutcome) : Prop :=
  ∀ fd buf offset fresh file, call = .sysWrite fd buf offset fresh none →
    volume.files.cells fd = some file →
    (volume.HasSpace file.ino (offset + buf.length) →
      outcome.result = .ok buf.length) ∧
    (¬ volume.HasSpace file.ino (offset + buf.length) →
      outcome = { volume := volume, result := .error .ENOSPC })

/-- Writes fit, and no call clears the slot of a file that has bytes. -/
def KeepsSpace (volume : RamfsVolume) (call : VolumeCall) : Prop :=
  (∀ fd buf offset fresh file, call = .sysWrite fd buf offset fresh none →
    volume.files.cells fd = some file →
    volume.HasSpace file.ino (offset + buf.length)) ∧
  ∀ num id inode, volume.fileAt num = some (id, inode) →
    ClearedBy volume id call →
    inode.size = 0

section Sums

variable {volume after : RamfsVolume} {num : Nat}

theorem sizeAt_outside (tree : TreeSound volume.tree)
    (outside : volume.inodes < num) : volume.sizeAt num = 0 := by
  unfold RamfsVolume.sizeAt
  cases isFile : volume.fileAt num with
  | none =>
    rfl
  | some file =>
    have isSlot := tree_slots_file.mpr ⟨file.2, isFile⟩
    exact absurd (tree.numbers isSlot).2 (Nat.not_le.mpr outside)

theorem totalSize_congr (tree : TreeSound volume.tree)
    (inodes : volume.inodes ≤ after.inodes)
    (sizes : ∀ num, after.sizeAt num = volume.sizeAt num) :
    after.totalSize = volume.totalSize := by
  unfold RamfsVolume.totalSize
  simp only [sizes]
  refine (Finset.sum_subset (Finset.range_mono inodes) ?_).symm
  intro i _ outside
  rw [Finset.mem_range] at outside
  exact sizeAt_outside tree (by omega)

theorem totalSize_change {size : Int} (tree : TreeSound volume.tree)
    (inodes : volume.inodes ≤ after.inodes) (positive : 0 < num)
    (inside : num ≤ volume.inodes)
    (sizes :
      ∀ other,
        after.sizeAt other =
          if other = num then size else volume.sizeAt other) :
    after.totalSize + volume.sizeAt num = volume.totalSize + size := by
  have longer :
      (Finset.range after.inodes).sum (fun i => volume.sizeAt (i + 1)) =
        volume.totalSize :=
    @totalSize_congr volume { volume with inodes := after.inodes } tree
      inodes fun _ => rfl
  have member : num - 1 ∈ Finset.range after.inodes := by
    rw [Finset.mem_range]
    omega
  have isNum : num - 1 + 1 = num := Nat.sub_add_cancel positive
  rw [← longer]
  unfold RamfsVolume.totalSize
  rw [← Finset.add_sum_erase _ (fun i => after.sizeAt (i + 1)) member,
    ← Finset.add_sum_erase _ (fun i => volume.sizeAt (i + 1)) member]
  have others : ((Finset.range after.inodes).erase (num - 1)).sum
          (fun i => after.sizeAt (i + 1)) =
        ((Finset.range after.inodes).erase (num - 1)).sum
          (fun i => volume.sizeAt (i + 1)) := by
    refine Finset.sum_congr rfl fun i isOther => ?_
    have differs := (Finset.mem_erase.mp isOther).1
    rw [sizes, if_neg (by omega)]
  rw [others, isNum, sizes num, if_pos rfl]
  omega

theorem sizeAt_le_totalSize (inside : num ≤ volume.inodes) (positive : 0 < num)
    (natural : ∀ other, 0 ≤ volume.sizeAt other) :
    volume.sizeAt num ≤ volume.totalSize := by
  have member : num - 1 ∈ Finset.range volume.inodes := by
    rw [Finset.mem_range]
    omega
  have single := Finset.single_le_sum (fun i _ => natural (i + 1)) member
  rw [Nat.sub_add_cancel positive] at single
  exact single

end Sums

/-- What calls that keep the space leave. -/
structure SpaceSound (volume : RamfsVolume) : Prop where
  sound : VolumeSound none volume
  accounted : volume.Accounted
  limit : volume.space.size = RAMFS_DEFAULT_SIZE
  natural : ∀ num, 0 ≤ volume.sizeAt num

section Writes

variable {space : RamfsSpace} {inode : FileInode}
  {buf : List (BitVec 8)} {offset : Nat} {fresh : Memory (BitVec 8)}
  {written : RamfsWritten}

theorem ramfsWrite_succeeds (natural : 0 ≤ inode.size)
    (within : inode.size ≤ space.used) (limit : space.used ≤ space.size)
    (isDefault : space.size = RAMFS_DEFAULT_SIZE)
    (wrote : ramfsWrite space inode buf offset fresh = some written) :
    written.result = .ok buf.length := by
  unfold RAMFS_DEFAULT_SIZE at isDefault
  unfold ramfsWrite at wrote
  dsimp only at wrote
  have upper : toLoff (offset + buf.length : Nat) < 2 ^ 63 := by
    exact Int.bmod_lt (by decide)
  split at wrote
  next longer =>
    split at wrote
    next isFull =>
      have sum : toSize (space.used + inode.size) =
          space.used + inode.size := by
        unfold toSize
        omega
      rw [sum, toLoff_of_le (by omega) (by omega)] at isFull
      omega
    · obtain ⟨stored, -, rfl⟩ := Option.map_eq_some_iff.mp wrote
      rfl
  · obtain ⟨stored, -, rfl⟩ := Option.map_eq_some_iff.mp wrote
    rfl

/-- A write for which there is space uses what the file grows by. -/
theorem ramfsWrite_used (natural : 0 ≤ inode.size)
    (within : inode.size ≤ space.used) (limit : space.used ≤ space.size)
    (isDefault : space.size = RAMFS_DEFAULT_SIZE)
    (fits :
      space.used - inode.size +
          max inode.size (offset + buf.length : Nat) ≤ space.size)
    (wrote : ramfsWrite space inode buf offset fresh = some written) :
    written.inode.size = max inode.size (offset + buf.length : Nat) ∧
      written.space.size = space.size ∧
      (written.space.used : Int) =
        space.used - inode.size +
          max inode.size (offset + buf.length : Nat) := by
  have succeeds := ramfsWrite_succeeds natural within limit isDefault wrote
  unfold RAMFS_DEFAULT_SIZE at isDefault
  have isEnd :
      toLoff (offset + buf.length : Nat) = (offset + buf.length : Nat) :=
    toLoff_of_le (by omega) (by omega)
  unfold ramfsWrite at wrote
  dsimp only at wrote
  rw [isEnd] at wrote
  split at wrote
  next longer =>
    split at wrote
    · obtain rfl := Option.some.inj wrote
      cases succeeds
    · obtain ⟨stored, isStored, rfl⟩ := Option.map_eq_some_iff.mp wrote
      have size := (FileInode.store_some isStored).2.1
      dsimp only at size ⊢
      rw [toOff_of_lt (by omega)] at size
      refine ⟨?_, rfl, ?_⟩
      · omega
      · unfold toSize
        omega
  next notLonger =>
    obtain ⟨stored, isStored, rfl⟩ := Option.map_eq_some_iff.mp wrote
    have size := (FileInode.store_some isStored).2.1
    refine ⟨?_, rfl, ?_⟩
    · rw [size]
      omega
    · show (space.used : Int) = _
      omega

end Writes

namespace SpaceSound

variable {volume after : RamfsVolume} {call : VolumeCall}
  {outcome : RamfsOutcome}

theorem mounted : SpaceSound .mounted := by
  have noFiles (num : Nat) : RamfsVolume.mounted.sizeAt num = 0 := by
    show ((if num = RAMFS_ROOT_INODE then _ else none).bind _).elim _ _ = _
    split <;> rfl
  refine ⟨mounted_sound, ⟨?_, Nat.zero_le _⟩, rfl,
    fun num => Int.le_of_eq (noFiles num).symm⟩
  rfl

theorem quiet
    (spaceSound : SpaceSound volume) (soundAfter : VolumeSound none after)
    (isQuiet : Quiet volume after) : SpaceSound after := by
  have total :=
    totalSize_congr spaceSound.sound.tree isQuiet.inodes isQuiet.sizes
  refine ⟨soundAfter, ?_, ?_, fun num => ?_⟩
  · unfold RamfsVolume.Accounted
    rw [isQuiet.space, total]
    exact spaceSound.accounted
  · rw [isQuiet.space]
    exact spaceSound.limit
  · rw [isQuiet.sizes]
    exact spaceSound.natural num

theorem writes (spaceSound : SpaceSound volume)
    (soundAfter : VolumeSound none outcome.volume)
    {fd offset : Nat} {buf : List (BitVec 8)} {fresh : Memory (BitVec 8)}
    (writes : WritesFile volume fd buf offset fresh outcome) :
    ∃ file, volume.files.cells fd = some file ∧
      outcome.result = .ok buf.length ∧
      (volume.HasSpace file.ino (offset + buf.length) →
        SpaceSound outcome.volume) := by
  obtain ⟨file, inode, written, isOpen, isFile, wrote, isResult, isSpace,
    sizes⟩ := writes.wrote
  have isSize : volume.sizeAt file.ino = inode.size := by
    unfold RamfsVolume.sizeAt
    rw [isFile]
    rfl
  have natural := spaceSound.natural file.ino
  obtain ⟨isUsed, limit⟩ := spaceSound.accounted
  obtain ⟨positive, inside⟩ :=
    spaceSound.sound.tree.numbers (tree_slots_file.mpr ⟨inode, isFile⟩)
  have within : volume.sizeAt file.ino ≤ volume.space.used := by
    rw [isUsed]
    exact sizeAt_le_totalSize inside positive spaceSound.natural
  rw [isSize] at natural within
  refine ⟨file, isOpen, ?_, fun hasSpace => ?_⟩
  · rw [isResult]
    exact ramfsWrite_succeeds natural within limit spaceSound.limit wrote
  · unfold RamfsVolume.HasSpace at hasSpace
    rw [isSize] at hasSpace
    obtain ⟨newSize, sameLimit, newUsed⟩ :=
      ramfsWrite_used natural within limit spaceSound.limit hasSpace wrote
    have total :=
      totalSize_change spaceSound.sound.tree
        (Nat.le_of_eq writes.inodes.symm) positive inside sizes
    refine ⟨soundAfter, ⟨?_, ?_⟩, ?_, fun num => ?_⟩
    · rw [isSpace]
      omega
    · rw [isSpace, sameLimit]
      omega
    · rw [isSpace, sameLimit]
      exact spaceSound.limit
    · rw [sizes]
      split
      · omega
      · exact spaceSound.natural num

theorem clears
    (spaceSound : SpaceSound volume) (soundAfter : VolumeSound none after)
    {num id : Nat} (clears : Clears volume num id after) :
    (after.Accounted ↔ volume.sizeAt num = 0) ∧
      (volume.sizeAt num = 0 → SpaceSound after) := by
  obtain ⟨inode, isFile⟩ := clears.isFile
  obtain ⟨positive, inside⟩ :=
    spaceSound.sound.tree.numbers (tree_slots_file.mpr ⟨inode, isFile⟩)
  have total :=
    totalSize_change spaceSound.sound.tree clears.inodes positive inside
      clears.sizes
  obtain ⟨isUsed, limit⟩ := spaceSound.accounted
  have accounted : after.Accounted ↔ volume.sizeAt num = 0 := by
    unfold RamfsVolume.Accounted
    rw [clears.space]
    omega
  refine ⟨accounted, fun isEmpty =>
    ⟨soundAfter, accounted.mpr isEmpty, ?_, fun other => ?_⟩⟩
  · rw [clears.space]
    exact spaceSound.limit
  · rw [clears.sizes]
    split
    · exact Int.le_refl 0
    · exact spaceSound.natural other

theorem step (spaceSound : SpaceSound volume)
    (runs : call.run volume = some outcome) :
    (AnswersWrites volume call outcome ∧ outcome.volume.Accounted ↔
      KeepsSpace volume call) ∧
    (KeepsSpace volume call → SpaceSound outcome.volume) := by
  obtain ⟨soundAfter, other, runsToo, -, effect⟩ :=
    volumeStep_cases spaceSound.sound ⟨outcome, runs, rfl⟩
  rw [runs] at runsToo
  cases runsToo
  cases effect with
  | quiet isQuiet notWritten notCleared =>
    have after := spaceSound.quiet soundAfter isQuiet
    refine ⟨iff_of_true ⟨?_, after.accounted⟩ ⟨?_, ?_⟩, fun _ => after⟩
    · intro fd buf offset fresh file isWrite isOpen
      rw [notWritten fd buf offset fresh isWrite] at isOpen
      cases isOpen
    · intro fd buf offset fresh file isWrite isOpen
      rw [notWritten fd buf offset fresh isWrite] at isOpen
      cases isOpen
    · exact fun num id inode _ clearedBy => absurd clearedBy (notCleared id)
  | writes isWrite =>
    obtain ⟨file, isOpen, isResult, keeps⟩ :=
      spaceSound.writes soundAfter isWrite
    refine ⟨⟨fun ⟨answers, _⟩ => ⟨?_, ?_⟩, fun keepsSpace => ⟨?_, ?_⟩⟩,
      fun keepsSpace => ?_⟩
    · intro fd buf offset fresh other same isOther
      cases same
      refine Classical.byContradiction fun noSpace => ?_
      have refused := (answers _ _ _ _ other rfl isOther).2 noSpace
      rw [refused] at isResult
      cases isResult
    · exact fun _ _ _ _ impossible => impossible.elim
    · intro fd buf offset fresh other same isOther
      cases same
      refine ⟨fun _ => isResult, fun noSpace => ?_⟩
      exact absurd (keepsSpace.1 _ _ _ _ other rfl isOther) noSpace
    · exact (keeps (keepsSpace.1 _ _ _ _ file rfl isOpen)).accounted
    · exact keeps (keepsSpace.1 _ _ _ _ file rfl isOpen)
  | @clears num id _ _ isClear clearedBy =>
    obtain ⟨accounted, keeps⟩ := spaceSound.clears soundAfter isClear
    obtain ⟨inode, isFile⟩ := isClear.isFile
    have isSize : volume.sizeAt num = inode.size := by
      unfold RamfsVolume.sizeAt
      rw [isFile]
      rfl
    rw [isSize] at accounted keeps
    refine ⟨⟨fun ⟨_, isAccounted⟩ => ⟨?_, ?_⟩,
      fun keepsSpace => ⟨?_, ?_⟩⟩, fun keepsSpace => ?_⟩
    · rintro fd buf offset fresh file rfl
      exact clearedBy.elim
    · intro other also inodeAlso isAlso alsoCleared
      obtain rfl := clearedBy_unique clearedBy alsoCleared
      obtain rfl :=
        spaceSound.sound.tree.slotOnce (tree_slots_file.mpr ⟨inode, isFile⟩)
          (tree_slots_file.mpr ⟨inodeAlso, isAlso⟩)
      rw [isFile] at isAlso
      cases isAlso
      exact accounted.mp isAccounted
    · rintro fd buf offset fresh file rfl
      exact clearedBy.elim
    · exact accounted.mpr (keepsSpace.2 num id inode isFile clearedBy)
    · exact keeps (keepsSpace.2 num id inode isFile clearedBy)

end SpaceSound

end Idylla.Ramfs
