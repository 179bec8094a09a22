import Idylla.Storage.BufferMoves
import Idylla.Storage.MsdosPart

namespace Idylla.Storage

open Idylla.Lib

/-!
# Access to partitions

`storage_read` and `storage_write` translate an offset inside of a partition
to a sector of the disk and clip the length to the partition.  The partition
is the minor number of the device node, which nothing compares with
`STORAGE_MAX_PARTS`; an index outside `parts` ends the model with `none`.
-/

/-- `DEV_MINOR(dev)`. -/
def devMinor (dev : BitVec 16) : Nat :=
  dev.toNat % 0x100

/-- `STORAGE_TYPE_DISK`. -/
def storageTypeDisk : UInt8 := 0x01

/-- The fields of `struct storage` that an access reads or writes. -/
structure StorageState where
  type : UInt8
  parts : Parts
  bufferList : List StorageBuffer

/-- The arguments of `storage_read` and `storage_write`. -/
structure Access where
  dev : BitVec 16
  buf : Memory Sector
  len : BitVec 32
  off : BitVec 64
  ticks : Nat

/-- The request passed on to the buffer cache. -/
def Access.request (access : Access) (rw : StorageRw)
    (len : BitVec 32) (off : BitVec 64) : Request where
  rw := rw
  buf := access.buf
  len := len.toNat
  off := off.toNat
  ticks := access.ticks

/-- The length that is left inside of the partition. -/
def clippedLen (part : StoragePartition) (access : Access) : BitVec 32 :=
  if part.size < (access.off + access.len.setWidth 64).toNat then
    BitVec.ofNat 32 (part.size - access.off.toNat)
  else
    access.len

/-- The common body of `storage_read` and `storage_write`. -/
def storageAccess (opsRead : OpsRead) (rw : StorageRw)
    (storage : StorageState) (access : Access) : Option Outcome :=
  let p := devMinor access.dev
  if storage.type = storageTypeDisk ∧ 0 < p then
    if inside : p - 1 < storageMaxParts then
      let part := storage.parts[p - 1]
      if part.type = 0 then
        some
          { buffers := storage.bufferList
            buf := access.buf
            result := .error Errno.ENODEV }
      else if part.size ≤ access.off.toNat then
        some
          { buffers := storage.bufferList
            buf := access.buf
            result := .ok 0 }
      else
        some (storageBufferRw opsRead storage.bufferList
          (access.request rw (clippedLen part access)
            (access.off + BitVec.ofNat 64 part.start)))
    else
      none
  else
    some (storageBufferRw opsRead storage.bufferList
      (access.request rw access.len access.off))

/-- `storage_read`. -/
def storageRead (opsRead : OpsRead) (storage : StorageState) (access : Access) :
    Option Outcome :=
  storageAccess opsRead StorageRw.read storage access

/-- `storage_write`. -/
def storageWrite
    (opsRead : OpsRead) (storage : StorageState) (access : Access) :
    Option Outcome :=
  storageAccess opsRead StorageRw.write storage access

/--
An access to a partition that moves `moved` sectors between the caller and the
sectors of the partition from `first` on.
-/
structure Confined
    (opsRead : OpsRead) (rw : StorageRw)
    (part : StoragePartition) (before : List StorageBuffer)
    (access : Access) (outcome : Outcome)
    (first moved : Nat) : Prop where
  /-- The request starts at its offset in the partition. -/
  starts : first = part.start + access.off.toNat
  /-- The sectors lie inside of the partition, or nothing is touched. -/
  inside : first + moved ≤ part.start + part.size ∨
      (moved = 0 ∧ outcome.buffers = before)
  /-- The cache is changed in these sectors only, and by writes only. -/
  updated : Updated (ReadFor opsRead access.ticks first (first + moved))
      (ChangedWithin rw first (first + moved))
      before outcome.buffers
  /-- The caller's memory is changed in these sectors only. -/
  kept : ∀ place, moved ≤ place → outcome.buf place = access.buf place
  /-- A write leaves the caller's memory alone. -/
  write : rw = StorageRw.write → outcome.buf = access.buf
  /-- The cache and the caller's memory agree on what was moved. -/
  served : ∀ place < moved,
      HoldsSector outcome.buffers (first + place) (outcome.buf place)
  /-- The count that is returned. -/
  counted : ∀ count, outcome.result = .ok count → count = moved

/-- The index is inside `parts`, and the access stays in its partition. -/
def Confines (opsRead : OpsRead) (rw : StorageRw)
    (storage : StorageState) (access : Access)
    (outcome : Option Outcome) : Prop :=
  ∃ after, outcome = some after ∧
    ∃ (index : Nat) (inside : index < storageMaxParts) (first moved : Nat),
      devMinor access.dev = index + 1 ∧
      Confined opsRead rw storage.parts[index] storage.bufferList access
        after first moved

variable {access : Access}

theorem clipped_inside {part : StoragePartition}
    (bounded : part.start + part.size ≤ 2 ^ 32)
    (reached : ¬ part.size ≤ access.off.toNat) :
    (access.off + BitVec.ofNat 64 part.start).toNat =
        part.start + access.off.toNat ∧
      access.off.toNat + (clippedLen part access).toNat ≤ part.size := by
  have wide : (access.len.setWidth 64).toNat = access.len.toNat := by
    rw [BitVec.toNat_setWidth]
    omega
  constructor
  · rw [BitVec.toNat_add, BitVec.toNat_ofNat]
    omega
  · unfold clippedLen
    rw [BitVec.toNat_add, wide]
    split
    · rw [BitVec.toNat_ofNat]
      omega
    · omega

theorem confined_untouched (opsRead : OpsRead) (rw : StorageRw)
    (part : StoragePartition) (before : List StorageBuffer) (access : Access)
    {result : Except Errno Nat}
    (nothing : ∀ count, result = .ok count → count = 0) :
    Confined opsRead rw part before access
      { buffers := before, buf := access.buf, result := result }
      (part.start + access.off.toNat) 0 where
  starts := rfl
  inside := Or.inr ⟨rfl, rfl⟩
  updated := Updated.refl (ChangedWithin.refl rw _ _) before
  kept := fun _ _ => rfl
  write := fun _ => rfl
  served := fun place below => absurd below (Nat.not_lt_zero place)
  counted := nothing

theorem confined_request (opsRead : OpsRead) (rw : StorageRw)
    {part : StoragePartition} (before : List StorageBuffer)
    (bounded : part.start + part.size ≤ 2 ^ 32)
    (reached : ¬ part.size ≤ access.off.toNat) :
    ∃ moved,
      Confined opsRead rw part before access
        (storageBufferRw opsRead before
          (access.request rw (clippedLen part access)
            (access.off + BitVec.ofNat 64 part.start)))
        (part.start + access.off.toNat) moved := by
  obtain ⟨absolute, clipped⟩ := clipped_inside bounded reached
  obtain ⟨moved, last, moves, buf, counted⟩ :=
    storageBufferRw_moves opsRead before
      (access.request rw (clippedLen part access)
        (access.off + BitVec.ofNat 64 part.start))
  have first :
      (access.request rw (clippedLen part access)
        (access.off + BitVec.ofNat 64 part.start)).cursor.off =
        part.start + access.off.toNat := absolute
  have left := moves.left
  change _ = (clippedLen part access).toNat at left
  have off := moves.off
  have done := moves.done
  change last.done = 0 + moved at done
  have updated := moves.updated
  rw [off, first] at updated
  refine ⟨moved, rfl, Or.inl (by omega), updated, ?_, ?_, ?_, counted⟩
  · intro place behind
    rw [buf]
    exact moves.kept place (by omega)
  · intro isWrite
    rw [buf]
    exact moves.write isWrite
  · intro place below
    have served := moves.served place below
    rw [first] at served
    rw [buf]
    have cell :
        (access.request rw (clippedLen part access)
          (access.off + BitVec.ofNat 64 part.start)).cursor.done + place =
          place := Nat.zero_add place
    rw [cell] at served
    exact served

theorem storageAccess_outside (opsRead : OpsRead) (rw : StorageRw)
    {storage : StorageState} (isDisk : storage.type = storageTypeDisk)
    (behind : storageMaxParts < devMinor access.dev) :
    storageAccess opsRead rw storage access = none := by
  have partition : 0 < devMinor access.dev := by omega
  unfold storageAccess
  rw [if_pos ⟨isDisk, partition⟩, dif_neg (by omega)]

theorem storageAccess_confines (opsRead : OpsRead) (rw : StorageRw)
    {storage : StorageState} (isDisk : storage.type = storageTypeDisk)
    (bounded :
      ∀ (i : Nat) (inside : i < storageMaxParts),
        storage.parts[i].start + storage.parts[i].size ≤ 2 ^ 32)
    (partition : 0 < devMinor access.dev)
    (known : devMinor access.dev ≤ storageMaxParts) :
    Confines opsRead rw storage access
      (storageAccess opsRead rw storage access) := by
  have inside : devMinor access.dev - 1 < storageMaxParts := by omega
  unfold storageAccess
  dsimp only
  rw [if_pos ⟨isDisk, partition⟩, dif_pos inside]
  have minor : devMinor access.dev = devMinor access.dev - 1 + 1 := by
    omega
  split
  · exact ⟨_, rfl, _, inside, _, 0, minor,
      confined_untouched opsRead rw _ _ access
        fun count counts => by cases counts⟩
  · split
    · exact ⟨_, rfl, _, inside, _, 0, minor,
        confined_untouched opsRead rw _ _ access
          fun count counts => by cases counts; rfl⟩
    next reached =>
      obtain ⟨moved, confined⟩ :=
        confined_request opsRead rw storage.bufferList (bounded _ inside)
          reached
      exact ⟨_, rfl, _, inside, _, moved, minor, confined⟩

/--
For every partition of a disk, offset and length: `storage_read` and
`storage_write` stay inside of `parts` and of the partition exactly when the
minor number is one of the table.
-/
theorem storageAccess_confined_iff
    (opsRead : OpsRead) (storage : StorageState) (access : Access)
    (isDisk : storage.type = storageTypeDisk)
    (bounded :
      ∀ (i : Nat) (inside : i < storageMaxParts),
        storage.parts[i].start + storage.parts[i].size ≤ 2 ^ 32)
    (partition : 0 < devMinor access.dev) :
    (Confines opsRead StorageRw.read storage access
        (storageRead opsRead storage access) ∧
      Confines opsRead StorageRw.write storage access
        (storageWrite opsRead storage access)) ↔
      devMinor access.dev ≤ storageMaxParts := by
  constructor
  · rintro ⟨⟨after, reads, _⟩, _⟩
    apply Decidable.byContradiction
    intro behind
    have outside :=
      storageAccess_outside opsRead StorageRw.read isDisk
        (Nat.lt_of_not_le behind)
    rw [storageRead, outside] at reads
    cases reads
  · intro known
    exact ⟨
      storageAccess_confines opsRead StorageRw.read isDisk bounded partition
        known,
      storageAccess_confines opsRead StorageRw.write isDisk bounded
        partition known⟩

/-- A disk with one partition of five sectors and an empty cache. -/
def onePartition : StorageState where
  type := storageTypeDisk
  parts :=
    Vector.ofFn fun i : Fin storageMaxParts =>
      if i.val = 0 then { start := 2, size := 5, type := 0x83 }
      else noPartition
  bufferList := []

/-- A request of four sectors at sector 3 of a partition. -/
def fourSectors (dev : BitVec 16) : Access where
  dev := dev
  buf := fun _ => Vector.replicate 512 0
  len := 4
  off := 3
  ticks := 0

/-- A device all of whose sectors are zero. -/
def zeroRead : OpsRead :=
  fun _ => some fun _ => Vector.replicate 512 0

theorem onePartition_bounded (i : Nat) (inside : i < storageMaxParts) :
    onePartition.parts[i].start + onePartition.parts[i].size ≤ 2 ^ 32 := by
  unfold onePartition
  rw [Vector.getElem_ofFn]
  split <;> decide

/-- The first partition confines the request. -/
theorem onePartition_confined :
    Confines zeroRead StorageRw.read onePartition (fourSectors 1)
        (storageRead zeroRead onePartition (fourSectors 1)) ∧
      Confines zeroRead StorageRw.write onePartition (fourSectors 1)
        (storageWrite zeroRead onePartition (fourSectors 1)) :=
  (storageAccess_confined_iff zeroRead onePartition (fourSectors 1)
    rfl onePartition_bounded (by decide)).mpr (by decide)

/-- Not every minor number is confined to a partition. -/
theorem storageAccess_not_confined :
    ¬ ∀ (opsRead : OpsRead) (storage : StorageState) (access : Access),
      storage.type = storageTypeDisk →
      (∀ (i : Nat) (inside : i < storageMaxParts),
        storage.parts[i].start + storage.parts[i].size ≤ 2 ^ 32) →
      0 < devMinor access.dev →
      Confines opsRead StorageRw.read storage access
          (storageRead opsRead storage access) ∧
        Confines opsRead StorageRw.write storage access
          (storageWrite opsRead storage access) := by
  intro always
  obtain ⟨⟨after, reads, _⟩, _⟩ :=
    always zeroRead onePartition (fourSectors 17) rfl
      onePartition_bounded (by decide)
  cases reads

end Idylla.Storage
