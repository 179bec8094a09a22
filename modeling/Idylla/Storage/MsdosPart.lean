import Idylla.Storage.Buffer
import Mathlib.Algebra.Group.Nat.Defs

namespace Idylla.Storage

/-!
# MS-DOS partition detection

`partirion_msdos_detect` reads the master boot record and, for every extended
primary partition, a chain of extended boot records.  A write outside
`parts[0] .. parts[STORAGE_MAX_PARTS - 1]` ends the model with `none`.
-/

/-- `STORAGE_MAX_PARTS`. -/
abbrev storageMaxParts : Nat := 0x10

/-- The fields of `struct msdos_partition` that the driver reads. -/
structure MsdosPartition where
  fsid : UInt8
  lbaStart : Nat
  size : Nat
  deriving DecidableEq

/-- A little-endian `uint32_t`. -/
def littleEndian (b0 b1 b2 b3 : UInt8) : Nat :=
  b0.toNat + 0x100 * b1.toNat + 0x10000 * b2.toNat + 0x1000000 * b3.toNat

/-- Byte `k` of the entry `partitions[i]`. -/
def Sector.entryByte (sector : Sector) (i : Fin 4) (k : Fin 16) : UInt8 :=
  sector[0x1BE + 16 * i.val + k.val]

/-- `partitions[i]` of a sector read as `struct msdos_mbr` or `msdos_ebr`. -/
def Sector.partitions (sector : Sector) (i : Fin 4) : MsdosPartition where
  fsid := sector.entryByte i 4
  lbaStart :=
    littleEndian (sector.entryByte i 8) (sector.entryByte i 9)
      (sector.entryByte i 10) (sector.entryByte i 11)
  size :=
    littleEndian (sector.entryByte i 12) (sector.entryByte i 13)
      (sector.entryByte i 14) (sector.entryByte i 15)

/-- The test `(magic[0] != 0x55) && (magic[1] != 0xAA)`. -/
def Sector.rejected (sector : Sector) : Bool :=
  sector[510] != 0x55 && sector[511] != 0xAA

/-- What the format asks for: the last two bytes are `0x55`, `0xAA`. -/
def Sector.signed (sector : Sector) : Bool :=
  sector[510] == 0x55 && sector[511] == 0xAA

/-- `(fsid == 0x05) || (fsid == 0x0F)`. -/
def MsdosPartition.extended (partition : MsdosPartition) : Bool :=
  partition.fsid == 0x05 || partition.fsid == 0x0F

/-- `struct storage_partition`. -/
structure StoragePartition where
  start : Nat
  size : Nat
  type : UInt8
  deriving DecidableEq

/-- `storage->parts`. -/
abbrev Parts := Vector StoragePartition storageMaxParts

/-- The contents of `parts` after `memset`. -/
def noPartition : StoragePartition where
  start := 0
  size := 0
  type := 0

/-- `parts` of a new storage. -/
def noParts : Parts :=
  Vector.replicate storageMaxParts noPartition

/-- Store to `parts[i]`; `none` when the index is outside the array. -/
def storePart
    (parts : Parts) (i : Nat) (part : StoragePartition) : Option Parts :=
  if inside : i < storageMaxParts then
    some (parts.set i part)
  else
    none

/-- The record stored for the boot record at `off`. -/
def logicalPart (base off : Nat) (ebr : Sector) : StoragePartition where
  start := base + off + (ebr.partitions 0).lbaStart
  size := (ebr.partitions 0).size
  type := (ebr.partitions 0).fsid

/-- `(partitions[1].lba_start != 0) && (partitions[1].size != 0)`. -/
def Sector.linked (ebr : Sector) : Bool :=
  (ebr.partitions 1).lbaStart != 0 && (ebr.partitions 1).size != 0

/-- `storage->ops->read` of one sector; `none` when it does not return 1. -/
abbrev SectorRead := Nat → Option Sector

/-- The `do … while` over extended boot records. -/
def readLogical (opsRead : SectorRead) (base : Nat)
    (parts : Parts) (tmp off : Nat) : Option (Parts × Nat) :=
  match opsRead off with
  | none => some (parts, tmp)
  | some ebr =>
    if ebr.rejected then
      some (parts, tmp)
    else
      match storePart parts tmp (logicalPart base off ebr) with
      | none => none
      | some stored =>
        if ebr.linked ∧ tmp + 1 < 14 then
          readLogical opsRead base stored (tmp + 1) (ebr.partitions 1).lbaStart
        else
          some (stored, tmp + 1)
termination_by 14 - tmp

/-- The record stored for a primary entry. -/
def primaryPart (partition : MsdosPartition) : StoragePartition where
  start := partition.lbaStart
  size := partition.size
  type := partition.fsid

/-- One iteration of the loop over the primary entries. -/
def detectPrimary (opsRead : SectorRead) (mbr : Sector)
    (state : Parts × Nat) (i : Fin 4) : Option (Parts × Nat) :=
  let partition := mbr.partitions i
  if partition.fsid = 0 then
    some state
  else
    match storePart state.1 i.val (primaryPart partition) with
    | none => none
    | some stored =>
      if partition.extended then
        -- the first boot record is read from sector 0
        readLogical opsRead partition.lbaStart stored state.2 0
      else
        some (stored, state.2)

/-- `partirion_msdos_detect`. -/
def partirionMsdosDetect
    (opsRead : SectorRead) (parts : Parts) : Option Parts :=
  match opsRead 0 with
  | none => some parts
  | some mbr =>
    if mbr.rejected then
      some parts
    else
      ([0, 1, 2, 3].foldlM (detectPrimary opsRead mbr) (noParts, 4)).map
        Prod.fst

/-- The logical partition that the format sees in the boot record. -/
def formatRecord (disk : Nat → Sector) (sector : Nat) : StoragePartition where
  start := sector + ((disk sector).partitions 0).lbaStart
  size := ((disk sector).partitions 0).size
  type := ((disk sector).partitions 0).fsid

/-- The sector the second entry leads to, counted from `base`. -/
def linkFrom (disk : Nat → Sector) (base sector : Nat) : Option Nat :=
  if (disk sector).linked then
    some (base + ((disk sector).partitions 1).lbaStart)
  else
    none

/-- Store consecutive records from `parts[tmp]` on. -/
def storeParts :
    Parts → Nat → List StoragePartition → Option Parts
  | parts, _, [] => some parts
  | parts, tmp, part :: rest =>
    (storePart parts tmp part).bind fun stored =>
      storeParts stored (tmp + 1) rest

/--
The records of the boot records met from sector `off` on, at most `limit` of
them, each link taken as a sector number.
-/
def bootRecords (opsRead : SectorRead) (base : Nat) :
    Nat → Nat → List StoragePartition
  | 0, _ => []
  | limit + 1, off =>
    match opsRead off with
    | none => []
    | some ebr =>
      if ebr.rejected then
        []
      else
        logicalPart base off ebr ::
          if ebr.linked then
            bootRecords opsRead base limit (ebr.partitions 1).lbaStart
          else
            []

theorem storePart_isSome (parts : Parts) (i : Nat) (part : StoragePartition) :
    (storePart parts i part).isSome = decide (i < storageMaxParts) := by
  unfold storePart
  split <;> simp_all

theorem storePart_some
    {parts stored : Parts} {i : Nat} {part : StoragePartition}
    (stores : storePart parts i part = some stored) :
    i < storageMaxParts ∧
      ∀ (k : Nat) (inside : k < storageMaxParts),
        stored[k] = if k = i then part else parts[k] := by
  unfold storePart at stores
  split at stores
  next inside =>
    cases stores
    refine ⟨inside, fun k below => ?_⟩
    rw [Vector.getElem_set]
    simp only [eq_comm]
  next => cases stores

theorem storeParts_isSome
    (parts : Parts) (tmp : Nat) (records : List StoragePartition) :
    (storeParts parts tmp records).isSome ↔
      records = [] ∨ tmp + records.length ≤ storageMaxParts := by
  induction records generalizing parts tmp with
  | nil => simp [storeParts]
  | cons part rest ih =>
    rw [storeParts]
    cases stores : storePart parts tmp part with
    | none =>
      have outside := storePart_isSome parts tmp part
      rw [stores] at outside
      simp at outside ⊢
      omega
    | some stored =>
      have inside := (storePart_some stores).1
      have tail := ih stored (tmp + 1)
      simp only [Option.bind_some, reduceCtorEq, false_or, List.length_cons]
      rw [tail]
      cases rest with
      | nil => simp; omega
      | cons next later => simp; omega

theorem storeParts_some
    {parts stored : Parts} {tmp : Nat} {records : List StoragePartition}
    (stores : storeParts parts tmp records = some stored)
    (k : Nat) (inside : k < storageMaxParts) :
    stored[k] =
      if k < tmp then parts[k] else records[k - tmp]?.getD parts[k] := by
  induction records generalizing parts tmp with
  | nil =>
    cases stores
    simp
  | cons part rest ih =>
    obtain ⟨middle, first, later⟩ := Option.bind_eq_some_iff.mp stores
    have slot := (storePart_some first).2 k inside
    rw [ih later, slot]
    by_cases before : k < tmp
    · rw [if_pos (by omega), if_neg (by omega), if_pos before]
    · by_cases here : k = tmp
      · subst here
        simp
      · obtain ⟨ahead, rfl⟩ : ∃ ahead, k = tmp + 1 + ahead :=
          ⟨k - (tmp + 1), by omega⟩
        rw [if_neg (by omega), if_neg (by omega), if_neg (by omega)]
        have shift : tmp + 1 + ahead - tmp = ahead + 1 := by omega
        rw [shift, List.getElem?_cons_succ]
        simp

theorem bootRecords_length_le (opsRead : SectorRead) (base limit off : Nat) :
    (bootRecords opsRead base limit off).length ≤ limit := by
  induction limit generalizing off with
  | zero => simp [bootRecords]
  | succ limit ih =>
    rw [bootRecords]
    cases opsRead off with
    | none => simp
    | some ebr =>
      dsimp only
      split
      · simp
      · have rest := ih (ebr.partitions 1).lbaStart
        split
        · simpa using rest
        · simp

/-- The loop stores the boot records it meets, and at least one round runs. -/
theorem readLogical_eq (opsRead : SectorRead) (base : Nat)
    (parts : Parts) (tmp off : Nat) :
    readLogical opsRead base parts tmp off =
      (storeParts parts tmp
        (bootRecords opsRead base (max 1 (14 - tmp)) off)).map
        fun stored =>
          (stored,
            tmp +
              (bootRecords opsRead base (max 1 (14 - tmp)) off).length) := by
  obtain ⟨limit, limitEq⟩ : ∃ limit, max 1 (14 - tmp) = limit + 1 :=
    ⟨max 1 (14 - tmp) - 1, by omega⟩
  induction limit generalizing parts tmp off with
  | zero =>
    rw [readLogical, limitEq, bootRecords]
    cases opsRead off with
    | none => rfl
    | some ebr =>
      dsimp only
      split
      · rfl
      · have last : ¬ tmp + 1 < 14 := by omega
        cases stores : storePart parts tmp (logicalPart base off ebr) with
        | none => simp [storeParts, stores]
        | some stored => simp [last, storeParts, bootRecords, stores]
  | succ limit ih =>
    have before : tmp + 1 < 14 := by omega
    have next : max 1 (14 - (tmp + 1)) = limit + 1 := by omega
    rw [readLogical, limitEq, bootRecords]
    cases opsRead off with
    | none => rfl
    | some ebr =>
      dsimp only
      by_cases rejected : ebr.rejected
      · rw [if_pos rejected, if_pos rejected]
        rfl
      · rw [if_neg rejected, if_neg rejected, storeParts]
        cases storePart parts tmp (logicalPart base off ebr) with
        | none => rfl
        | some stored =>
          dsimp only [Option.bind_some]
          by_cases linked : ebr.linked
          · rw [if_pos ⟨linked, before⟩, if_pos linked,
              ih _ _ _ next, next, List.length_cons]
            simp only [Nat.add_assoc, Nat.add_comm 1]
          · rw [if_neg (fun both => linked both.1), if_neg linked]
            rfl

/-- The number of boot records met from sector `off` on, counted to `limit`. -/
def chainLength (opsRead : SectorRead) : Nat → Nat → Nat
  | 0, _ => 0
  | limit + 1, off =>
    match opsRead off with
    | none => 0
    | some ebr =>
      if ebr.rejected then
        0
      else if ebr.linked then
        chainLength opsRead limit (ebr.partitions 1).lbaStart + 1
      else
        1

theorem chainLength_succ (opsRead : SectorRead) (limit off : Nat) :
    chainLength opsRead (limit + 1) off =
      match opsRead off with
      | none => 0
      | some ebr =>
        if ebr.rejected then 0
        else if ebr.linked then
          chainLength opsRead limit (ebr.partitions 1).lbaStart + 1
        else 1 := rfl

theorem bootRecords_length (opsRead : SectorRead) (base limit off : Nat) :
    (bootRecords opsRead base limit off).length =
      chainLength opsRead limit off := by
  induction limit generalizing off with
  | zero => rfl
  | succ limit ih =>
    rw [bootRecords, chainLength_succ]
    cases opsRead off with
    | none => rfl
    | some ebr =>
      dsimp only
      split
      · rfl
      · split
        · rw [List.length_cons, ih]
        · rfl

theorem chainLength_of_le (opsRead : SectorRead) {limit bound : Nat}
    (below : limit ≤ bound) (off : Nat) :
    chainLength opsRead limit off =
      min limit (chainLength opsRead bound off) := by
  induction limit generalizing bound off with
  | zero => exact (Nat.zero_min _).symm
  | succ limit ih =>
    cases bound with
    | zero => omega
    | succ bound =>
      rw [chainLength_succ, chainLength_succ]
      cases opsRead off with
      | none => simp
      | some ebr =>
        dsimp only
        split
        · simp
        · split
          · rw [ih (by omega : limit ≤ bound), Nat.add_min_add_right]
          · omega

theorem chainLength_pos {opsRead : SectorRead} {off : Nat} {ebr : Sector}
    (isRead : opsRead off = some ebr) (accepted : ¬ ebr.rejected = true)
    (limit : Nat) : 0 < chainLength opsRead (limit + 1) off := by
  rw [chainLength_succ, isRead]
  dsimp only
  rw [if_neg accepted]
  split <;> omega

/-- The records a primary entry adds when the next free slot is `tmp`. -/
def logicalRecords
    (opsRead : SectorRead) (partition : MsdosPartition) (tmp : Nat) :
    List StoragePartition :=
  if partition.extended then
    bootRecords opsRead partition.lbaStart (max 1 (14 - tmp)) 0
  else
    []

/-- The primary entry in its own slot. -/
def withPrimary
    (parts : Parts) (partition : MsdosPartition) (i : Fin 4) : Parts :=
  if partition.fsid = 0 then
    parts
  else
    parts.set i.val (primaryPart partition)

theorem extended_fsid {partition : MsdosPartition}
    (extended : partition.extended = true) : partition.fsid ≠ 0 := by
  intro empty
  rw [MsdosPartition.extended, empty] at extended
  exact absurd extended (by decide)

theorem detectPrimary_eq (opsRead : SectorRead) (mbr : Sector)
    (parts : Parts) (tmp : Nat) (i : Fin 4) :
    detectPrimary opsRead mbr (parts, tmp) i =
      (storeParts (withPrimary parts (mbr.partitions i) i) tmp
        (logicalRecords opsRead (mbr.partitions i) tmp)).map
        fun stored =>
          (stored,
            tmp + (logicalRecords opsRead (mbr.partitions i) tmp).length) := by
  unfold detectPrimary withPrimary logicalRecords
  by_cases empty : (mbr.partitions i).fsid = 0
  · have plain : (mbr.partitions i).extended = false := by
      rw [Bool.eq_false_iff]
      exact fun extended => extended_fsid extended empty
    simp [empty, plain, storeParts]
  · have inside : i.val < storageMaxParts := by
      unfold storageMaxParts
      omega
    rw [if_neg empty, if_neg empty, storePart, dif_pos inside]
    cases (mbr.partitions i).extended with
    | true =>
      exact readLogical_eq opsRead _ _ tmp 0
    | false => rfl

/-- The next free slot after one primary entry. -/
def slotAfter (mbr : Sector) (records tmp : Nat) (i : Fin 4) : Nat :=
  if (mbr.partitions i).extended then
    tmp + min (max 1 (14 - tmp)) records
  else
    tmp

theorem logicalRecords_length (opsRead : SectorRead) (mbr : Sector) (i : Fin 4)
    {tmp : Nat} (behind : 4 ≤ tmp) :
    tmp + (logicalRecords opsRead (mbr.partitions i) tmp).length =
      slotAfter mbr (chainLength opsRead 10 0) tmp i := by
  unfold logicalRecords slotAfter
  split
  · rw [bootRecords_length,
      chainLength_of_le opsRead (by omega : max 1 (14 - tmp) ≤ 10)]
  · rfl

theorem slotAfter_ge (mbr : Sector) (records tmp : Nat) (i : Fin 4) :
    tmp ≤ slotAfter mbr records tmp i := by
  unfold slotAfter
  split <;> omega

theorem foldl_slotAfter_ge
    (mbr : Sector) (records tmp : Nat) (entries : List (Fin 4)) :
    tmp ≤ entries.foldl (slotAfter mbr records) tmp := by
  induction entries generalizing tmp with
  | nil => exact Nat.le_refl tmp
  | cons i rest ih =>
    exact Nat.le_trans (slotAfter_ge mbr records tmp i) (ih _)

/-- The loop stays inside `parts` exactly when the last free slot does. -/
theorem detectPrimary_fold_isSome (opsRead : SectorRead) (mbr : Sector)
    (entries : List (Fin 4)) (parts : Parts) {tmp : Nat} (behind : 4 ≤ tmp)
    (inside : tmp ≤ storageMaxParts) :
    (entries.foldlM (detectPrimary opsRead mbr) (parts, tmp)).isSome ↔
      entries.foldl (slotAfter mbr (chainLength opsRead 10 0)) tmp ≤
        storageMaxParts := by
  induction entries generalizing parts tmp with
  | nil => simpa using inside
  | cons i rest ih =>
    have grown := logicalRecords_length opsRead mbr i behind
    have step := detectPrimary_eq opsRead mbr parts tmp i
    rw [grown] at step
    rw [List.foldlM_cons, List.foldl_cons, step]
    have final :=
      foldl_slotAfter_ge mbr (chainLength opsRead 10 0)
        (slotAfter mbr (chainLength opsRead 10 0) tmp i) rest
    have fits :=
      storeParts_isSome (withPrimary parts (mbr.partitions i) i) tmp
        (logicalRecords opsRead (mbr.partitions i) tmp)
    rw [grown] at fits
    cases stores : storeParts (withPrimary parts (mbr.partitions i) i) tmp
          (logicalRecords opsRead (mbr.partitions i) tmp) with
    | none =>
      rw [stores] at fits
      simp only [Option.isSome_none, Bool.false_eq_true, false_iff,
        not_or] at fits
      simp
      omega
    | some stored =>
      rw [stores] at fits
      have within :
          slotAfter mbr (chainLength opsRead 10 0) tmp i ≤ storageMaxParts := by
        rcases fits.mp rfl with none | below
        · rw [none, List.length_nil] at grown
          omega
        · exact below
      exact ih stored (by omega) within

/--
Every primary entry is extended, and the chain of boot records read from
sector 0 has at least ten of them.
-/
def FourLongChains (opsRead : SectorRead) : Prop :=
  ∃ mbr, opsRead 0 = some mbr ∧ mbr.rejected = false ∧
    (∀ i, (mbr.partitions i).extended = true) ∧
    10 ≤ chainLength opsRead 10 0

theorem slots_fit_iff (mbr : Sector) {records : Nat} (some : 0 < records) :
    [0, 1, 2, 3].foldl (slotAfter mbr records) 4 ≤ storageMaxParts ↔
      ¬ ((∀ i, (mbr.partitions i).extended = true) ∧ 10 ≤ records) := by
  rw [Fin.forall_fin_succ, Fin.forall_fin_succ, Fin.forall_fin_succ,
    Fin.forall_fin_one]
  simp only [List.foldl_cons, List.foldl_nil, slotAfter, storageMaxParts]
  change _ ↔ ¬ (((mbr.partitions 0).extended = true ∧
    (mbr.partitions 1).extended = true ∧
    (mbr.partitions 2).extended = true ∧
    (mbr.partitions 3).extended = true) ∧ _)
  cases (mbr.partitions 0).extended <;> cases (mbr.partitions 1).extended <;>
    cases (mbr.partitions 2).extended <;>
    cases (mbr.partitions 3).extended <;>
    simp <;> omega

theorem detect_isSome_of_accepted {opsRead : SectorRead} {mbr : Sector}
    (isRead : opsRead 0 = some mbr) (accepted : ¬ mbr.rejected = true)
    (parts : Parts) :
    (partirionMsdosDetect opsRead parts).isSome ↔
      ¬ ((∀ i, (mbr.partitions i).extended = true) ∧
        10 ≤ chainLength opsRead 10 0) := by
  have counted : 0 < chainLength opsRead 10 0 :=
    chainLength_pos isRead accepted 9
  have fold :=
    detectPrimary_fold_isSome opsRead mbr [0, 1, 2, 3] noParts
      (Nat.le_refl 4) (by decide)
  rw [slots_fit_iff mbr counted] at fold
  unfold partirionMsdosDetect
  rw [isRead]
  dsimp only
  rw [if_neg accepted, Option.isSome_map, fold]

/--
For every disk: detection ends, and it writes only entries of `parts`, unless
all four primary entries are extended and the chain of boot records read from
sector 0 has at least ten of them.
-/
theorem partirionMsdosDetect_inside_iff (opsRead : SectorRead) (parts : Parts) :
    (partirionMsdosDetect opsRead parts).isSome ↔ ¬ FourLongChains opsRead := by
  unfold FourLongChains
  cases isRead : opsRead 0 with
  | none =>
    unfold partirionMsdosDetect
    simp [isRead]
  | some mbr =>
    by_cases accepted : mbr.rejected = true
    · unfold partirionMsdosDetect
      simp [isRead, accepted]
    · rw [detect_isSome_of_accepted isRead accepted]
      simp [accepted]

/-- Byte `k` of a partition table entry. -/
def MsdosPartition.byte (entry : MsdosPartition) (k : Nat) : UInt8 :=
  match k with
  | 4 => entry.fsid
  | 8 => UInt8.ofNat entry.lbaStart
  | 12 => UInt8.ofNat entry.size
  | _ => 0

/-- Byte `k` of a signed boot record with the given entries. -/
def recordByte (entries : Fin 4 → MsdosPartition) (k : Nat) : UInt8 :=
  if k = 510 then
    0x55
  else if k = 511 then
    0xAA
  else if k < 0x1BE then
    0
  else
    (entries (Fin.ofNat 4 ((k - 0x1BE) / 16))).byte ((k - 0x1BE) % 16)

/-- A signed boot record whose entries have one-byte starts and sizes. -/
def bootRecord (entries : Fin 4 → MsdosPartition) : Sector :=
  Vector.ofFn fun k => recordByte entries k.val

theorem bootRecord_accepted (entries : Fin 4 → MsdosPartition) :
    (bootRecord entries).rejected = false := by
  unfold Sector.rejected bootRecord
  rw [Vector.getElem_ofFn]
  rfl

theorem recordByte_entry (entries : Fin 4 → MsdosPartition) (i : Fin 4)
    {k : Nat} (inEntry : k < 16) :
    recordByte entries (0x1BE + 16 * i.val + k) = (entries i).byte k := by
  have below := i.isLt
  have slot : (0x1BE + 16 * i.val + k - 0x1BE) / 16 = i.val := by omega
  have place : (0x1BE + 16 * i.val + k - 0x1BE) % 16 = k := by omega
  unfold recordByte
  rw [if_neg (by omega), if_neg (by omega), if_neg (by omega), slot, place]
  have entry : Fin.ofNat 4 i.val = i := Fin.ext (Nat.mod_eq_of_lt below)
  rw [entry]

theorem bootRecord_entryByte
    (entries : Fin 4 → MsdosPartition) (i : Fin 4) (k : Fin 16) :
    (bootRecord entries).entryByte i k = (entries i).byte k.val := by
  unfold Sector.entryByte bootRecord
  rw [Vector.getElem_ofFn]
  exact recordByte_entry entries i k.isLt

theorem bootRecord_partitions (entries : Fin 4 → MsdosPartition) (i : Fin 4)
    (smallStart : (entries i).lbaStart < 256)
    (smallSize : (entries i).size < 256) :
    (bootRecord entries).partitions i = entries i := by
  have start :
      (UInt8.ofNat (entries i).lbaStart).toNat = (entries i).lbaStart := by
    simpa using smallStart
  have extent : (UInt8.ofNat (entries i).size).toNat = (entries i).size := by
    simpa using smallSize
  unfold Sector.partitions littleEndian
  simp only [bootRecord_entryByte]
  change MsdosPartition.mk (entries i).fsid
    ((UInt8.ofNat (entries i).lbaStart).toNat + 0x100 * 0 + 0x10000 * 0 +
      0x1000000 * 0)
    ((UInt8.ofNat (entries i).size).toNat + 0x100 * 0 + 0x10000 * 0 +
      0x1000000 * 0) = _
  rw [start, extent]
  rfl

/-- An extended entry whose link leads to sector 1. -/
def linkToSectorOne : MsdosPartition where
  fsid := 0x05
  lbaStart := 1
  size := 1

/-- Four extended entries, each with a link to sector 1. -/
def cyclicRecord : Sector :=
  bootRecord fun _ => linkToSectorOne

/-- Every sector of the disk is the cyclic record. -/
def cyclicDisk : SectorRead :=
  fun _ => some cyclicRecord

theorem cyclicRecord_partitions (i : Fin 4) :
    cyclicRecord.partitions i = linkToSectorOne :=
  bootRecord_partitions _ i (by decide) (by decide)

theorem cyclicDisk_chainLength (limit off : Nat) :
    chainLength cyclicDisk limit off = limit := by
  induction limit generalizing off with
  | zero => rfl
  | succ limit ih =>
    have accepted : cyclicRecord.rejected = false := bootRecord_accepted _
    have linked : cyclicRecord.linked = true := by
      unfold Sector.linked
      rw [cyclicRecord_partitions]
      rfl
    rw [chainLength_succ]
    change (if cyclicRecord.rejected = true then 0
      else if cyclicRecord.linked = true then _ else 1) = limit + 1
    rw [accepted, linked]
    simp [ih]

/-- Not every disk is detected inside `parts`. -/
theorem partirionMsdosDetect_not_inside :
    ¬ ∀ (opsRead : SectorRead) (parts : Parts),
      (partirionMsdosDetect opsRead parts).isSome := by
  intro always
  have accepted : ¬ cyclicRecord.rejected = true := by
    rw [cyclicRecord, bootRecord_accepted]
    exact Bool.false_ne_true
  have inside := always cyclicDisk noParts
  rw [detect_isSome_of_accepted rfl accepted] at inside
  apply inside
  refine ⟨fun i => ?_, ?_⟩
  · rw [cyclicRecord_partitions]
    rfl
  · exact Nat.le_of_eq (cyclicDisk_chainLength 10 0).symm

end Idylla.Storage
