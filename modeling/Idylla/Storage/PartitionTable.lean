import Mathlib.Order.Fin.Basic
import Idylla.Storage.MsdosPart

namespace Idylla.Storage

/-!
# The partition table against the MS-DOS format

The format is stated on its own: which boot records count, where the chain of
an extended partition leads, and what every slot of `parts` then holds.
`partirion_msdos_detect` starts the chain at sector 0, takes links as sector
numbers and lets a half-wrong signature pass, so it meets the format on some
disks only.
-/

/--
The logical partitions of the chain that reaches `sector`, in an extended
partition that starts at `extended`.  A derivation is a chain without a cycle.
-/
inductive LogicalChain (disk : Nat → Sector) (extended : Nat) :
    Nat → List StoragePartition → Prop where
  | unsigned {sector : Nat}
      (unsigned : (disk sector).signed = false) :
      LogicalChain disk extended sector []
  | last {sector : Nat} (signed : (disk sector).signed = true)
      (unlinked : (disk sector).linked = false) :
      LogicalChain disk extended sector [formatRecord disk sector]
  | link {sector : Nat} {rest : List StoragePartition}
      (signed : (disk sector).signed = true)
      (linked : (disk sector).linked = true)
      (chain :
        LogicalChain disk extended
          (extended + ((disk sector).partitions 1).lbaStart) rest) :
      LogicalChain disk extended sector (formatRecord disk sector :: rest)

/-- The logical partitions of a disk with at most one extended partition. -/
inductive LogicalsOf (disk : Nat → Sector) :
    List StoragePartition → Prop where
  | unsigned
      (unsigned : (disk 0).signed = false) :
      LogicalsOf disk []
  | primary (signed : (disk 0).signed = true)
      (plain : ∀ i, ((disk 0).partitions i).extended = false) :
      LogicalsOf disk []
  | extended {i : Fin 4} {logicals : List StoragePartition}
      (signed : (disk 0).signed = true)
      (isExtended : ((disk 0).partitions i).extended = true)
      (only : ∀ k, ((disk 0).partitions k).extended = true → k = i)
      (chain :
        LogicalChain disk ((disk 0).partitions i).lbaStart
          ((disk 0).partitions i).lbaStart logicals) :
      LogicalsOf disk logicals

/-- What the format puts into `parts[k]`. -/
def formatPart (disk : Nat → Sector) (logicals : List StoragePartition)
    (k : Nat) : StoragePartition :=
  if (disk 0).signed then
    if primary : k < 4 then
      if ((disk 0).partitions ⟨k, primary⟩).fsid = 0 then
        noPartition
      else
        primaryPart ((disk 0).partitions ⟨k, primary⟩)
    else
      logicals[k - 4]?.getD noPartition
  else
    noPartition

/-- Detection on a disk whose reads succeed leaves what the format says. -/
def DetectsFormat
    (disk : Nat → Sector) (logicals : List StoragePartition) : Prop :=
  ∃ parts,
    partirionMsdosDetect (fun sector => some (disk sector)) noParts =
      some parts ∧
    ∀ (k : Nat) (inside : k < storageMaxParts),
      parts[k] = formatPart disk logicals k

/-- The boot records at two sectors describe one logical partition. -/
def SameRecord (disk : Nat → Sector) (base first second : Nat) : Prop :=
  logicalPart base first (disk first) = formatRecord disk second

/-- The boot record a chain stands at, if its signature passes `test`. -/
def recordAt (disk : Nat → Sector) (test : Sector → Bool) :
    Option Nat → Option Nat
  | none => none
  | some sector => if test (disk sector) then some sector else none

/--
For `limit` records, the chain that takes links as sector numbers and accepts
half a signature describes the partitions of the chain of the format.
-/
def InStep (disk : Nat → Sector) (base : Nat) :
    Nat → Option Nat → Option Nat → Prop
  | 0, _, _ => True
  | limit + 1, driver, format =>
    match recordAt disk (fun ebr => !ebr.rejected) driver,
      recordAt disk Sector.signed format with
    | some first, some second =>
      SameRecord disk base first second ∧
        InStep disk base limit
          (linkFrom disk 0 first) (linkFrom disk base second)
    | none, none => True
    | _, _ => False

/-- The disks on which the driver follows the format. -/
def FollowsFormat (disk : Nat → Sector) : Prop :=
  (disk 0).rejected = true ∨
    ((disk 0).signed = true ∧
      ∀ i, ((disk 0).partitions i).extended = true →
        InStep disk ((disk 0).partitions i).lbaStart 10
          (some 0) (some ((disk 0).partitions i).lbaStart)) ∨
    ((disk 0).signed = false ∧ ∀ i, ((disk 0).partitions i).fsid = 0)

theorem signed_accepted {sector : Sector} (signed : sector.signed = true) :
    ¬ sector.rejected = true := by
  unfold Sector.signed at signed
  unfold Sector.rejected
  simp at signed
  simp [signed.1]

theorem rejected_unsigned {sector : Sector}
    (rejected : sector.rejected = true) : sector.signed = false := by
  rw [Bool.eq_false_iff]
  exact fun signed => signed_accepted signed rejected

theorem linked_lbaStart {ebr : Sector} (linked : ebr.linked = true) :
    0 < (ebr.partitions 1).lbaStart := by
  unfold Sector.linked at linked
  simp at linked
  omega

theorem withPrimary_slot
    (parts : Parts) (partition : MsdosPartition) (i : Fin 4)
    (k : Nat) (inside : k < storageMaxParts) :
    (withPrimary parts partition i)[k] =
      if k = i.val ∧ partition.fsid ≠ 0 then
        primaryPart partition
      else
        parts[k] := by
  unfold withPrimary
  by_cases empty : partition.fsid = 0
  · simp [empty]
  · rw [if_neg empty, Vector.getElem_set]
    simp only [empty, ne_eq, not_false_eq_true, and_true, eq_comm]

variable {opsRead : SectorRead} {mbr : Sector} {parts stored : Parts}
  {tmp : Nat} {i : Fin 4}

theorem detectPrimary_some {next : Nat}
    (step : detectPrimary opsRead mbr (parts, tmp) i = some (stored, next)) :
    next = tmp + (logicalRecords opsRead (mbr.partitions i) tmp).length ∧
      ∀ (k : Nat) (inside : k < storageMaxParts),
        stored[k] =
          if k < tmp then
            (withPrimary parts (mbr.partitions i) i)[k]
          else
            (logicalRecords opsRead (mbr.partitions i) tmp)[k - tmp]?.getD
              (withPrimary parts (mbr.partitions i) i)[k] := by
  rw [detectPrimary_eq] at step
  obtain ⟨_, stores, same⟩ := Option.map_eq_some_iff.mp step
  cases same
  exact ⟨rfl, storeParts_some stores⟩

variable {entries : List (Fin 4)} {final : Nat}

theorem detectPrimary_fold_primary (behind : 4 ≤ tmp)
    (steps :
      entries.foldlM (detectPrimary opsRead mbr) (parts, tmp) =
        some (stored, final)) (k : Fin 4) (inside : k.val < storageMaxParts) :
    stored[k.val] =
      if k ∈ entries ∧ (mbr.partitions k).fsid ≠ 0 then
        primaryPart (mbr.partitions k)
      else
        parts[k.val] := by
  induction entries generalizing parts tmp with
  | nil =>
    cases steps
    simp
  | cons i rest ih =>
    obtain ⟨⟨middle, next⟩, step, later⟩ := Option.bind_eq_some_iff.mp steps
    obtain ⟨grown, slots⟩ := detectPrimary_some step
    have slot := slots k.val inside
    rw [if_pos (by omega : k.val < tmp), withPrimary_slot] at slot
    rw [ih (by omega) later, slot]
    by_cases here : k = i
    · subst here
      by_cases empty : (mbr.partitions k).fsid = 0 <;> simp [empty]
    · have apart : ¬ k.val = i.val := fun same => here (Fin.ext same)
      simp [here, apart]

theorem detectPrimary_fold_plain
    (plain : ∀ i ∈ entries, (mbr.partitions i).extended = false)
    (steps :
      entries.foldlM (detectPrimary opsRead mbr) (parts, tmp) =
        some (stored, final))
    (k : Nat) (logical : 4 ≤ k) (inside : k < storageMaxParts) :
    stored[k] = parts[k] := by
  induction entries generalizing parts tmp with
  | nil =>
    cases steps
    rfl
  | cons i rest ih =>
    obtain ⟨⟨middle, next⟩, step, later⟩ := Option.bind_eq_some_iff.mp steps
    obtain ⟨_, slots⟩ := detectPrimary_some step
    have none : logicalRecords opsRead (mbr.partitions i) tmp = [] := by
      unfold logicalRecords
      simp [plain i List.mem_cons_self]
    have slot := slots k inside
    rw [none, withPrimary_slot, if_neg (by omega : ¬ (k = i.val ∧ _))] at slot
    rw [ih (fun j member => plain j (List.mem_cons_of_mem i member)) later,
      slot]
    simp

theorem detectPrimary_fold_extended (distinct : entries.Nodup)
    (member : i ∈ entries)
    (only : ∀ j, (mbr.partitions j).extended = true → j = i) (behind : 4 ≤ tmp)
    (steps :
      entries.foldlM (detectPrimary opsRead mbr) (parts, tmp) =
        some (stored, final))
    (k : Nat) (logical : tmp ≤ k) (inside : k < storageMaxParts) :
    stored[k] =
      (logicalRecords opsRead (mbr.partitions i) tmp)[k - tmp]?.getD
        parts[k] := by
  induction entries generalizing parts tmp with
  | nil => cases member
  | cons j rest ih =>
    obtain ⟨⟨middle, next⟩, step, later⟩ := Option.bind_eq_some_iff.mp steps
    obtain ⟨grown, slots⟩ := detectPrimary_some step
    have slot := slots k inside
    rw [withPrimary_slot, if_neg (by omega : ¬ k < tmp),
      if_neg (by omega : ¬ (k = j.val ∧ _))] at slot
    obtain ⟨absent, distinctRest⟩ := List.nodup_cons.mp distinct
    by_cases here : j = i
    · subst here
      have plain : ∀ m ∈ rest, (mbr.partitions m).extended = false := by
        intro m inRest
        rw [Bool.eq_false_iff]
        intro extended
        exact absent (only m extended ▸ inRest)
      rw [detectPrimary_fold_plain plain later k (by omega) inside, slot]
    · have plain : (mbr.partitions j).extended = false := by
        rw [Bool.eq_false_iff]
        exact fun extended => here (only j extended)
      have none : logicalRecords opsRead (mbr.partitions j) tmp = [] := by
        unfold logicalRecords
        simp [plain]
      have inRest : i ∈ rest :=
        (List.mem_cons.mp member).resolve_left (Ne.symm here)
      rw [none] at grown slot
      subst grown
      rw [ih distinctRest inRest behind later logical, slot]
      simp

/-- The logical partitions of a chain that may have ended. -/
def ChainFrom (disk : Nat → Sector) (extended : Nat) :
    Option Nat → List StoragePartition → Prop
  | none, logicals => logicals = []
  | some sector, logicals => LogicalChain disk extended sector logicals

theorem recordAt_some {disk : Nat → Sector} {test : Sector → Bool}
    {chain : Option Nat} {sector : Nat}
    (stands : recordAt disk test chain = some sector) : sector ∈ chain := by
  cases chain with
  | none => cases stands
  | some at_ =>
    rw [recordAt] at stands
    by_cases passes : test (disk at_) = true
    · rw [if_pos passes] at stands
      exact stands
    · rw [if_neg passes] at stands
      cases stands

theorem ChainFrom.next {disk : Nat → Sector} {extended : Nat}
    {format : Option Nat} {logicals : List StoragePartition}
    (chain : ChainFrom disk extended format logicals) :
    match recordAt disk Sector.signed format with
    | none => logicals = []
    | some sector =>
      ∃ rest, logicals = formatRecord disk sector :: rest ∧
        ChainFrom disk extended (linkFrom disk extended sector) rest := by
  cases format with
  | none => exact chain
  | some sector =>
    cases chain with
    | unsigned unsigned =>
      rw [recordAt, unsigned]
      rfl
    | last signed unlinked =>
      rw [recordAt, if_pos signed]
      refine ⟨[], rfl, ?_⟩
      rw [linkFrom, unlinked]
      rfl
    | @link _ rest signed linked chain =>
      rw [recordAt, if_pos signed]
      refine ⟨rest, rfl, ?_⟩
      rw [linkFrom, if_pos linked]
      exact chain

/-- The records the driver stores from a sector that may be missing. -/
def driverRecords (disk : Nat → Sector) (base limit : Nat) :
    Option Nat → List StoragePartition
  | none => []
  | some sector =>
    bootRecords (fun sector => some (disk sector)) base limit sector

theorem driverRecords_next
    (disk : Nat → Sector) (base limit : Nat) (driver : Option Nat) :
    driverRecords disk base (limit + 1) driver =
      match recordAt disk (fun ebr => !ebr.rejected) driver with
      | none => []
      | some sector =>
        logicalPart base sector (disk sector) ::
          driverRecords disk base limit (linkFrom disk 0 sector) := by
  cases driver with
  | none => rfl
  | some sector =>
    rw [driverRecords, bootRecords, recordAt]
    dsimp only
    by_cases rejected : (disk sector).rejected = true
    · have refused : ¬ (!(disk sector).rejected) = true := by
        simp [rejected]
      rw [if_pos rejected, if_neg refused]
    · have passes : (!(disk sector).rejected) = true := by
        simp [rejected]
      rw [if_neg rejected, if_pos passes]
      dsimp only
      rw [linkFrom]
      split
      · rw [Nat.zero_add]
        rfl
      · rfl

variable {base : Nat} {logicals : List StoragePartition}

theorem driverRecords_eq_iff {disk : Nat → Sector} {limit : Nat}
    {driver format : Option Nat} (chain : ChainFrom disk base format logicals)
    (short : logicals.length ≤ limit) :
    driverRecords disk base limit driver = logicals ↔
      InStep disk base limit driver format := by
  induction limit generalizing driver format logicals with
  | zero =>
    have none : logicals = [] :=
      List.length_eq_zero_iff.mp (Nat.le_zero.mp short)
    rw [none]
    cases driver <;> simp [driverRecords, bootRecords, InStep]
  | succ limit ih =>
    have next := chain.next
    rw [driverRecords_next, InStep]
    cases recordAt disk (fun ebr => !ebr.rejected) driver with
    | none =>
      cases signed : recordAt disk Sector.signed format with
      | none =>
        rw [signed] at next
        simp [show logicals = [] from next]
      | some second =>
        rw [signed] at next
        obtain ⟨rest, rfl, _⟩ := next
        simp
    | some first =>
      cases signed : recordAt disk Sector.signed format with
      | none =>
        rw [signed] at next
        simp [show logicals = [] from next]
      | some second =>
        rw [signed] at next
        obtain ⟨rest, rfl, later⟩ := next
        rw [List.cons.injEq, ih later (Nat.le_of_succ_le_succ short)]
        rfl

theorem linkFrom_behind {disk : Nat → Sector} {sector next : Nat}
    (leads : next ∈ linkFrom disk base sector) : base < next := by
  unfold linkFrom at leads
  split at leads
  next linked =>
    have := linked_lbaStart linked
    cases leads
    omega
  next => cases leads

theorem driverRecords_positive
    {disk : Nat → Sector} {limit : Nat} {driver : Option Nat}
    (behind : ∀ sector ∈ driver, 0 < base + sector) :
    ∀ part ∈ driverRecords disk base limit driver, 0 < part.start := by
  induction limit generalizing driver with
  | zero => cases driver <;> simp [driverRecords, bootRecords]
  | succ limit ih =>
    intro part member
    rw [driverRecords_next] at member
    cases accepted : recordAt disk (fun ebr => !ebr.rejected) driver with
    | none =>
      rw [accepted] at member
      cases member
    | some first =>
      rw [accepted] at member
      rcases List.mem_cons.mp member with rfl | member
      · have := behind first (recordAt_some accepted)
        unfold logicalPart
        dsimp only
        omega
      · refine ih (fun sector leads => ?_) part member
        have := linkFrom_behind leads
        omega

theorem eq_of_padded {first second : List StoragePartition} {limit : Nat}
    (firstShort : first.length ≤ limit) (secondShort : second.length ≤ limit)
    (firstPositive : ∀ part ∈ first, 0 < part.start)
    (secondPositive : ∀ part ∈ second, 0 < part.start)
    (same :
      ∀ k, k < limit →
        first[k]?.getD noPartition = second[k]?.getD noPartition) :
    first = second := by
  apply List.ext_getElem?
  intro k
  by_cases inside : k < limit
  · have equal := same k inside
    cases atFirst : first[k]? with
    | none =>
      cases atSecond : second[k]? with
      | none => rfl
      | some part =>
        have positive := secondPositive part (List.mem_of_getElem? atSecond)
        rw [atFirst, atSecond] at equal
        have empty : noPartition = part := equal
        rw [← empty] at positive
        exact absurd positive (Nat.lt_irrefl 0)
    | some part =>
      cases atSecond : second[k]? with
      | none =>
        have positive := firstPositive part (List.mem_of_getElem? atFirst)
        rw [atFirst, atSecond] at equal
        have empty : part = noPartition := equal
        rw [empty] at positive
        exact absurd positive (Nat.lt_irrefl 0)
      | some other =>
        rw [atFirst, atSecond] at equal
        exact congrArg some equal
  · rw [List.getElem?_eq_none (by omega), List.getElem?_eq_none (by omega)]

theorem ChainFrom.positive {disk : Nat → Sector} {extended : Nat}
    {format : Option Nat} (chain : ChainFrom disk extended format logicals)
    (behind : ∀ sector ∈ format, 0 < sector) :
    ∀ part ∈ logicals, 0 < part.start := by
  induction logicals generalizing format with
  | nil => simp
  | cons head tail ih =>
    have next := chain.next
    cases signed : recordAt disk Sector.signed format with
    | none =>
      rw [signed] at next
      cases next
    | some sector =>
      rw [signed] at next
      obtain ⟨rest, shape, later⟩ := next
      cases shape
      intro part member
      rcases List.mem_cons.mp member with rfl | member
      · have := behind sector (recordAt_some signed)
        unfold formatRecord
        dsimp only
        omega
      · refine ih later (fun next leads => ?_) part member
        have := linkFrom_behind leads
        omega

/-- Equal slots mean equal records, for an accepted boot record. -/
theorem driverRecords_eq_of_padded {disk : Nat → Sector}
    (signed : (disk 0).signed = true)
    (chain : LogicalChain disk base base logicals)
    (short : logicals.length ≤ 10)
    (same :
      ∀ k, k < 12 →
        (driverRecords disk base 10 (some 0))[k]?.getD noPartition =
          logicals[k]?.getD noPartition) :
    driverRecords disk base 10 (some 0) = logicals := by
  have chainFrom : ChainFrom disk base (some base) logicals := chain
  have driverShort : (driverRecords disk base 10 (some 0)).length ≤ 10 :=
    bootRecords_length_le (fun sector => some (disk sector)) base 10 0
  by_cases behind : 0 < base
  · refine eq_of_padded (Nat.le_trans driverShort (by omega))
      (Nat.le_trans short (by omega)) ?_ ?_ same
    · exact driverRecords_positive fun sector _ => by omega
    · exact chainFrom.positive fun sector at_ => by
        cases at_
        exact behind
  · -- the extended partition starts at sector 0 itself
    obtain rfl : base = 0 := by omega
    have accepted := signed_accepted signed
    have driverNext := driverRecords_next disk 0 9 (some 0)
    have formatNext := chainFrom.next
    have passes : (!(disk 0).rejected) = true := by
      simp [accepted]
    rw [recordAt, if_pos passes] at driverNext
    dsimp only at driverNext
    rw [recordAt, if_pos signed] at formatNext
    obtain ⟨rest, rfl, later⟩ := formatNext
    rw [driverNext] at same driverShort ⊢
    have head := same 0 (by omega)
    have tail : driverRecords disk 0 9 (linkFrom disk 0 0) = rest := by
      refine @eq_of_padded _ _ 11 ?_ ?_ ?_ ?_ ?_
      · simp only [List.length_cons] at driverShort
        omega
      · simp only [List.length_cons] at short
        omega
      · exact driverRecords_positive fun sector leads => by
          have := linkFrom_behind leads
          omega
      · exact later.positive fun sector leads => linkFrom_behind leads
      · intro k inside
        have slot := same (k + 1) (by omega)
        simpa only [List.getElem?_cons_succ] using slot
    rw [tail]
    exact congrArg (· :: rest) head

variable {disk : Nat → Sector}

theorem detect_slots (accepted : ¬ (disk 0).rejected = true)
    (detects :
      partirionMsdosDetect (fun sector => some (disk sector)) noParts =
        some parts) :
    ∃ final,
      [0, 1, 2, 3].foldlM
        (detectPrimary (fun sector => some (disk sector)) (disk 0))
        (noParts, 4) = some (parts, final) := by
  unfold partirionMsdosDetect at detects
  dsimp only at detects
  rw [if_neg accepted] at detects
  obtain ⟨⟨stored, final⟩, steps, rfl⟩ := Option.map_eq_some_iff.mp detects
  exact ⟨final, steps⟩

theorem detects_of_plain (accepted : ¬ (disk 0).rejected = true) {k : Fin 4}
    (plain : ((disk 0).partitions k).extended = false) :
    ∃ parts,
      partirionMsdosDetect (fun sector => some (disk sector)) noParts =
        some parts := by
  have inside :=
    (@detect_isSome_of_accepted (fun sector => some (disk sector)) _ rfl
      accepted noParts).mpr
      fun both => Bool.false_ne_true (plain.symm.trans (both.1 k))
  exact Option.isSome_iff_exists.mp inside

theorem noParts_slot (k : Nat) (inside : k < storageMaxParts) :
    noParts[k] = noPartition := by
  unfold noParts
  rw [Vector.getElem_replicate]

theorem every_entry (i : Fin 4) : i ∈ ([0, 1, 2, 3] : List (Fin 4)) := by
  revert i
  decide

theorem primary_slot {disk : Nat → Sector} (signed : (disk 0).signed = true)
    (detects :
      partirionMsdosDetect (fun sector => some (disk sector)) noParts =
        some parts) (k : Nat) (primary : k < 4) (inside : k < storageMaxParts) :
    parts[k] = formatPart disk logicals k := by
  obtain ⟨final, steps⟩ := detect_slots (signed_accepted signed) detects
  have slot :=
    detectPrimary_fold_primary (Nat.le_refl 4) steps ⟨k, primary⟩ inside
  rw [formatPart, if_pos signed, dif_pos primary]
  by_cases empty : ((disk 0).partitions ⟨k, primary⟩).fsid = 0
  · rw [if_neg (fun both => both.2 empty), noParts_slot] at slot
    rw [if_pos empty, ← slot]
  · rw [if_pos ⟨every_entry _, empty⟩] at slot
    rw [if_neg empty, ← slot]

theorem detectsFormat_unsigned (accepted : ¬ (disk 0).rejected = true)
    (unsigned : (disk 0).signed = false) :
    DetectsFormat disk [] ↔ ∀ i, ((disk 0).partitions i).fsid = 0 := by
  have empty (k : Nat) : formatPart disk [] k = noPartition := by
    rw [formatPart, if_neg (Bool.eq_false_iff.mp unsigned)]
  constructor
  · rintro ⟨parts, detects, slots⟩ i
    obtain ⟨final, steps⟩ := detect_slots accepted detects
    have inside : i.val < storageMaxParts := by
      unfold storageMaxParts
      omega
    have slot := detectPrimary_fold_primary (Nat.le_refl 4) steps i inside
    rw [slots i.val inside, empty] at slot
    apply Decidable.byContradiction
    intro typed
    rw [if_pos ⟨every_entry i, typed⟩] at slot
    exact typed (congrArg StoragePartition.type slot).symm
  · intro blank
    have plain : ∀ i, ((disk 0).partitions i).extended = false := by
      intro i
      rw [Bool.eq_false_iff]
      exact fun extended => extended_fsid extended (blank i)
    obtain ⟨parts, detects⟩ := detects_of_plain accepted (plain 0)
    refine ⟨parts, detects, fun k inside => ?_⟩
    obtain ⟨final, steps⟩ := detect_slots accepted detects
    rw [empty]
    by_cases primary : k < 4
    · have slot :=
        detectPrimary_fold_primary (Nat.le_refl 4) steps ⟨k, primary⟩ inside
      rw [if_neg (fun both => both.2 (blank _)), noParts_slot] at slot
      exact slot
    · rw [detectPrimary_fold_plain (fun i _ => plain i) steps k (by omega)
        inside, noParts_slot]

theorem detectsFormat_primary (signed : (disk 0).signed = true)
    (plain : ∀ i, ((disk 0).partitions i).extended = false) :
    DetectsFormat disk [] := by
  have accepted := signed_accepted signed
  obtain ⟨parts, detects⟩ := detects_of_plain accepted (plain 0)
  refine ⟨parts, detects, fun k inside => ?_⟩
  by_cases primary : k < 4
  · exact primary_slot signed detects k primary inside
  · obtain ⟨final, steps⟩ := detect_slots accepted detects
    rw [detectPrimary_fold_plain (fun i _ => plain i) steps k (by omega)
      inside, noParts_slot, formatPart, if_pos signed, dif_neg primary]
    rfl

theorem detectsFormat_extended {disk : Nat → Sector}
    (signed : (disk 0).signed = true)
    (isExtended : ((disk 0).partitions i).extended = true)
    (only : ∀ k, ((disk 0).partitions k).extended = true → k = i)
    (chain :
      LogicalChain disk ((disk 0).partitions i).lbaStart
        ((disk 0).partitions i).lbaStart logicals)
    (short : logicals.length ≤ 10) :
    DetectsFormat disk logicals ↔
      InStep disk ((disk 0).partitions i).lbaStart 10
        (some 0) (some ((disk 0).partitions i).lbaStart) := by
  have accepted := signed_accepted signed
  obtain ⟨other, apart⟩ : ∃ k : Fin 4, k ≠ i := by
    by_cases first : i = 0
    · exact ⟨1, by rw [first]; decide⟩
    · exact ⟨0, Ne.symm first⟩
  have plain : ((disk 0).partitions other).extended = false := by
    rw [Bool.eq_false_iff]
    exact fun extended => apart (only other extended)
  obtain ⟨parts, detects⟩ := detects_of_plain accepted plain
  obtain ⟨final, steps⟩ := detect_slots accepted detects
  have records : logicalRecords (fun sector => some (disk sector))
          ((disk 0).partitions i) 4 =
        driverRecords disk ((disk 0).partitions i).lbaStart 10 (some 0) := by
    rw [logicalRecords, if_pos isExtended]
    rfl
  have slots (k : Nat) (inside : k + 4 < storageMaxParts) :
      parts[k + 4] =
        (driverRecords disk ((disk 0).partitions i).lbaStart 10
          (some 0))[k]?.getD noPartition := by
    rw [← records,
      detectPrimary_fold_extended (by decide) (every_entry i) only
        (Nat.le_refl 4) steps (k + 4) (by omega) inside, noParts_slot,
      Nat.add_sub_cancel]
  have formats (k : Nat) :
      formatPart disk logicals (k + 4) = logicals[k]?.getD noPartition := by
    rw [formatPart, if_pos signed, dif_neg (by omega), Nat.add_sub_cancel]
  have chainFrom : ChainFrom disk ((disk 0).partitions i).lbaStart
        (some ((disk 0).partitions i).lbaStart) logicals := chain
  rw [← driverRecords_eq_iff chainFrom short]
  constructor
  · rintro ⟨left, detected, same⟩
    obtain rfl : left = parts := by
      rw [detects] at detected
      exact (Option.some.inj detected).symm
    refine driverRecords_eq_of_padded signed chain short fun k inside => ?_
    have below : k + 4 < storageMaxParts := by
      unfold storageMaxParts
      omega
    rw [← slots k below, ← formats k]
    exact same (k + 4) below
  · intro equal
    refine ⟨parts, detects, fun k inside => ?_⟩
    by_cases primary : k < 4
    · exact primary_slot signed detects k primary inside
    · obtain ⟨slot, rfl⟩ : ∃ slot, k = slot + 4 := ⟨k - 4, by omega⟩
      rw [slots slot inside, formats, equal]

/--
For every disk with at most one extended partition and at most ten logical
ones, detection leaves what the format says exactly when the boot record is
rejected as a whole, is signed with the chain from sector 0 in step with the
chain of the extended partition, or is half signed with an empty table.
-/
theorem partirionMsdosDetect_format_iff
    {disk : Nat → Sector} {logicals : List StoragePartition}
    (format : LogicalsOf disk logicals) (short : logicals.length ≤ 10) :
    DetectsFormat disk logicals ↔ FollowsFormat disk := by
  unfold FollowsFormat
  by_cases rejected : (disk 0).rejected = true
  · have unsigned := rejected_unsigned rejected
    refine ⟨fun _ => Or.inl rejected, fun _ => ⟨noParts, ?_, ?_⟩⟩
    · unfold partirionMsdosDetect
      simp [rejected]
    · intro k inside
      rw [noParts_slot, formatPart, if_neg (Bool.eq_false_iff.mp unsigned)]
  · cases format with
    | unsigned unsigned =>
      rw [detectsFormat_unsigned rejected unsigned]
      simp [rejected, unsigned]
    | primary signed plain =>
      have met := detectsFormat_primary signed plain
      simp [met, signed, plain]
    | @extended i _ signed isExtended only chain =>
      rw [detectsFormat_extended signed isExtended only chain short]
      constructor
      · intro inStep
        refine Or.inr (Or.inl ⟨signed, fun k extended => ?_⟩)
        rw [only k extended]
        exact inStep
      · rintro (refused | ⟨_, steps⟩ | ⟨unsigned, _⟩)
        · exact absurd refused rejected
        · exact steps i isExtended
        · rw [signed] at unsigned
          cases unsigned

/-- An entry of a data partition, two sectors behind its boot record. -/
def dataEntry : MsdosPartition where
  fsid := 0x83
  lbaStart := 2
  size := 5

/-- An unused entry. -/
def emptyEntry : MsdosPartition where
  fsid := 0
  lbaStart := 0
  size := 0

/-- A boot record with one entry in use. -/
def oneEntryRecord (entry : MsdosPartition) : Sector :=
  bootRecord fun i => if i.val = 0 then entry else emptyEntry

theorem oneEntryRecord_partitions {entry : MsdosPartition}
    (smallStart : entry.lbaStart < 256) (smallSize : entry.size < 256)
    (i : Fin 4) :
    (oneEntryRecord entry).partitions i =
      if i.val = 0 then entry else emptyEntry := by
  refine bootRecord_partitions _ i ?_ ?_ <;> split <;>
    first | assumption | decide

theorem oneEntryRecord_signed (entry : MsdosPartition) :
    (oneEntryRecord entry).signed = true := by
  unfold Sector.signed oneEntryRecord bootRecord
  rw [Vector.getElem_ofFn, Vector.getElem_ofFn]
  rfl

theorem oneEntryRecord_unlinked {entry : MsdosPartition}
    (smallStart : entry.lbaStart < 256) (smallSize : entry.size < 256) :
    (oneEntryRecord entry).linked = false := by
  unfold Sector.linked
  rw [oneEntryRecord_partitions smallStart smallSize]
  rfl

/-- Every sector describes one data partition. -/
def dataDisk : Nat → Sector :=
  fun _ => oneEntryRecord dataEntry

/-- A disk without an extended partition is detected as the format says. -/
theorem dataDisk_format :
    DetectsFormat dataDisk [] := by
  have signed : (dataDisk 0).signed = true := oneEntryRecord_signed dataEntry
  have plain : ∀ i, ((dataDisk 0).partitions i).extended = false := by
    intro i
    unfold dataDisk
    rw [oneEntryRecord_partitions (by decide) (by decide)]
    split <;> rfl
  refine (partirionMsdosDetect_format_iff
    (LogicalsOf.primary signed plain) (by decide)).mpr ?_
  refine Or.inr (Or.inl ⟨signed, fun i extended => ?_⟩)
  rw [plain i] at extended
  cases extended

/-- An extended partition at sector 1 with one logical partition. -/
def oneLogicalDisk : Nat → Sector
  | 0 => oneEntryRecord linkToSectorOne
  | _ => oneEntryRecord dataEntry

/-- The logical partition of the disk. -/
def oneLogical : StoragePartition where
  start := 3
  size := 5
  type := 0x83

theorem oneLogicalDisk_one :
    oneLogicalDisk 1 = oneEntryRecord dataEntry :=
  rfl

theorem oneLogicalDisk_chain :
    LogicalChain oneLogicalDisk 1 1 [oneLogical] := by
  have record : formatRecord oneLogicalDisk 1 = oneLogical := by
    rw [formatRecord, oneLogicalDisk_one,
      oneEntryRecord_partitions (by decide) (by decide)]
    rfl
  rw [← record]
  refine LogicalChain.last ?_ ?_
  · exact oneEntryRecord_signed dataEntry
  · exact oneEntryRecord_unlinked (by decide) (by decide)

/-- Not every disk within the limits is detected as the format says. -/
theorem partirionMsdosDetect_not_format :
    ¬ ∀ (disk : Nat → Sector) (logicals : List StoragePartition),
      LogicalsOf disk logicals →
      logicals.length ≤ 10 →
      DetectsFormat disk logicals := by
  intro always
  have first (i : Fin 4) :
      (oneLogicalDisk 0).partitions i =
        if i.val = 0 then linkToSectorOne else emptyEntry :=
    oneEntryRecord_partitions (by decide) (by decide) i
  have signed : (oneLogicalDisk 0).signed = true :=
    oneEntryRecord_signed linkToSectorOne
  have isExtended : ((oneLogicalDisk 0).partitions 0).extended = true := by
    rw [first]
    rfl
  have only :
      ∀ k, ((oneLogicalDisk 0).partitions k).extended = true → k = 0 := by
    intro k extended
    apply Decidable.byContradiction
    intro apart
    have isOther : k.val ≠ 0 := fun same => apart (Fin.ext same)
    rw [first, if_neg isOther] at extended
    cases extended
  have start : ((oneLogicalDisk 0).partitions 0).lbaStart = 1 := by
    rw [first]
    rfl
  have chain :
      LogicalChain oneLogicalDisk ((oneLogicalDisk 0).partitions 0).lbaStart
        ((oneLogicalDisk 0).partitions 0).lbaStart [oneLogical] := by
    rw [start]
    exact oneLogicalDisk_chain
  have met :=
    always oneLogicalDisk [oneLogical]
      (LogicalsOf.extended signed isExtended only chain) (by decide)
  have chainFrom :
      ChainFrom oneLogicalDisk ((oneLogicalDisk 0).partitions 0).lbaStart
        (some ((oneLogicalDisk 0).partitions 0).lbaStart)
        [oneLogical] := chain
  rw [detectsFormat_extended signed isExtended only chain (by decide),
    ← driverRecords_eq_iff chainFrom (by decide), driverRecords_next,
    recordAt] at met
  have passes : (!(oneLogicalDisk 0).rejected) = true := by
    simp [signed_accepted signed]
  rw [if_pos passes] at met
  have types := congrArg StoragePartition.type (List.cons.inj met).1
  rw [logicalPart] at types
  rw [first] at types
  exact absurd types (by decide)

end Idylla.Storage
