import Idylla.Ext2.CreatInode
import Idylla.Ext2.CreatWrites

namespace Idylla.Ext2

open Idylla.Lib

/-!
# The entry of a new file and short writes

When the writes of a directory stop, its blocks have their new contents in the
sectors that have been sent and their old ones in the others.  Whether the new
entry is among them depends on both.
-/

/-- The bytes of a directory end at its size. -/
def upTo (size : Nat) (bytes : Memory UInt8) : Memory UInt8 :=
  fun address => if address < size then bytes address else 0

/-- The first sectors of each block replaced, as many as it says. -/
def mixedBytes (blkSize : Nat) (sectors : Nat → Nat)
    (bytes after : Memory UInt8) : Memory UInt8 :=
  fun address =>
    if address % blkSize < 512 * sectors (address / blkSize) then
      after address
    else
      bytes address

/-- The contents of a directory on a device. -/
def DirectoryVnode.contents (vnode : DirectoryVnode) (world : Surroundings)
    (device : Ext2Device) : Memory UInt8 :=
  upTo vnode.size.toNat ((vnode.on device.volume).bytes world.bpi)

/-- The first record with room for a new entry. -/
structure EntryPlace
    (bytes : Memory UInt8) (size : Nat) (entry : NewEntry)
    (pos : Nat) : Prop where
  short : entry.name.strlen ≤ maxFileName
  chain : Chain (Refuses bytes size entry.size) (behind bytes) 0 pos
  below : pos < size
  hasRoom : HasRoom bytes entry.size pos

section Contents

variable {bytes other : Memory UInt8} {size blkSize pos : Nat}
  {entry : NewEntry}

theorem upTo_agrees (size : Nat) (bytes : Memory UInt8) :
    AgreeBelow size bytes (upTo size bytes) :=
  fun _ below => if_pos below

theorem upTo_congr (agree : AgreeBelow size bytes other) :
    upTo size other = upTo size bytes := by
  funext address
  unfold upTo
  split
  next below => exact agree address below
  · rfl

theorem EntryPlace.unique {otherPos : Nat}
    (place : EntryPlace bytes size entry pos)
    (placeOther : EntryPlace bytes size entry otherPos) : pos = otherPos :=
  place.chain.stop_unique (fun refuses => refuses.2 place.hasRoom)
    placeOther.chain fun refuses => refuses.2 placeOther.hasRoom

theorem AgreeBelow.copy
    (agree : AgreeBelow size bytes other) (first : Nat) (source : Memory UInt8)
    (count : Nat) :
    AgreeBelow size (bytes.copy first source 0 count)
      (other.copy first source 0 count) := by
  intro address below
  unfold Memory.copy
  rw [agree address below]

theorem AgreeBelow.linked (agree : AgreeBelow size bytes other)
    (formed : RecordsFormed bytes blkSize size) (visits : Visits bytes size pos)
    (below : pos < size) :
    AgreeBelow size (linkedBytes bytes pos entry)
      (linkedBytes other pos entry) := by
  obtain ⟨same, sameLen⟩ := agree.record formed visits below
  unfold linkedBytes placeAt splitBytes placedBytes
  rw [same.inode, same.nameLen, sameLen]
  refine .copy (.copy (.copy (.copy ?_ _ _ _) _ _ _) _ _ _) _ _ _
  split
  · exact .copy (.copy agree _ _ _) _ _ _
  · exact agree

theorem AgreeBelow.place_iff (agree : AgreeBelow size bytes other)
    (formed : RecordsFormed bytes blkSize size) :
    EntryPlace bytes size entry pos ↔ EntryPlace other size entry pos := by
  constructor
  · rintro ⟨short, chain, below, hasRoom⟩
    obtain ⟨chainOther, roomOther⟩ :=
      (agree.link_iff formed below).1.mp ⟨chain, hasRoom⟩
    exact ⟨short, chainOther, below, roomOther⟩
  · rintro ⟨short, chain, below, hasRoom⟩
    obtain ⟨chainOther, roomOther⟩ :=
      (agree.link_iff formed below).1.mpr ⟨chain, hasRoom⟩
    exact ⟨short, chainOther, below, roomOther⟩

theorem RecordsFormed.front
    (formed : RecordsFormed bytes blkSize size) (visits : Visits bytes size pos)
    (below : pos < size) :
    RecordsFormed bytes (behind bytes pos) (behind bytes pos) where
  whole := Nat.mod_self _
  record := fun middle visitsMiddle belowMiddle => by
    have inSize := (formed.bounds visits below).2
    have visited : Visits bytes size middle :=
      visits_of_chain (fun _ before => Nat.lt_of_lt_of_le before inSize)
        visitsMiddle
    obtain ⟨long, aligned, -⟩ :=
      formed.record middle visited (Nat.lt_of_lt_of_le belowMiddle inSize)
    have ends : behind bytes middle ≤ behind bytes pos := by
      rcases Nat.lt_trichotomy middle pos with before | rfl | after
      · exact Nat.le_trans (visited.order visits before) (le_behind bytes pos)
      · exact Nat.le_refl _
      · have apart := visits.order visited after
        omega
    refine ⟨long, aligned, ?_⟩
    rw [Nat.div_eq_of_lt belowMiddle, Nat.div_eq_of_lt (by omega)]

theorem linked_present (formed : RecordsFormed bytes blkSize size)
    (absent : NameAbsent bytes size entry.name) (named : entry.name.chars ≠ [])
    (isLive : entry.ino ≠ 0) (place : EntryPlace bytes size entry pos)
    (agree : AgreeBelow size (linkedBytes bytes pos entry) other) :
    ¬ NameAbsent other size entry.name := by
  have visits : Visits bytes size pos :=
    visits_of_chain (fun _ refuses => refuses.1) place.chain
  obtain ⟨inside, inSize⟩ := formed.bounds visits place.below
  have belowFront : pos < behind bytes pos := by omega
  have formedFront := formed.front visits place.below
  have chainFront :
      Chain (Refuses bytes (behind bytes pos) entry.size) (behind bytes) 0
        pos := by
    refine place.chain.congr fun middle before refuses => ?_
    have isBefore : middle ≤ pos := by
      rcases before.comparable place.chain with toPos | fromPos
      · exact le_of_chain toPos
      · rcases fromPos.head with rfl | ⟨on, -⟩
        · exact Nat.le_refl _
        · exact absurd place.hasRoom on.2
    exact ⟨⟨Nat.lt_of_le_of_lt isBefore belowFront, refuses.2⟩, rfl⟩
  have visitsFront : Visits bytes (behind bytes pos) pos :=
    visits_of_chain (fun _ refuses => refuses.1) chainFront
  -- The new entry ends with its record: there it clobbers nothing.
  have inserted :=
    linkedBytes_inserted formedFront visitsFront belowFront place.short
      place.hasRoom fun clobbers => Nat.lt_irrefl _ clobbers.2.1
  have absentFront : NameAbsent bytes (behind bytes pos) entry.name :=
    fun other live has =>
      absent other
        ⟨visits_of_chain (fun _ before => Nat.lt_of_lt_of_le before inSize)
            live.1,
          Nat.lt_of_lt_of_le live.2.1 inSize, live.2.2⟩
        has
  have found :=
    inserted.finds_new formedFront visitsFront belowFront named absentFront
      chainFront place.hasRoom
  have formedLinked := inserted.formed_after formedFront visitsFront belowFront
  have agreeFront :
      AgreeBelow (behind bytes pos) (linkedBytes bytes pos entry) other :=
    fun address before => agree address (Nat.lt_of_lt_of_le before inSize)
  obtain ⟨last, chain, stops, isResult⟩ :=
    (agreeFront.finds_iff formedLinked).mpr found
  unfold lookupResult at isResult
  split at isResult
  next isRecord =>
    obtain ⟨belowLast, goesOn⟩ := isRecord
    have has : HasName other entry.name last :=
      Classical.byContradiction fun differs =>
        stops ⟨belowLast, goesOn, differs⟩
    refine fun absentOther => absentOther last ⟨?_, ?_, ?_⟩ has
    · exact visits_of_chain
        (fun _ skips => Nat.lt_of_lt_of_le skips.1 inSize) chain
    · exact Nat.lt_of_lt_of_le belowLast inSize
    · rw [isResult]
      exact isLive
  next notRecord => exact absurd isResult.symm isLive

end Contents

namespace Short

section Device

variable {world : Surroundings} {vnode : DirectoryVnode}
  {order : List BlockAddress} {device after : Ext2Device}
  {changed : KernelBuffer} {count : Nat}

theorem writtenFile_synced (bpi : Nat) (volume : Ext2Volume) (iBlock : Block)
    (buf : Memory Block) : Synced bpi (writtenFile bpi volume iBlock buf) := by
  obtain ⟨single, double, tables, beyond⟩ :=
    onDevice_synced bpi volume.blocks iBlock
  refine ⟨⟨single.mapped, single.unmapped⟩, ⟨double.mapped, double.unmapped⟩,
    fun table isTable => ?_, beyond⟩
  exact ⟨(tables table isTable).mapped, (tables table isTable).unmapped⟩

theorem numberAt_indexStored
    {bpi : Nat} {volume : Ext2Volume} {iBlock : Block} {buf : Memory Block}
    (stored : IndexStored (writtenFile bpi volume iBlock buf) after) :
    numberAt bpi after.volume.blocks iBlock =
      numberAt bpi volume.blocks iBlock := by
  let numbers := numberAt bpi volume.blocks iBlock
  refine @numberAt_eq bpi after.volume.blocks iBlock
    (writtenFile bpi volume iBlock fun block =>
      after.volume.blocks (numbers (.data block)))
    (fun address isMapped => ?_) (writtenFile_synced ..)
    ⟨fun _ isDirect => (if_pos isDirect).symm, rfl, rfl⟩
    fun block isBeyond => ?_
  · cases address with
    | data block =>
      rfl
    | single =>
      exact stored .single isMapped fun _ same => by cases same
    | double =>
      exact stored .double isMapped fun _ same => by cases same
    | table index =>
      exact stored (.table index) isMapped fun _ same => by cases same
  · show numberAt bpi _ _ (.data block) = 0
    rw [numberAt, if_neg (by omega), if_neg (by omega), if_neg (by omega)]

theorem wordBytes_copy (block content : Block) (sectors index : Nat) :
    wordBytes (block.copy 0 content 0 (128 * sectors)) index =
      if index < 512 * sectors then wordBytes content index
      else wordBytes block index := by
  unfold wordBytes
  split
  next inside =>
    rw [Memory.copy_inside (Nat.zero_le _) (by omega), Nat.sub_zero,
      Nat.zero_add]
  next outside => rw [Memory.copy_outside (by omega)]

theorem Sent.bytes
    (mapped : MappedDirectory world.bpi (vnode.on device.volume) count)
    (sent :
      Sent world
        (writtenFile world.bpi device.volume vnode.iBlock
          (changed.words world.bpi))
        order device after) :
    AgreeBelow vnode.size.toNat
      (mixedBytes (4 * world.bpi)
        (fun block => (world.sends order device.calls).sectors (.data block))
        ((vnode.on device.volume).bytes world.bpi) changed.bytes)
      ((vnode.on after.volume).bytes world.bpi) := by
  intro address below
  have isSize : vnode.size.toNat = count * (4 * world.bpi) := mapped.size
  have inside : address / (4 * world.bpi) < count := by
    refine Nat.div_lt_of_lt_mul ?_
    rw [Nat.mul_comm, ← isSize]
    exact below
  let file :=
    writtenFile world.bpi device.volume vnode.iBlock (changed.words world.bpi)
  have addresses : OneAddressEach file := mapped.addresses
  have isMapped : 2 ≤ file.number (.data (address / (4 * world.bpi))) :=
    mapped.mapped _ inside
  have isBlock := sent.block addresses isMapped
  have sameNumber :=
    numberAt_indexStored
      (sent.indexStored addresses
        (indexStored_start world vnode.iBlock (changed.words world.bpi) device))
  have isNew : wordBytes (changed.words world.bpi (address / (4 * world.bpi)))
          (address % (4 * world.bpi)) = changed.bytes address :=
    congrFun (blockBytes_words world.bpi changed) address
  show wordBytes (after.volume.blocks
    (numberAt world.bpi after.volume.blocks vnode.iBlock
      (.data (address / (4 * world.bpi)))))
    (address % (4 * world.bpi)) = _
  rw [sameNumber]
  refine (congrFun (congrArg wordBytes isBlock) _).trans ?_
  rw [wordBytes_copy]
  unfold mixedBytes
  split
  · exact isNew
  · rfl

end Device

end Short

/-- The number of blocks of a directory. -/
def DirectoryVnode.count (vnode : DirectoryVnode)
    (world : Surroundings) : Nat :=
  vnode.size.toNat / (4 * world.bpi)

/-- What becomes of the writes of a directory, but for the last of them. -/
abbrev Surroundings.sendsBody (world : Surroundings) (vnode : DirectoryVnode)
    (call : Nat) : Sending BlockAddress :=
  world.sends (bodyOrder world.bpi (vnode.count world)) call

/-- A directory with an entry at a position whose writes have stopped. -/
def cutBytes
    (world : Surroundings) (vnode : DirectoryVnode) (bytes : Memory UInt8)
    (pos : Nat) (entry : NewEntry) (call : Nat) : Memory UInt8 :=
  mixedBytes (4 * world.bpi)
    (fun block => (world.sendsBody vnode call).sectors (.data block)) bytes
    (linkedBytes bytes pos entry)

/-- How many blocks are written for an entry, the inode table among them. -/
def Surroundings.linkCalls (world : Surroundings)
    (vnode : DirectoryVnode) : Nat :=
  (bodyOrder world.bpi (vnode.count world)).length +
    (doubleOrder world.bpi (vnode.count world)).length + 1

namespace Short

/-- How `inode_link` ends on a directory whose blocks are there. -/
inductive LinkEnds
    (world : Surroundings) (vnode : DirectoryVnode) (entry : NewEntry)
    (device : Ext2Device) : Except Errno Nat → Ext2Device → Prop where
  | refused {err : Errno}
      (refused :
        ∀ pos, ¬ EntryPlace ((vnode.on device.volume).bytes world.bpi)
          vnode.size.toNat entry pos) :
      LinkEnds world vnode entry device (.error err) device
  | stopped {pos : Nat} {after : Ext2Device}
      (place :
        EntryPlace ((vnode.on device.volume).bytes world.bpi)
          vnode.size.toNat entry pos)
      (stops : (world.sendsBody vnode device.calls).finished = false)
      (data : after.data = device.data)
      (calls : after.calls = (world.sendsBody vnode device.calls).calls)
      (contents :
        vnode.contents world after =
          upTo vnode.size.toNat
            (cutBytes world vnode ((vnode.on device.volume).bytes world.bpi)
              pos entry device.calls)) :
      LinkEnds world vnode entry device (.error Errno.EIO) after
  | noBlock {pos : Nat} {after : Ext2Device} {err : Errno}
      (place :
        EntryPlace ((vnode.on device.volume).bytes world.bpi)
          vnode.size.toNat entry pos)
      (finished : (world.sendsBody vnode device.calls).finished = true)
      (needs : NeedsIndex world vnode.iBlock (vnode.count world))
      (fails : world.blockAlloc device.volume.allocated = .error err)
      (data : after.data = device.data)
      (contents :
        vnode.contents world after =
          upTo vnode.size.toNat
            (linkedBytes ((vnode.on device.volume).bytes world.bpi) pos
              entry)) :
      LinkEnds world vnode entry device (.error err) after
  | written {pos : Nat} {after : Ext2Device}
      (place :
        EntryPlace ((vnode.on device.volume).bytes world.bpi)
          vnode.size.toNat entry pos)
      (finished : (world.sendsBody vnode device.calls).finished = true)
      (found : NeedsIndex world vnode.iBlock (vnode.count world) →
        ∃ block, world.blockAlloc device.volume.allocated = .ok block)
      (calls : after.calls = device.calls + world.linkCalls vnode)
      (data : after.data = device.data) :
      LinkEnds world vnode entry device
        (.ok
          (if world.transfers (after.calls - 1) = world.spb then 0
            else world.transfers (after.calls - 1)))
        after

section Link

variable {world : Surroundings} {vnode : DirectoryVnode} {entry : NewEntry}
  {inode : Memory UInt8} {turns : Nat} {device after : Ext2Device}
  {changed : KernelBuffer} {count : Nat}

theorem count_eq
    (mapped : MappedDirectory world.bpi (vnode.on device.volume) count) :
    vnode.count world = count := by
  have someBytes : 0 < 4 * world.bpi :=
    Nat.mul_pos (by decide) mapped.someEntries
  have isSize : vnode.size.toNat = count * (4 * world.bpi) := mapped.size
  unfold DirectoryVnode.count
  rw [isSize, Nat.mul_div_cancel _ someBytes]

theorem store_ends {result : Except Errno DirectoryVnode}
    (mapped : MappedDirectory world.bpi (vnode.on device.volume) count)
    (ends :
      Ends
        (store world vnode changed
          ((vnode.on device.volume).sizeBlocks world.bpi))
        device result after) :
    ∃ stored,
      ContentEnds world vnode.iBlock (changed.words world.bpi)
          (vnode.count world) device stored after ∧
        result = stored.map fun pair => { vnode with iBlock := pair.1 } := by
  obtain ⟨isSize, small⟩ := sizeBlocks_eq mapped
  have covers := mapped.covers
  have inRange := mapped.inRange
  have isCount : (BitVec.ofInt 32 (count : Int)).toNat = count := by
    rw [BitVec.ofInt_natCast, BitVec.toNat_ofNat]
    exact Nat.mod_eq_of_lt (by omega)
  have dataMapped : DataMapped world device.volume vnode.iBlock count :=
    mapped.mapped
  obtain ⟨stored, middle, endsContent, content⟩ :=
    @inodeRwContent_ends world vnode.iBlock (changed.words world.bpi) device
      count mapped.someEntries dataMapped (by omega) mapped.addresses
  rw [count_eq mapped]
  refine ⟨stored, ?_⟩
  unfold store at ends
  rw [isSize, isCount] at ends
  dsimp only at ends
  split at ends
  · rcases ends_bind_iff.mp ends with
      ⟨err, first, rfl⟩ | ⟨pair, last, first, rest⟩
    · obtain ⟨rfl, rfl⟩ := ends_unique first endsContent
      exact ⟨content, rfl⟩
    · obtain ⟨rfl, rfl⟩ := ends_unique first endsContent
      cases rest
      exact ⟨content, rfl⟩
  · cases ends

theorem inodeDoWrite_ends {num : BitVec 32} {place : Nat × Nat}
    (hasSlot : inodeSlot world device.data num = some place) :
    ∃ last,
      Ends (inodeDoWrite world inode num) device
          (.ok
            (if world.transfers device.calls = world.spb then 0
              else world.transfers device.calls))
          last ∧
        last.data = device.data ∧ last.calls = device.calls + 1 := by
  obtain ⟨block, byte⟩ := place
  refine ⟨afterWrite world device block
    (bytesWords
      ((wordBytes (device.volume.blocks block)).copy byte inode 0 128)),
    ends_bind rfl ?_, rfl, rfl⟩
  rw [hasSlot]
  exact ends_bind (bdevWrite_ends _ _ _) rfl

theorem countLink_ends
    {stored : DirectoryVnode} {place : Nat × Nat} {result : Except Errno Nat}
    (hasSlot : inodeSlot world device.data entry.ino = some place)
    (ends :
      Ends (countLink world turns stored entry inode) device result after) :
    result =
        .ok
          (if world.transfers device.calls = world.spb then 0
            else world.transfers device.calls) ∧
      after.data = device.data ∧ after.calls = device.calls + 1 := by
  obtain ⟨last, written, sameData, isCall⟩ :=
    @inodeDoWrite_ends world (linksAdded inode) device entry.ino place hasSlot
  have same : Ends (countLink world turns stored entry inode) device
        (.ok
          (if world.transfers device.calls = world.spb then 0
            else world.transfers device.calls))
        last :=
    ends_bind (outcome_ends_iff.mpr ⟨_, written, rfl⟩) rfl
  obtain ⟨rfl, rfl⟩ := ends_unique ends same
  exact ⟨rfl, sameData, isCall⟩

theorem contents_sent {buf : KernelBuffer} {pos : Nat}
    (wellFormed : WellFormedDirectory world.bpi (vnode.on device.volume))
    (loaded :
      AgreeBelow vnode.size.toNat ((vnode.on device.volume).bytes world.bpi)
        buf.bytes)
    (place :
      EntryPlace ((vnode.on device.volume).bytes world.bpi)
        vnode.size.toNat entry pos)
    (isChanged : changed.bytes = linkedBytes buf.bytes pos entry)
    (sent :
      Sent world
        (writtenFile world.bpi device.volume vnode.iBlock
          (changed.words world.bpi))
        (bodyOrder world.bpi (vnode.count world)) device after) :
    vnode.contents world after =
      upTo vnode.size.toNat
        (cutBytes world vnode ((vnode.on device.volume).bytes world.bpi) pos
          entry device.calls) := by
  obtain ⟨count, mapped⟩ := wellFormed.blocks
  have visits :
      Visits ((vnode.on device.volume).bytes world.bpi) vnode.size.toNat pos :=
    visits_of_chain (fun _ refuses => refuses.1) place.chain
  have linked : AgreeBelow vnode.size.toNat
        (linkedBytes ((vnode.on device.volume).bytes world.bpi) pos entry)
        (linkedBytes buf.bytes pos entry) :=
    loaded.linked wellFormed.records visits place.below
  have written := sent.bytes mapped
  rw [isChanged] at written
  refine upTo_congr (.trans (fun address below => ?_) written)
  unfold cutBytes mixedBytes
  rw [linked address below]

theorem mem_bodyOrder {bpi count block : Nat} (below : block < count)
    (inSingle : block < 12 + bpi) : .data block ∈ bodyOrder bpi count := by
  have isMember {first many : Nat} (lower : first ≤ block)
      (upper : block < first + many) :
      BlockAddress.data block ∈ dataOrder first many :=
    List.mem_map_of_mem (List.mem_range'_1.mpr ⟨lower, upper⟩)
  unfold bodyOrder
  by_cases direct : block < 12
  · exact List.mem_append_left _ (isMember (Nat.zero_le _) (by omega))
  · rw [if_neg (by omega)]
    exact List.mem_append_right _
      (List.mem_append_left _ (isMember (by omega) (by omega)))

theorem cutBytes_finished {bytes : Memory UInt8} {pos : Nat}
    (someSectors : 0 < world.spb)
    (finished : (world.sendsBody vnode device.calls).finished = true)
    (few : vnode.count world ≤ 12 + world.bpi)
    (isSize : vnode.size.toNat = vnode.count world * (4 * world.bpi)) :
    upTo vnode.size.toNat (cutBytes world vnode bytes pos entry device.calls) =
      upTo vnode.size.toNat (linkedBytes bytes pos entry) := by
  refine upTo_congr fun address below => ?_
  have isWidth : 4 * world.bpi = 512 * world.spb := by
    unfold Surroundings.bpi
    omega
  have inside : address / (4 * world.bpi) < vnode.count world := by
    refine Nat.div_lt_of_lt_mul ?_
    rw [Nat.mul_comm, ← isSize]
    exact below
  have isWhole : (world.sendsBody vnode device.calls).sectors
          (.data (address / (4 * world.bpi))) =
        world.spb :=
    sectors_of_finished finished (fun call => Nat.min_le_left _ _)
      (mem_bodyOrder inside (by omega)) (decide_eq_true (by omega))
  have inBlock : address % (4 * world.bpi) < 512 * world.spb := by
    rw [isWidth]
    exact Nat.mod_lt _ (by omega)
  refine if_pos ?_
  dsimp only
  rw [isWhole]
  exact inBlock

theorem inodeLink_ends {place : Nat × Nat} {result : Except Errno Nat}
    (wellFormed : WellFormedDirectory world.bpi (vnode.on device.volume))
    (hasSlot : inodeSlot world device.data entry.ino = some place)
    (ends :
      Ends (inodeLink world turns vnode entry inode) device result after) :
    LinkEnds world vnode entry device result after := by
  obtain ⟨count, mapped⟩ := wellFormed.blocks
  obtain ⟨isBlocks, small⟩ := sizeBlocks_eq mapped
  have covers := mapped.covers
  have inRange := mapped.inRange
  have records := wellFormed.records
  have someEntries := mapped.someEntries
  have isSize : vnode.size.toNat = vnode.count world * (4 * world.bpi) := by
    rw [count_eq mapped]
    exact mapped.size
  have someSectors : 0 < world.spb := Nat.pos_of_mul_pos_left someEntries
  unfold inodeLink at ends
  split at ends
  next tooLong =>
    cases ends
    exact .refused fun pos place => Nat.not_lt.mpr place.short tooLong
  next notLong =>
    obtain ⟨_, _, first, ends⟩ :=
      (ends_bind_iff.mp ends).resolve_left fun ⟨_, first, _⟩ => by cases first
    cases first
    obtain ⟨buf, isLoaded, ends⟩ := ends_lift_iff.mp ends
    obtain ⟨found, isFound, ends⟩ := ends_lift_iff.mp ends
    have isLoadedCount := isLoaded
    rw [isBlocks] at isLoadedCount
    obtain ⟨-, loaded⟩ :=
      load_agrees mapped small (by omega) (Nat.le_refl _) isLoadedCount
    have walks := link_walks buf vnode.size.toNat entry
    obtain ⟨pos, chain, stops, -, isResult⟩ := walks.stops ⟨turns, isFound⟩
    unfold linkResult at isResult
    split at isResult
    next below =>
      subst isResult
      have hasRoom : HasRoom buf.bytes entry.size pos :=
        Classical.byContradiction fun noRoom => stops ⟨below, noRoom⟩
      have place : EntryPlace ((vnode.on device.volume).bytes world.bpi)
            vnode.size.toNat entry pos :=
        (loaded.place_iff records).mpr
          ⟨Nat.not_lt.mp notLong, chain, below, hasRoom⟩
      rcases ends_bind_iff.mp ends with
        ⟨err, first, rfl⟩ | ⟨stored, middle, first, rest⟩
      · obtain ⟨sentResult, content, isError⟩ := store_ends mapped first
        cases content with
        | stopped stops sent =>
          cases isError
          exact .stopped place stops sent.data sent.calls
            (contents_sent wellFormed loaded place rfl sent)
        | noBlock finished needs fails sent =>
          cases isError
          refine .noBlock place finished needs fails sent.data ?_
          have contents := contents_sent wellFormed loaded place rfl sent
          have isCount :=
            needs.count_eq someEntries
              (count_eq mapped ▸ mapped.mapped :
                DataMapped world device.volume vnode.iBlock (vnode.count world))
          rw [cutBytes_finished someSectors finished
            (Nat.le_of_eq isCount) isSize] at contents
          exact contents
        | whole =>
          cases isError
      · obtain ⟨sentResult, content, isStored⟩ := store_ends mapped first
        cases content with
        | stopped | noBlock =>
          cases isStored
        | whole finished found data calls =>
          rw [← data] at hasSlot
          obtain ⟨rfl, sameData, isCall⟩ := countLink_ends hasSlot rest
          have isLast : after.calls - 1 = middle.calls := by omega
          rw [← isLast]
          refine .written place finished found ?_ (sameData.trans data)
          unfold Surroundings.linkCalls
          omega
    next notBelow =>
      subst isResult
      cases ends
      refine .refused fun other placeOther => notBelow ?_
      obtain ⟨-, chainOther, belowOther, roomOther⟩ :=
        (loaded.place_iff records).mp placeOther
      obtain rfl : other = pos :=
        chainOther.stop_unique (fun refuses => refuses.2 roomOther) chain stops
      exact belowOther

end Link

end Short

end Idylla.Ext2
