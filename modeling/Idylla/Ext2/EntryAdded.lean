import Idylla.Ext2.DirectoryLink

namespace Idylla.Ext2

open Idylla.Lib

/-!
# What adding an entry leaves of the others

The entry that `inode_link` adds is found, and every other entry is as it was,
unless the new entry fills its record to the last byte: then the terminator
that `strcpy` writes is the first byte of the next entry's inode number.
-/

/--
What adding an entry is to have done: its name is found, the directory is
well-formed, and every entry that was there is still there and is found if it
was.
-/
structure EntryAdded
    (kalloc : Kalloc) (bpi : Nat) (directory after : Directory)
    (entry : NewEntry) : Prop where
  found : ∀ heap,
      Returns (fun turns => ext2Lookup kalloc bpi heap turns after entry.name)
        entry.ino
  wellFormed : WellFormedDirectory bpi after
  kept : ∀ pos, LiveEntry (directory.bytes bpi) directory.size.toNat pos →
      LiveEntry (after.bytes bpi) after.size.toNat pos ∧
        SameEntry (directory.bytes bpi) (after.bytes bpi) pos
  findable : ∀ pos, LiveEntry (directory.bytes bpi) directory.size.toNat pos →
      ∀ name, HasName (directory.bytes bpi) name pos →
        ∀ heap heapAgain,
          Returns (fun turns => ext2Lookup kalloc bpi heap turns directory name)
              (entryInode (directory.bytes bpi) pos) →
            Returns
              (fun turns => ext2Lookup kalloc bpi heapAgain turns after name)
              (entryInode (directory.bytes bpi) pos)

/--
A well-formed directory, a new name, and an inode table and fresh blocks apart
from the blocks of the directory.
-/
structure LinkReady
    (kalloc : Kalloc) (bpi : Nat)
    (blockAlloc : Nat → Nat)
    (directory : Directory) (entry : NewEntry)
    (inode : LinkedInode) : Prop where
  wellFormed : WellFormedDirectory bpi directory
  memory : HasMemory kalloc bpi directory
  named : entry.name.chars ≠ []
  absent : NameAbsent (directory.bytes bpi) directory.size.toNat entry.name
  fresh : FreshBlocks blockAlloc directory.volume.allocated
      (onDevice bpi directory.volume.blocks directory.iBlock)
  table : ∀ block byte, inode.slot = some (block, byte) →
      (∀ address, 2 ≤ directory.number bpi address →
        directory.number bpi address ≠ block) ∧
        ∀ call, blockAlloc call ≠ block

section Added

variable {kalloc : Kalloc} {bpi : Nat} {heap heapAgain : Memory Block}
  {blockAlloc : Nat → Nat} {directory after stored : Directory}
  {entry : NewEntry} {inode : LinkedInode} {buf : KernelBuffer} {pos : Nat}

/-- The bytes before and after a call, and the directory that it leaves. -/
structure RunBytes
    (bpi : Nat) (directory after : Directory) (entry : NewEntry)
    (buf : KernelBuffer)
    (pos : Nat) : Prop where
  loaded : AgreeBelow directory.size.toNat (directory.bytes bpi) buf.bytes
  written : AgreeBelow directory.size.toNat (linkedBytes buf.bytes pos entry)
      (after.bytes bpi)
  size : after.size = directory.size
  blocks : after.blocks = directory.blocks
  mapped : ∃ count, MappedDirectory bpi after count

theorem LinkRun.bytes
    (ready : LinkReady kalloc bpi blockAlloc directory entry inode)
    (run :
      LinkRun kalloc bpi heap blockAlloc directory entry inode after buf pos
        stored) : RunBytes bpi directory after entry buf pos := by
  obtain ⟨count, mapped⟩ := ready.wellFormed.blocks
  obtain ⟨isSize, small⟩ := sizeBlocks_eq mapped
  have covers := mapped.covers
  have inRange := mapped.inRange
  have isLoaded := run.loaded
  rw [isSize] at isLoaded
  obtain ⟨-, loaded⟩ :=
    load_agrees mapped small (by omega) (Nat.le_refl _) isLoaded
  have back := store_writtenBack mapped ready.fresh run.isStored
  obtain ⟨block, byte, content, isSlot, isAfter⟩ := run.counted
  obtain ⟨apart, apartNew⟩ := ready.table block byte isSlot
  have apartStored (address : BlockAddress)
      (isMapped : 2 ≤ stored.number bpi address) :
      stored.number bpi address ≠ block := by
    rcases back.numbers address isMapped with isOld | ⟨call, isNew⟩
    · rw [isOld] at isMapped ⊢
      exact apart address isMapped
    · rw [isNew]
      exact apartNew call
  obtain ⟨mappedAfter, agree⟩ :=
    writtenElsewhere back.mapped apartStored content isAfter
  rw [back.size] at agree
  subst isAfter
  exact
    { loaded := loaded
      written := back.bytes.trans agree
      size := back.size
      blocks := back.blocks
      mapped := ⟨count, mappedAfter⟩ }

theorem LinkRun.added
    (ready : LinkReady kalloc bpi blockAlloc directory entry inode)
    (run :
      LinkRun kalloc bpi heap blockAlloc directory entry inode after buf pos
        stored)
    (clean : ¬ Clobbers (directory.bytes bpi) directory.size.toNat entry) :
    EntryAdded kalloc bpi directory after entry := by
  obtain ⟨loaded, written, sameSize, sameBlocks, mapped⟩ := run.bytes ready
  have records := ready.wellFormed.records
  have formed := loaded.formed_other records
  have visits : Visits buf.bytes directory.size.toNat pos :=
    visits_of_chain (fun _ refuses => refuses.1) run.chain
  obtain ⟨sameLink, sameClobbers⟩ := loaded.link_iff records run.below
  have cleanAt : ¬ ClobbersAt buf.bytes directory.size.toNat entry pos := by
    intro clobbers
    obtain ⟨chain, hasRoom⟩ := sameLink.mpr ⟨run.chain, run.hasRoom⟩
    have visited := (loaded.visits_iff records).mp visits
    exact clean
      ⟨pos, chain, run.below, hasRoom, (sameClobbers visited).mpr clobbers⟩
  have inserted :=
    linkedBytes_inserted formed visits run.below run.short run.hasRoom cleanAt
  have formedLinked := inserted.formed_after formed visits run.below
  have absent := (loaded.absent_iff records).mpr ready.absent
  have formedAfter := written.formed_other formedLinked
  have wellFormed : WellFormedDirectory bpi after :=
    ⟨mapped, by rw [sameSize]; exact formedAfter⟩
  have memory : HasMemory kalloc bpi after := by
    have same : after.countedBlocks bpi = directory.countedBlocks bpi := by
      unfold Directory.countedBlocks
      rw [sameBlocks]
    unfold HasMemory
    rw [same]
    exact ready.memory
  have finds {name : CString} {ino : BitVec 32} (named : name.chars ≠ [])
      (found :
        LookupFinds (linkedBytes buf.bytes pos entry) directory.size.toNat
          name ino)
      (heap : Memory Block) :
      Returns (fun turns => ext2Lookup kalloc bpi heap turns after name)
        ino := by
    rw [ext2Lookup_returns_iff wellFormed memory named, sameSize]
    exact (written.finds_iff formedLinked).mpr found
  refine
    { found := fun heap => finds ready.named ?_ heap
      wellFormed := wellFormed
      kept := fun other live => ?_
      findable := fun other live name has heap heapAgain returns => ?_ }
  · exact inserted.finds_new formed visits run.below ready.named absent
      run.chain run.hasRoom
  · have liveLoaded := (loaded.live_iff records).mpr live
    obtain ⟨liveLinked, same⟩ :=
      inserted.kept formed visits run.below liveLoaded
    have liveAfter := (written.live_iff formedLinked).mpr liveLinked
    rw [sameSize]
    refine ⟨liveAfter, ?_⟩
    have first := (loaded.record records live.1 live.2.1).1
    have last := (written.record formedLinked liveLinked.1 liveLinked.2.1).1
    exact first.trans (same.trans last)
  · rw [ext2Lookup_returns_iff ready.wellFormed ready.memory has.2.1,
      ← loaded.finds_iff records] at returns
    refine finds has.2.1 ?_ heapAgain
    refine inserted.finds_after formed visits run.below (fun hasNew => ?_)
      live.2.2 returns
    -- An entry with the new name would have been there before.
    have sameName : name = entry.name :=
      hasNew.unique ⟨inserted.nameLen, ready.named, inserted.name⟩
    rw [sameName] at has
    exact ready.absent other live has

theorem LinkRun.not_added
    (ready : LinkReady kalloc bpi blockAlloc directory entry inode)
    (run :
      LinkRun kalloc bpi heap blockAlloc directory entry inode after buf pos
        stored)
    (clobbers : Clobbers (directory.bytes bpi) directory.size.toNat entry) :
    ¬ EntryAdded kalloc bpi directory after entry := by
  obtain ⟨loaded, written, sameSize, -, -⟩ := run.bytes ready
  have records := ready.wellFormed.records
  obtain ⟨other, chain, below, hasRoom, clobbersAt⟩ := clobbers
  have visits : Visits (directory.bytes bpi) directory.size.toNat other :=
    visits_of_chain (fun _ refuses => refuses.1) chain
  obtain ⟨sameLink, sameClobbers⟩ :=
    @AgreeBelow.link_iff (directory.bytes bpi) _ _ entry buf.bytes _ loaded
      records below
  obtain ⟨chainLoaded, roomLoaded⟩ := sameLink.mp ⟨chain, hasRoom⟩
  obtain rfl : pos = other :=
    run.chain.stop_unique (fun refuses => refuses.2 run.hasRoom) chainLoaded
      fun refuses => refuses.2 roomLoaded
  have visitsLoaded := (loaded.visits_iff records).mpr visits
  obtain ⟨liveLoaded, differs⟩ :=
    linkedBytes_clobbers visitsLoaded below run.short
      ((sameClobbers visits).mp clobbersAt)
  have live := (loaded.live_iff records).mp liveLoaded
  obtain ⟨inside, inSize⟩ := records.bounds live.1 live.2.1
  intro added
  have same := (added.kept _ live).2.inode
  refine differs ?_
  have isWritten : entryInode (after.bytes bpi) (behind buf.bytes pos) =
        entryInode (linkedBytes buf.bytes pos entry)
          (behind buf.bytes pos) := by
    unfold entryInode
    rw [Memory.number_congr fun index _ => written _ (by omega)]
  rw [← isWritten, same, (loaded.record records live.1 live.2.1).1.inode]

/--
A call returns 0 if there is memory, the inode has a place and a record has
room for the entry and its terminator.
-/
theorem inodeLink_returns {length : Nat}
    (ready : LinkReady kalloc bpi blockAlloc directory entry inode)
    (short : entry.name.strlen ≤ maxFileName)
    (memory :
      kalloc.capacity
          (BitVec.ofInt 32 (directory.sizeBlocks bpi * (4 * bpi : Nat))) =
        some length) (enough : directory.size.toNat ≤ length)
    (hasSlot : inode.slot ≠ none)
    (chain :
      Chain (Refuses (directory.bytes bpi) directory.size.toNat entry.size)
        (behind (directory.bytes bpi)) 0 pos)
    (below : pos < directory.size.toNat)
    (hasRoom : HasRoom (directory.bytes bpi) entry.size pos)
    (terminated :
      placeAt (directory.bytes bpi) pos + 8 + (entry.name.strlen + 1) ≤
        directory.size.toNat) (heap heapAgain : Memory Block) :
    ∃ after,
      Returns
        (fun turns =>
          inodeLink kalloc bpi heap turns blockAlloc heapAgain directory
            entry inode)
        (after, .ok 0) := by
  obtain ⟨count, mapped⟩ := ready.wellFormed.blocks
  obtain ⟨isSize, small⟩ := sizeBlocks_eq mapped
  have covers := mapped.covers
  have inRange := mapped.inRange
  have records := ready.wellFormed.records
  obtain ⟨buf, isLoaded⟩ :
      ∃ buf, directory.load kalloc bpi heap count = .ok buf := by
    rw [isSize] at memory
    rw [load_eq mapped small (by omega), memory]
    dsimp only
    have fits :=
      Nat.mul_le_mul_right (4 * bpi)
        (FileMap.mappedCount_le
          (onDevice bpi directory.volume.blocks directory.iBlock) 0 count)
    rw [← mapped.size] at fits
    rw [if_pos (Nat.le_trans fits enough)]
    exact ⟨_, rfl⟩
  obtain ⟨inside, loaded⟩ :=
    load_agrees mapped small (by omega) (Nat.le_refl _) isLoaded
  have formed := loaded.formed_other records
  obtain ⟨sameLink, -⟩ := loaded.link_iff records below
  obtain ⟨chainLoaded, roomLoaded⟩ := sameLink.mp ⟨chain, hasRoom⟩
  have isStop : ¬ Refuses buf.bytes directory.size.toNat entry.size pos :=
    fun refuses => refuses.2 roomLoaded
  have fits (other : Nat)
      (chainOther :
        Chain (Refuses buf.bytes directory.size.toNat entry.size)
          (behind buf.bytes) 0 other)
      (belowOther : other < directory.size.toNat) :
      LinkFits buf entry other := by
    have visits : Visits buf.bytes directory.size.toNat other :=
      visits_of_chain (fun _ refuses => refuses.1) chainOther
    obtain ⟨inRecord, inSize⟩ := formed.bounds visits belowOther
    refine ⟨by omega, fun _ _ => by omega, fun room => ?_⟩
    obtain rfl : pos = other :=
      chainLoaded.stop_unique isStop chainOther fun refuses => refuses.2 room
    have visited := (loaded.visits_iff records).mp visits
    obtain ⟨same, -⟩ := loaded.record records visited below
    have samePlace :
        placeAt buf.bytes pos = placeAt (directory.bytes bpi) pos := by
      unfold placeAt
      rw [same.inode, same.nameLen]
    rw [samePlace]
    exact Nat.le_trans terminated inside
  have walks := link_walks buf directory.size.toNat entry
  have found := walks.returns_leaves fits chainLoaded isStop
  obtain ⟨stored, isStored⟩ : ∃ stored,
        directory.store bpi blockAlloc
            { buf with bytes := linkedBytes buf.bytes pos entry }
            (directory.sizeBlocks bpi) =
          .ok stored :=
    store_returns mapped ready.fresh inside
  obtain ⟨slot, bytes⟩ := inode
  cases slot with
  | none =>
    exact absurd rfl hasSlot
  | some place =>
    refine
      ⟨{ stored with
         volume :=
           (stored.volume.inodeDoWrite (some place) (linksAdded bytes)).1 },
        ?_⟩
    unfold inodeLink
    simp only [if_neg (Nat.not_lt.mpr short)]
    refine (returns_bind_iff (stable_const _) fun _ =>
      stable_bind (loop_stable _) fun _ => finishLink_stable).mpr
      ⟨buf, returns_const_iff.mpr (by rw [isSize]; exact isLoaded), ?_⟩
    refine (returns_bind_iff (loop_stable _) fun _ =>
      finishLink_stable).mpr ⟨_, found, ?_⟩
    unfold linkResult
    rw [if_pos below]
    refine (returns_bind_iff (stable_const _) fun _ =>
      countLink_stable).mpr ⟨stored, returns_const_iff.mpr isStored, ?_⟩
    exact ⟨0, rfl⟩

end Added

/--
`inode_link` adds an entry and disturbs no other one exactly if the new entry
does not clobber the record behind it.
-/
theorem inodeLink_entryAdded_iff
    {kalloc : Kalloc} {bpi : Nat} {heap heapAgain : Memory Block}
    {blockAlloc : Nat → Nat} {directory after : Directory} {entry : NewEntry}
    {inode : LinkedInode}
    (ready : LinkReady kalloc bpi blockAlloc directory entry inode)
    (returns :
      Returns
        (fun turns =>
          inodeLink kalloc bpi heap turns blockAlloc heapAgain directory
            entry inode)
        (after, .ok 0)) :
    EntryAdded kalloc bpi directory after entry ↔
      ¬ Clobbers (directory.bytes bpi) directory.size.toNat entry := by
  obtain ⟨buf, pos, stored, run⟩ := inodeLink_run returns
  exact ⟨fun added clobbers => run.not_added ready clobbers added,
    run.added ready⟩

/--
The block of a directory with the entry `abcd` in a record of 24 bytes and the
entry `z` in one of 1000 bytes.
-/
def twoEntriesBlock : Block
  | 0 => 11
  | 1 => 0x01040018
  | 2 => 0x64636261
  | 6 => 13
  | 7 => 0x010103e8
  | 8 => 0x7a
  | _ => 0

/-- The directory with that block. -/
def twoEntries : Directory where
  volume :=
    { zeroVolume with
      blocks := fun block => if block = 2 then twoEntriesBlock else zeroBlock }
  iBlock := fun pos => if pos = 0 then 2 else 0
  size := 1024
  blocks := 2

/-- A regular file as a new entry. -/
def newFile (name : CString) : NewEntry where
  name := name
  ino := 12
  fileType := 1

/-- The name `xyz`. -/
def nameXyz : CString := ⟨[120, 121, 122], by simp⟩

/-- The name `wxyz`. -/
def nameWxyz : CString := ⟨[119, 120, 121, 122], by simp⟩

theorem twoEntries_number (address : BlockAddress) :
    twoEntries.number 256 address = if address = .data 0 then 2 else 0 := by
  show numberAt 256 twoEntries.volume.blocks
    (fun pos => if pos = 0 then 2 else 0) address = _
  cases address with
  | single =>
    rfl
  | double =>
    rfl
  | table index =>
    simp [numberAt, entryAt]
  | data block =>
    by_cases isFirst : block = 0
    · simp [numberAt, isFirst]
    · simp [numberAt, entryAt, isFirst]

theorem twoEntries_mapped : MappedDirectory 256 twoEntries 1 where
  someEntries := by decide
  size := by decide
  addresses := fun address other mapped shared => by
    have isNumber := twoEntries_number address
    have isOther := twoEntries_number other
    have isMapped : 2 ≤ twoEntries.number 256 address := mapped
    have isShared :
        twoEntries.number 256 address = twoEntries.number 256 other :=
      shared
    split at isNumber
    next isFirst =>
      split at isOther
      next otherIsFirst => rw [isFirst, otherIsFirst]
      next otherIsNone => omega
    next isNone => omega
  mapped := fun block below => by
    obtain rfl : block = 0 := by omega
    rewrite [twoEntries_number, if_pos rfl]
    exact Nat.le_refl 2
  noSpareIndex := by decide
  covers := by decide
  inRange := by decide

theorem twoEntries_visits {pos : Nat}
    (visits : Visits (twoEntries.bytes 256) 1024 pos) (below : pos < 1024) :
    pos = 0 ∨ pos = 24 := by
  have all : pos = 0 ∨ pos = 24 ∨ pos = 1024 := by
    clear below
    induction visits with
    | start =>
      exact .inl rfl
    | pass before on ih =>
      rcases ih with rfl | rfl | rfl
      · exact .inr (.inl (by decide))
      · exact .inr (.inr (by decide))
      · omega
  omega

theorem twoEntries_wellFormed : WellFormedDirectory 256 twoEntries where
  blocks := ⟨1, twoEntries_mapped⟩
  records :=
    { whole := by decide
      record := fun pos visits below => by
        rcases twoEntries_visits visits below with rfl | rfl
        · exact ⟨by decide, by decide, by decide⟩
        · exact ⟨by decide, by decide, by decide⟩ }

/-- The inode of the new file, in block 1. -/
def newInode : LinkedInode :=
  ⟨some (1, 0), fun _ => 0⟩

theorem twoEntries_absent {name : CString}
    (notFirst : ¬ HasName (twoEntries.bytes 256) name 0)
    (notSecond : ¬ HasName (twoEntries.bytes 256) name 24) :
    NameAbsent (twoEntries.bytes 256) 1024 name := by
  intro pos live
  rcases twoEntries_visits live.1 live.2.1 with rfl | rfl
  · exact notFirst
  · exact notSecond

theorem twoEntries_ready {name : CString} (named : name.chars ≠ [])
    (notFirst : ¬ HasName (twoEntries.bytes 256) name 0)
    (notSecond : ¬ HasName (twoEntries.bytes 256) name 24) :
    LinkReady wholeHeap 256 (fun call => call + 3) twoEntries (newFile name)
      newInode where
  wellFormed := twoEntries_wellFormed
  memory := by
    unfold HasMemory
    decide
  named := named
  absent := twoEntries_absent notFirst notSecond
  fresh :=
    { distinct := fun call other same => Nat.add_right_cancel same
      valid := fun call => Nat.le_add_left 2 (call + 1)
      unused := fun call address _ => by
        have isNumber := twoEntries_number address
        show twoEntries.number 256 address ≠ call + 3
        split at isNumber <;> omega }
  table := fun block byte isSlot => by
    cases isSlot
    refine ⟨fun address isMapped => ?_, fun call => by omega⟩
    have isNumber := twoEntries_number address
    split at isNumber <;> omega

theorem twoEntries_returns {name : CString}
    (ready :
      LinkReady wholeHeap 256 (fun call => call + 3) twoEntries
        (newFile name) newInode) (short : name.strlen ≤ 4)
    (isSize : (newFile name).size = 12) :
    ∃ after,
      Returns
        (fun turns =>
          inodeLink wholeHeap 256 (fun _ => zeroBlock) turns
            (fun call => call + 3) (fun _ => zeroBlock) twoEntries
            (newFile name) newInode)
        (after, .ok 0) := by
  have hasRoom : HasRoom (twoEntries.bytes 256) (newFile name).size 0 := by
    rw [isSize]
    decide
  refine @inodeLink_returns _ _ _ _ _ _ 0 1024 ready ?_ (by decide)
    (by decide) (by decide) .start (by decide) hasRoom ?_ _ _
  · exact Nat.le_trans short (by decide)
  · show 12 + 8 + (name.strlen + 1) ≤ 1024
    omega

/-- A name of three bytes leaves room for its terminator. -/
theorem nameXyz_added :
    ∃ after,
      Returns
        (fun turns =>
          inodeLink wholeHeap 256 (fun _ => zeroBlock) turns
            (fun call => call + 3) (fun _ => zeroBlock) twoEntries
            (newFile nameXyz) newInode)
        (after, .ok 0) ∧
      EntryAdded wholeHeap 256 twoEntries after (newFile nameXyz) := by
  have ready := @twoEntries_ready nameXyz (by decide) (by decide) (by decide)
  obtain ⟨after, returns⟩ := twoEntries_returns ready (by decide) (by decide)
  refine ⟨after, returns, (inodeLink_entryAdded_iff ready returns).mpr ?_⟩
  rintro ⟨pos, chain, below, -, fills, -⟩
  have visits : Visits (twoEntries.bytes 256) 1024 pos :=
    visits_of_chain (fun _ refuses => refuses.1) chain
  rcases twoEntries_visits visits below with rfl | rfl
  · exact absurd fills (by decide)
  · exact absurd fills (by decide)

/--
A name of four bytes fills the record: its terminator takes the inode number of
the entry `z` away.
-/
theorem nameWxyz_not_added :
    LinkReady wholeHeap 256 (fun call => call + 3) twoEntries
        (newFile nameWxyz) newInode ∧
      ∃ after,
        Returns
          (fun turns =>
            inodeLink wholeHeap 256 (fun _ => zeroBlock) turns
              (fun call => call + 3) (fun _ => zeroBlock) twoEntries
              (newFile nameWxyz) newInode)
          (after, .ok 0) ∧
        ¬ EntryAdded wholeHeap 256 twoEntries after (newFile nameWxyz) := by
  have ready := @twoEntries_ready nameWxyz (by decide) (by decide) (by decide)
  obtain ⟨after, returns⟩ := twoEntries_returns ready (by decide) (by decide)
  refine ⟨ready, after, returns, ?_⟩
  obtain ⟨buf, pos, stored, run⟩ := inodeLink_run returns
  refine run.not_added ready ⟨0, .start, by decide, by decide, ?_⟩
  exact ⟨by decide, by decide, by decide⟩

end Idylla.Ext2
