import Idylla.Ext2.DirectoryRecords
import Idylla.Ext2.DirectorySafe
import Idylla.Ext2.InodeHoles

namespace Idylla.Ext2

open Idylla.Lib

/-!
# Adding an entry to a directory

`inode_link` loads the blocks of a directory, puts the new entry in and writes
them back.  The entry disturbs no other one unless the terminator of its name
falls on the record behind it.
-/

/-- The bytes of the blocks of a directory. -/
def Directory.bytes (bpi : Nat) (directory : Directory) : Memory UInt8 :=
  blockBytes bpi (onDevice bpi directory.volume.blocks directory.iBlock).logical

/-- The number of the block at an address of a directory. -/
def Directory.number (bpi : Nat) (directory : Directory) : BlockAddress → Nat :=
  numberAt bpi directory.volume.blocks directory.iBlock

/--
A directory of so many whole blocks, all of them there; `i_blocks` stands for
at least as many, and at most for what two levels of index blocks can name.
-/
structure MappedDirectory
    (bpi : Nat) (directory : Directory)
    (count : Nat) : Prop where
  someEntries : 0 < bpi
  size : directory.size.toNat = count * (4 * bpi)
  addresses :
    OneAddressEach (onDevice bpi directory.volume.blocks directory.iBlock)
  mapped : ∀ block < count, 2 ≤ directory.number bpi (.data block)
  noSpareIndex : 2 ≤ directory.iBlock 12 → 12 ≤ count
  covers : (count : Int) ≤ directory.countedBlocks bpi
  inRange : directory.countedBlocks bpi ≤ (12 + bpi + bpi * bpi : Nat)

/-- A directory whose blocks are there and whose records are well-formed. -/
structure WellFormedDirectory
    (bpi : Nat)
    (directory : Directory) : Prop where
  blocks : ∃ count, MappedDirectory bpi directory count
  records : RecordsFormed (directory.bytes bpi) (4 * bpi) directory.size.toNat

/-- `kalloc` has memory for all blocks that `i_blocks` stands for. -/
def HasMemory (kalloc : Kalloc) (bpi : Nat) (directory : Directory) : Prop :=
  kalloc.capacity
      (BitVec.ofInt 32 (directory.countedBlocks bpi * (4 * bpi : Nat))) =
    some (directory.countedBlocks bpi * (4 * bpi : Nat)).toNat

section Loading

variable {kalloc : Kalloc} {bpi count : Nat} {heap : Memory Block}
  {directory : Directory} {buf : KernelBuffer}

theorem wordBytes_bytesWords (bytes : Memory UInt8) :
    wordBytes (bytesWords bytes) = bytes := by
  funext index
  have first := (bytes (4 * (index / 4))).toNat_lt
  have second := (bytes (4 * (index / 4) + 1)).toNat_lt
  have third := (bytes (4 * (index / 4) + 2)).toNat_lt
  have fourth := (bytes (4 * (index / 4) + 3)).toNat_lt
  unfold wordBytes bytesWords
  refine UInt8.toNat_inj.mp ?_
  rw [UInt8.toNat_ofNat']
  have isByte : bytes index = bytes (4 * (index / 4) + index % 4) :=
    congrArg bytes (by omega)
  rw [isByte]
  rcases (by omega :
    index % 4 = 0 ∨ index % 4 = 1 ∨ index % 4 = 2 ∨ index % 4 = 3) with
    rest | rest | rest | rest
  · rw [rest, Nat.add_zero (4 * (index / 4))]
    omega
  all_goals
    rw [rest]
    omega

theorem ext2InodeBlocks_lt (blkSize blocks : Nat) :
    ext2InodeBlocks blkSize blocks < 2 ^ 31 := by
  unfold ext2InodeBlocks
  have small := int32_lt (blocks * 512)
  by_cases isNat : 0 ≤ int32 (blocks * 512)
  · have quotient := Int.tdiv_le_self (blkSize : Int) isNat
    omega
  · have quotient : 0 ≤ (-int32 (blocks * 512)).tdiv blkSize :=
      Int.tdiv_nonneg (by omega) (Int.natCast_nonneg _)
    rw [Int.neg_tdiv] at quotient
    omega

variable {blocks : Nat}

theorem load_eq (mapped : MappedDirectory bpi directory count)
    (small : blocks < 2 ^ 31) (inRange : blocks ≤ 12 + bpi + bpi * bpi)
    (heap : Memory Block) :
    directory.load kalloc bpi heap blocks =
      match kalloc.capacity
          (BitVec.ofInt 32 ((blocks : Int) * (4 * bpi : Nat))) with
      | none => .error .panics
      | some length =>
        let file :=
          onDevice bpi directory.volume.blocks directory.iBlock
        let read := file.mappedCount 0 blocks
        if read * (4 * bpi) ≤ length then
          .ok ⟨blockBytes bpi (heap.copy 0 file.logical 0 read), length⟩
        else
          .error .strays := by
  have isCount : (BitVec.ofInt 32 (blocks : Int)).toNat = blocks := by
    rw [BitVec.ofInt_natCast, BitVec.toNat_ofNat]
    exact Nat.mod_eq_of_lt (by omega)
  have reads : ReadsMapped bpi directory.volume directory.iBlock blocks 0 := by
    refine readsMapped_of_noHole (by omega)
      fun hasSingle block _ _ isDirect => ?_
    have present :=
      mapped.mapped block (by have many := mapped.noSpareIndex hasSingle; omega)
    unfold Directory.number at present
    rwa [numberAt, if_pos isDirect] at present
  have isRead := reads heap
  rw [inodeReadIndexed_eq_inodeReadContent mapped.someEntries] at isRead
  unfold Directory.load
  rewrite [isCount, isRead]
  cases kalloc.capacity (BitVec.ofInt 32 ((blocks : Int) * (4 * bpi : Nat)))
  all_goals rfl

theorem blockBytes_agree {content other : Memory Block}
    (same : ∀ block < count, other block = content block) :
    AgreeBelow (count * (4 * bpi)) (blockBytes bpi content)
      (blockBytes bpi other) := by
  intro address below
  have isBlock : address / (4 * bpi) < count :=
    Nat.div_lt_of_lt_mul (by rw [Nat.mul_comm]; exact below)
  show wordBytes (other _) _ = wordBytes (content _) _
  rw [same _ isBlock]

section

variable (mapped : MappedDirectory bpi directory count)

include mapped

theorem count_le_mappedCount (enough : count ≤ blocks) :
    count ≤
      (onDevice bpi directory.volume.blocks
        directory.iBlock).mappedCount 0 blocks := by
  refine Nat.not_lt.mp fun short => ?_
  have isHole :=
    FileMap.hole_of_mappedCount_lt (Nat.lt_of_lt_of_le short enough)
  rw [Nat.zero_add] at isHole
  have present := mapped.mapped _ short
  exact absurd isHole (Nat.not_lt.mpr present)

theorem load_agrees (small : blocks < 2 ^ 31)
    (inRange : blocks ≤ 12 + bpi + bpi * bpi) (enough : count ≤ blocks)
    (loaded : directory.load kalloc bpi heap blocks = .ok buf) :
    directory.size.toNat ≤ buf.length ∧
      AgreeBelow directory.size.toNat (directory.bytes bpi) buf.bytes := by
  rw [load_eq mapped small inRange] at loaded
  have isRead := count_le_mappedCount mapped enough
  split at loaded
  · cases loaded
  dsimp only at loaded
  split at loaded
  next length capacity fits =>
    cases loaded
    have scaled := Nat.mul_le_mul_right (4 * bpi) isRead
    rw [mapped.size]
    refine ⟨Nat.le_trans scaled fits, blockBytes_agree fun block below => ?_⟩
    rw [Memory.copy_inside (Nat.zero_le _) (by omega)]
    congr 1
    omega
  · cases loaded

theorem load_counted (memory : HasMemory kalloc bpi directory)
    (heap : Memory Block) :
    ∃ buf,
      directory.load kalloc bpi heap (directory.countedBlocks bpi) = .ok buf ∧
        directory.size.toNat ≤ buf.length ∧
        AgreeBelow directory.size.toNat (directory.bytes bpi) buf.bytes := by
  have covers := mapped.covers
  have inRange := mapped.inRange
  have small := ext2InodeBlocks_lt (4 * bpi) directory.blocks.toNat
  obtain ⟨blocks, isBlocks⟩ :
      ∃ blocks : Nat, directory.countedBlocks bpi = blocks :=
    Int.eq_ofNat_of_zero_le (by omega)
  have isSmall : blocks < 2 ^ 31 := by
    have isInt : (blocks : Int) < 2 ^ 31 := isBlocks ▸ small
    omega
  have enough : count ≤ blocks := by omega
  have loaded : ∃ buf, directory.load kalloc bpi heap blocks = .ok buf := by
    rw [load_eq mapped isSmall (by omega)]
    unfold HasMemory at memory
    rw [isBlocks] at memory
    rw [memory]
    dsimp only
    have fits :=
      Nat.mul_le_mul_right (4 * bpi)
        (FileMap.mappedCount_le
          (onDevice bpi directory.volume.blocks directory.iBlock) 0 blocks)
    rw [← Int.natCast_mul, Int.toNat_natCast, if_pos fits]
    exact ⟨_, rfl⟩
  obtain ⟨buf, isLoaded⟩ := loaded
  rw [isBlocks]
  exact ⟨buf, isLoaded, load_agrees mapped isSmall (by omega) enough isLoaded⟩

theorem sizeBlocks_eq :
    directory.sizeBlocks bpi = count ∧ count < 2 ^ 31 := by
  have someBytes : 0 < 4 * bpi := Nat.mul_pos (by decide) mapped.someEntries
  have isSize := mapped.size
  have fewer : count * 4 ≤ count * (4 * bpi) :=
    Nat.mul_le_mul_left count (by omega)
  have small : count < 2 ^ 31 := by omega
  have whole : directory.size.toNat % (4 * bpi) = 0 := by
    rw [isSize]
    exact Nat.mul_mod_left _ _
  refine ⟨?_, small⟩
  unfold Directory.sizeBlocks roundUp
  rw [if_neg fun rest => rest whole, isSize, Nat.mul_div_cancel _ someBytes]
  unfold int32
  rw [BitVec.toInt_eq_toNat_cond, BitVec.toNat_ofNat,
    Nat.mod_eq_of_lt (by omega), if_pos (by omega)]

end

theorem searchFits {name : CString} {blkSize size : Nat}
    (formed : RecordsFormed buf.bytes blkSize size) (named : name.chars ≠ [])
    (loaded : size ≤ buf.length) : SearchFits buf size name := by
  intro pos chain below
  have visits : Visits buf.bytes size pos :=
    visits_of_chain (fun _ skips => skips.1) chain
  obtain ⟨inside, inSize⟩ := formed.bounds visits below
  refine ⟨by omega, fun _ => ⟨by omega, fun sameLength => ?_⟩⟩
  unfold NameInside
  rw [if_neg named]
  intro index isIndex _
  have isLength : name.strlen = name.chars.length := rfl
  omega

theorem ext2Lookup_returns_iff {name : CString} {ino : BitVec 32}
    (wellFormed : WellFormedDirectory bpi directory)
    (memory : HasMemory kalloc bpi directory) (named : name.chars ≠ [])
    (heap : Memory Block) :
    Returns (fun turns => ext2Lookup kalloc bpi heap turns directory name) ino ↔
      LookupFinds (directory.bytes bpi) directory.size.toNat name ino := by
  obtain ⟨count, mapped⟩ := wellFormed.blocks
  obtain ⟨buf, isLoaded, inside, agree⟩ := load_counted mapped memory heap
  have formed := agree.formed_other wellFormed.records
  rw [← agree.finds_iff wellFormed.records]
  unfold ext2Lookup
  rw [isLoaded]
  have walks := lookup_walks buf directory.size.toNat name
  have fits := searchFits formed named inside
  constructor
  · intro returns
    obtain ⟨pos, chain, stops, -, isResult⟩ := walks.stops returns
    exact ⟨pos, chain, stops, isResult.symm⟩
  · rintro ⟨pos, chain, stops, rfl⟩
    exact walks.returns_leaves fits chain stops

end Loading

section Storing

variable {blockAlloc : Nat → Nat} {bpi count : Nat}
  {directory after : Directory} {buf : KernelBuffer}

theorem blockBytes_words (bpi : Nat) (buf : KernelBuffer) :
    blockBytes bpi (buf.words bpi) = buf.bytes := by
  funext address
  show wordBytes (bytesWords _) _ = _
  rw [wordBytes_bytesWords, Nat.div_add_mod']

/-- What a directory is like that has been written back. -/
structure WrittenBack
    (blockAlloc : Nat → Nat)
    (bpi count : Nat) (directory : Directory) (bytes : Memory UInt8)
    (after : Directory) : Prop where
  mapped : MappedDirectory bpi after count
  size : after.size = directory.size
  blocks : after.blocks = directory.blocks
  bytes : AgreeBelow directory.size.toNat bytes (after.bytes bpi)
  numbers : ∀ address, 2 ≤ after.number bpi address →
      after.number bpi address = directory.number bpi address ∨
        ∃ call, after.number bpi address = blockAlloc call

variable (mapped : MappedDirectory bpi directory count)

include mapped

theorem writeBlocks_reaches
    (fresh :
      FreshBlocks blockAlloc directory.volume.allocated
        (onDevice bpi directory.volume.blocks directory.iBlock))
    (words : Memory Block) :
    ∃ last table file,
      inodeWriteContent blockAlloc bpi words directory.volume
          directory.iBlock count 0 =
        some (last, table, count) ∧
      Reached blockAlloc directory.volume.allocated
        (onDevice bpi directory.volume.blocks directory.iBlock) words 0 last
        file count ∧
      Synced bpi file ∧ Rooted table file := by
  have covers := mapped.covers
  have inRange := mapped.inRange
  obtain ⟨last, table, file, returns, reached, synced, rooted⟩ :
      ∃ last table file,
        inodeWriteContent blockAlloc bpi words directory.volume
            directory.iBlock count 0 =
          some (last, table, count) ∧
        Reached blockAlloc directory.volume.allocated
          (onDevice bpi directory.volume.blocks directory.iBlock) words 0
          last file (if count = 0 then min 0 12 else 0 + count) ∧
        Synced bpi file ∧ Rooted table file :=
    inodeWriteContent_reaches (onDevice_reached words 0 mapped.addresses fresh)
      (onDevice_synced bpi _ _) (onDevice_rooted bpi _ _)
      mapped.someEntries (by omega)
      fun block _ _ below => mapped.mapped block (by omega)
  have border : (if count = 0 then min 0 12 else 0 + count) = count := by
    split <;> omega
  rw [border] at reached
  exact ⟨last, table, file, returns, reached, synced, rooted⟩

theorem store_eq {last : Ext2Volume} {table : Block}
    (returns :
      inodeWriteContent blockAlloc bpi (buf.words bpi) directory.volume
          directory.iBlock count 0 =
        some (last, table, count)) :
    directory.store bpi blockAlloc buf (directory.sizeBlocks bpi) =
      if directory.size.toNat ≤ buf.length then
        .ok { directory with volume := last, iBlock := table }
      else
        .error .strays := by
  obtain ⟨isSize, small⟩ := sizeBlocks_eq mapped
  have isCount : (BitVec.ofInt 32 (count : Int)).toNat = count := by
    rw [BitVec.ofInt_natCast, BitVec.toNat_ofNat]
    exact Nat.mod_eq_of_lt (by omega)
  unfold Directory.store
  rw [isSize, isCount, mapped.size]
  dsimp only
  rw [returns]

theorem store_writtenBack
    (fresh :
      FreshBlocks blockAlloc directory.volume.allocated
        (onDevice bpi directory.volume.blocks directory.iBlock))
    (stored :
      directory.store bpi blockAlloc buf (directory.sizeBlocks bpi) =
        .ok after) :
    WrittenBack blockAlloc bpi count directory buf.bytes after := by
  have covers := mapped.covers
  have inRange := mapped.inRange
  obtain ⟨last, table, file, returns, ⟨progress, done, rest⟩, synced,
    rooted⟩ := writeBlocks_reaches mapped fresh (buf.words bpi)
  rw [store_eq mapped returns] at stored
  split at stored
  next fits =>
    cases stored
    have isNumber : numberAt bpi last.blocks table = file.number := by
      refine numberAt_eq progress.stored synced rooted fun block isBeyond => ?_
      rw [(rest block (by omega)).1]
      show numberAt bpi _ _ (.data block) = 0
      rw [numberAt, if_neg (by omega), if_neg (by omega), if_neg (by omega)]
    have sameContent (block : Nat)
        (below : block < count) :
        (onDevice bpi last.blocks table).logical block =
          buf.words bpi block := by
      obtain ⟨isMapped, isContent⟩ := done block below
      rw [FileMap.wanted_of_range (Nat.zero_le _)] at isContent
      show last.blocks (numberAt bpi last.blocks table (.data block)) = _
      rw [isNumber, progress.stored _ isMapped, isContent, Nat.sub_zero]
    refine
      { mapped :=
          { someEntries := mapped.someEntries
            size := mapped.size
            addresses := fun address other isMapped same => ?_
            mapped := fun block below => ?_
            noSpareIndex := fun hasSingle => ?_
            covers := covers
            inRange := inRange }
        size := rfl
        blocks := rfl
        bytes := ?_
        numbers := fun address isMapped => ?_ }
    · have isMapped' : 2 ≤ numberAt bpi last.blocks table address := isMapped
      have same' : numberAt bpi last.blocks table address =
            numberAt bpi last.blocks table other :=
        same
      rw [isNumber] at isMapped' same'
      exact progress.apart address other isMapped' same'
    · show 2 ≤ numberAt bpi last.blocks table (.data block)
      rw [isNumber]
      exact (done block below).1
    · -- Up to the direct blocks nothing is allocated.
      refine Nat.not_lt.mp fun few => ?_
      have present :
          BlocksPresent bpi directory.volume directory.iBlock (0 + count) :=
        ⟨fun block below => mapped.mapped block (by omega),
          fun isEnd => by omega⟩
      obtain ⟨sameTable, -⟩ :=
        inodeWriteContent_quiet mapped.addresses present returns
      have hasSingle' : 2 ≤ directory.iBlock 12 := sameTable ▸ hasSingle
      have many := mapped.noSpareIndex hasSingle'
      omega
    · rw [mapped.size]
      have agree :
          AgreeBelow (count * (4 * bpi)) (blockBytes bpi (buf.words bpi))
            (blockBytes bpi (onDevice bpi last.blocks table).logical) :=
        blockBytes_agree sameContent
      rw [blockBytes_words] at agree
      exact agree
    · have isMapped' : 2 ≤ numberAt bpi last.blocks table address := isMapped
      show numberAt bpi last.blocks table address = _ ∨ _
      rw [isNumber] at isMapped' ⊢
      rcases progress.made address isMapped' with isOld | ⟨call, -, -, isNew⟩
      · exact .inl isOld
      · refine .inr ⟨call, ?_⟩
        show numberAt bpi last.blocks table address = _
        rw [isNumber, isNew]
  · cases stored

theorem store_returns
    (fresh :
      FreshBlocks blockAlloc directory.volume.allocated
        (onDevice bpi directory.volume.blocks directory.iBlock))
    (inside : directory.size.toNat ≤ buf.length) :
    ∃ after,
      directory.store bpi blockAlloc buf (directory.sizeBlocks bpi) =
        .ok after := by
  obtain ⟨last, table, file, returns, -⟩ :=
    writeBlocks_reaches mapped fresh (buf.words bpi)
  exact ⟨_, (store_eq mapped returns).trans (if_pos inside)⟩

theorem writtenElsewhere {block : Nat}
    (apart :
      ∀ address, 2 ≤ directory.number bpi address →
        directory.number bpi address ≠ block) (content : Block)
    (isAfter :
      after =
        { directory with
          volume := directory.volume.bdevWrite block content }) :
    MappedDirectory bpi after count ∧
      AgreeBelow directory.size.toNat (directory.bytes bpi)
        (after.bytes bpi) := by
  subst isAfter
  let blocks := directory.volume.blocks.set block content
  have kept (address : BlockAddress)
      (isMapped : 2 ≤ directory.number bpi address) :
      blocks (directory.number bpi address) =
        directory.volume.blocks (directory.number bpi address) :=
    Memory.set_of_ne (apart address isMapped)
  have isNumber :
      numberAt bpi blocks directory.iBlock = directory.number bpi := by
    refine @numberAt_eq bpi blocks directory.iBlock
      (onDevice bpi directory.volume.blocks directory.iBlock) kept
      (onDevice_synced bpi _ _) (onDevice_rooted bpi _ _)
      fun other isBeyond => ?_
    show numberAt bpi _ _ (.data other) = 0
    rw [numberAt, if_neg (by omega), if_neg (by omega), if_neg (by omega)]
  refine
    ⟨{ someEntries := mapped.someEntries
       size := mapped.size
       addresses := fun address other isMapped same => ?_
       mapped := fun other below => ?_
       noSpareIndex := mapped.noSpareIndex
       covers := mapped.covers
       inRange := mapped.inRange }, ?_⟩
  · refine mapped.addresses address other ?_ ?_
    · have isMapped' :
          2 ≤ numberAt bpi blocks directory.iBlock address := isMapped
      rwa [isNumber] at isMapped'
    · have same' : numberAt bpi blocks directory.iBlock address =
            numberAt bpi blocks directory.iBlock other := same
      rwa [isNumber] at same'
  · show 2 ≤ numberAt bpi blocks directory.iBlock (.data other)
    rw [isNumber]
    exact mapped.mapped other below
  · rw [mapped.size]
    refine blockBytes_agree fun other below => ?_
    show blocks (numberAt bpi blocks directory.iBlock (.data other)) = _
    rw [isNumber, kept _ (mapped.mapped other below)]
    rfl

end Storing

/-- What `inode_link` has done when it returns no error. -/
structure LinkRun
    (kalloc : Kalloc) (bpi : Nat) (heap : Memory Block)
    (blockAlloc : Nat → Nat)
    (directory : Directory) (entry : NewEntry) (inode : LinkedInode)
    (after : Directory) (buf : KernelBuffer) (pos : Nat)
    (stored : Directory) : Prop where
  short : entry.name.strlen ≤ maxFileName
  loaded : directory.load kalloc bpi heap (directory.sizeBlocks bpi) = .ok buf
  chain : Chain (Refuses buf.bytes directory.size.toNat entry.size)
      (behind buf.bytes) 0 pos
  below : pos < directory.size.toNat
  hasRoom : HasRoom buf.bytes entry.size pos
  isStored : directory.store bpi blockAlloc
        { buf with bytes := linkedBytes buf.bytes pos entry }
        (directory.sizeBlocks bpi) =
      .ok stored
  counted : ∃ block byte content, inode.slot = some (block, byte) ∧
      after = { stored with volume := stored.volume.bdevWrite block content }

section Linking

variable {kalloc : Kalloc} {bpi : Nat} {heap heapAgain : Memory Block}
  {blockAlloc : Nat → Nat} {directory after : Directory} {entry : NewEntry}
  {inode : LinkedInode}

/-- A call that returns no error has run to its end. -/
theorem inodeLink_run {sent : Nat}
    (returns :
      Returns
        (fun turns =>
          inodeLink kalloc bpi heap turns blockAlloc heapAgain directory
            entry inode)
        (after, .ok sent)) :
    ∃ buf pos stored,
      LinkRun kalloc bpi heap blockAlloc directory entry inode after buf pos
        stored := by
  unfold inodeLink at returns
  by_cases tooLong : maxFileName < entry.name.strlen
  · obtain ⟨turns, isError⟩ := returns
    dsimp only at isError
    rw [if_pos tooLong] at isError
    cases isError
  · simp only [if_neg tooLong] at returns
    obtain ⟨buf, loaded, returns⟩ :=
      (returns_bind_iff (stable_const _) fun _ =>
        stable_bind (loop_stable _) fun _ => finishLink_stable).mp returns
    obtain ⟨found, isFound, returns⟩ :=
      (returns_bind_iff (loop_stable _) fun _ => finishLink_stable).mp returns
    have walks := link_walks buf directory.size.toNat entry
    obtain ⟨pos, chain, stops, -, isResult⟩ := walks.stops isFound
    unfold linkResult at isResult
    split at isResult
    next below =>
      subst isResult
      obtain ⟨stored, isStored, returns⟩ :=
        (returns_bind_iff (stable_const _) fun _ => countLink_stable).mp returns
      refine ⟨buf, pos, stored, Nat.not_lt.mp tooLong,
        returns_const_iff.mp loaded, chain, below, ?_,
        returns_const_iff.mp isStored, ?_⟩
      · exact Classical.byContradiction fun noRoom => stops ⟨below, noRoom⟩
      · obtain ⟨slot, bytes⟩ := inode
        cases slot with
        | some place =>
          obtain ⟨turns, isPair⟩ := returns
          cases isPair
          exact ⟨place.1, place.2, _, rfl, rfl⟩
        | none =>
          obtain ⟨result, -, isError⟩ :=
            (returns_bind_iff inodeUnlink_stable fun _ =>
              stable_const _).mp returns
          obtain ⟨turns, isPair⟩ := isError
          cases isPair
    next notBelow =>
      subst isResult
      obtain ⟨turns, isError⟩ := returns
      cases isError

end Linking

end Idylla.Ext2
