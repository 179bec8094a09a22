import Idylla.Ext2.InodeSafe

namespace Idylla.Ext2

open Idylla.Lib

/-!
# Writing blocks that are there

A write call allocates nothing where every block in front of its end has been
allocated.  It rewrites the index blocks with what they had, and leaves
`i_block` and `i_blocks` alone.
-/

/-- Nothing has been allocated, and the index blocks are as they were. -/
structure Quiet
    (file : FileMap)
    (volume after : Ext2Volume) : Prop where
  allocated : after.allocated = volume.allocated
  iBlocks : after.iBlocks = volume.iBlocks
  index : ∀ address, (∀ block, address ≠ .data block) →
      2 ≤ file.number address →
        after.blocks (file.number address) = volume.blocks (file.number address)

namespace Quiet

variable {file : FileMap} {volume after last : Ext2Volume}

theorem refl (file : FileMap) (volume : Ext2Volume) :
    Quiet file volume volume :=
  ⟨rfl, rfl, fun _ _ _ => rfl⟩

theorem trans (first : Quiet file volume after)
    (second : Quiet file after last) :
    Quiet file volume last where
  allocated := second.allocated.trans first.allocated
  iBlocks := second.iBlocks.trans first.iBlocks
  index := fun address isIndex mapped =>
    (second.index address isIndex mapped).trans
      (first.index address isIndex mapped)

theorem writeData
    (addresses : OneAddressEach file) (volume : Ext2Volume) (block : Nat)
    (content : Block) :
    Quiet file volume
      (volume.bdevWrite (file.number (.data block)) content) where
  allocated := rfl
  iBlocks := rfl
  index := fun address isIndex indexMapped => by
    refine Memory.set_of_ne fun same => ?_
    exact isIndex block (addresses address (.data block) indexMapped same)

theorem writeSame {number : Nat} {content : Block}
    (same : content = volume.blocks number) :
    Quiet file volume (volume.bdevWrite number content) where
  allocated := rfl
  iBlocks := rfl
  index := fun address _ _ => by
    show volume.blocks.set number content _ = _
    rw [same, Memory.set_self]

end Quiet

section Loops

variable {blockAlloc : Nat → Nat} {file : FileMap} {buf : Memory Block}

theorem fillEntries_same {count pos : Nat} {volume : Ext2Volume} {table : Block}
    (mapped : ∀ other, pos ≤ other → other < pos + count → 2 ≤ table other) :
    fillEntries blockAlloc count pos (volume, table) = (volume, table) := by
  induction count generalizing pos with
  | zero =>
    rfl
  | succ count ih =>
    have isMapped := mapped pos (Nat.le_refl _) (by omega)
    rw [fillEntries, if_neg (Nat.not_lt.mpr isMapped)]
    exact ih fun other lower upper => mapped other (by omega) (by omega)

theorem writeEntries_quiet
    {slot : Nat → Nat} {bound pos ptr blocks : Nat} {volume : Ext2Volume}
    {table : Block} (addresses : OneAddressEach file)
    (shows :
      ∀ other, pos ≤ other → other < pos + min blocks (bound - pos) →
        ∃ block,
          table other = file.number (.data block) ∧
            2 ≤ file.number (.data block)) :
    let loop :=
      writeEntries blockAlloc buf slot bound volume table pos ptr blocks
    loop.table = table ∧ Quiet file volume loop.volume := by
  induction blocks generalizing pos ptr volume with
  | zero =>
    exact ⟨rfl, .refl file volume⟩
  | succ blocks ih =>
    by_cases inBound : pos < bound
    · obtain ⟨block, isEntry, mapped⟩ := shows pos (Nat.le_refl _) (by omega)
      have notUnmapped : ¬ table pos < 2 := by
        rw [isEntry]
        exact Nat.not_lt.mpr mapped
      obtain ⟨sameTable, quiet⟩ :=
        @ih (pos + 1) (ptr + 1) (volume.bdevWrite (table pos) (buf ptr))
          fun other lower upper => shows other (by omega) (by omega)
      rw [writeEntries, if_pos inBound, if_neg notUnmapped]
      refine ⟨sameTable, Quiet.trans ?_ quiet⟩
      rw [isEntry]
      exact .writeData addresses volume block (buf ptr)
    · rw [writeEntries, if_neg inBound]
      exact ⟨rfl, .refl file volume⟩

theorem loadIndex_mapped {number : Nat} (mapped : 2 ≤ number)
    (volume : Ext2Volume) :
    loadIndex blockAlloc volume number =
      (volume, number, volume.blocks number) :=
  if_neg (Nat.not_lt.mpr mapped)

end Loops

section Levels

variable {blockAlloc : Nat → Nat} {bpi : Nat} {buf : Memory Block}
  {volume current : Ext2Volume} {iBlock : Block}

theorem writeDirect_quiet {start blocks : Nat}
    (addresses : OneAddressEach (onDevice bpi volume.blocks iBlock))
    (mapped : ∀ block < 12, block < start + blocks → 2 ≤ iBlock block) :
    let loop := writeDirect blockAlloc buf current iBlock start blocks
    loop.table = iBlock ∧
      Quiet (onDevice bpi volume.blocks iBlock) current loop.volume := by
  intro loop
  have isFilled : fillEntries blockAlloc (min start 12) 0 (current, iBlock) =
        (current, iBlock) :=
    fillEntries_same fun other _ upper => mapped other (by omega) (by omega)
  have isLoop : loop =
        writeEntries blockAlloc buf id 12 current iBlock start 0 blocks := by
    show writeDirect blockAlloc buf current iBlock start blocks = _
    unfold writeDirect
    rw [isFilled]
  rw [isLoop]
  refine writeEntries_quiet addresses fun other lower upper => ?_
  have isDirect :
      (onDevice bpi volume.blocks iBlock).number (.data other) = iBlock other :=
    if_pos (by omega)
  refine ⟨other, isDirect.symm, ?_⟩
  rw [isDirect]
  exact mapped other (by omega) (by omega)

variable {table : Block}

theorem writeSingle_quiet {indirectIdx : Nat} (ptr : Nat) {blocks : Nat}
    (isRoot : table = iBlock)
    (addresses : OneAddressEach (onDevice bpi volume.blocks iBlock))
    (quiet : Quiet (onDevice bpi volume.blocks iBlock) volume current)
    (hasSingle : 2 ≤ iBlock 12)
    (mapped :
      ∀ pos < bpi, pos < indirectIdx + blocks →
        2 ≤ numberAt bpi volume.blocks iBlock (.data (12 + pos))) :
    let loop :=
      writeSingle blockAlloc bpi buf current table indirectIdx ptr blocks
    loop.table = iBlock ∧
      Quiet (onDevice bpi volume.blocks iBlock) volume loop.volume := by
  subst isRoot
  intro loop
  let file := onDevice bpi volume.blocks table
  have isIndex (block : Nat) : BlockAddress.single ≠ .data block := by
    intro same
    cases same
  have isTable : current.blocks (table 12) = volume.blocks (table 12) :=
    quiet.index .single isIndex hasSingle
  have isEntry (pos : Nat) (inside : pos < bpi) :
      current.blocks (table 12) pos = file.number (.data (12 + pos)) := by
    rw [isTable]
    exact ((numberAt_single inside).trans
      (entryAt_of_mapped hasSingle pos)).symm
  have isFilled : fillEntries blockAlloc (min indirectIdx bpi) 0
          (current, current.blocks (table 12)) =
        (current, current.blocks (table 12)) := by
    refine fillEntries_same fun other _ upper => ?_
    rw [isEntry other (by omega)]
    exact mapped other (by omega) (by omega)
  let inner :=
    writeEntries blockAlloc buf (fun _ => min indirectIdx bpi) bpi current
      (current.blocks (table 12)) indirectIdx ptr blocks
  obtain ⟨sameTable, innerQuiet⟩ : inner.table = current.blocks (table 12) ∧
        Quiet file current inner.volume := by
    refine writeEntries_quiet addresses fun other lower upper => ?_
    exact ⟨12 + other, isEntry other (by omega),
      mapped other (by omega) (by omega)⟩
  have isLoop : loop =
        { inner with
          volume := inner.volume.bdevWrite (table 12) inner.table
          table := table } := by
    show writeSingle blockAlloc bpi buf current table indirectIdx ptr blocks = _
    unfold writeSingle
    rw [loadIndex_mapped hasSingle]
    dsimp only
    rw [isFilled, Memory.set_self]
  have allQuiet := quiet.trans innerQuiet
  have isFlushed : inner.table = inner.volume.blocks (table 12) := by
    rw [sameTable, isTable]
    exact (allQuiet.index .single isIndex hasSingle).symm
  rw [isLoop]
  exact ⟨rfl, allQuiet.trans (.writeSame isFlushed)⟩

/-- The loop over the double-indirect block, where all blocks are there. -/
structure TablesQuiet
    (bpi : Nat) (volume : Ext2Volume) (iBlock : Block) (indirectIdx stop : Nat)
    (loop : WriteLoop) : Prop where
  quiet : Quiet (onDevice bpi volume.blocks iBlock) volume loop.volume
  outer : loop.table = volume.blocks (iBlock 13)
  ends : max loop.pos indirectIdx + loop.blocks ≤ stop

theorem turn_ends {pos count more blocks idx stop : Nat}
    (ends : max pos idx + blocks ≤ stop) (short : count ≤ idx - pos)
    (fits : more ≤ blocks) :
    max (pos + count + more) idx + (blocks - more) ≤ stop := by
  omega

theorem writeTable_quiet {indirectIdx stop : Nat} {loop : WriteLoop}
    (addresses : OneAddressEach (onDevice bpi volume.blocks iBlock))
    (hasDouble : 2 ≤ iBlock 13)
    (mapped :
      ∀ pos < stop,
        2 ≤ numberAt bpi volume.blocks iBlock (.data (12 + bpi + pos)))
    (tables : TablesQuiet bpi volume iBlock indirectIdx stop loop)
    (inTables : loop.pos < bpi * bpi) (remains : 0 < loop.blocks) :
    TablesQuiet bpi volume iBlock indirectIdx stop
      (writeTable blockAlloc bpi buf indirectIdx loop) := by
  let file := onDevice bpi volume.blocks iBlock
  obtain ⟨quiet, outer, ends⟩ := tables
  have isTable : loop.pos / bpi < bpi := Nat.div_lt_of_lt_mul inTables
  have someEntries : 0 < bpi := Nat.zero_lt_of_lt isTable
  have isEntry : loop.pos % bpi < bpi := Nat.mod_lt _ someEntries
  have isPos : loop.pos / bpi * bpi + loop.pos % bpi = loop.pos :=
    Nat.div_add_mod' loop.pos bpi
  let table := volume.blocks (iBlock 13) (loop.pos / bpi)
  have isNumber (entry : Nat) (inside : entry < bpi) :
      file.number (.data (12 + bpi + loop.pos / bpi * bpi + entry)) =
        entryAt volume.blocks table entry :=
    (numberAt_table isTable inside).trans (by rw [entryAt_of_mapped hasDouble])
  have entryMapped (entry : Nat) (inside : entry < bpi)
      (below : loop.pos / bpi * bpi + entry < stop) :
      2 ≤ file.number (.data (12 + bpi + loop.pos / bpi * bpi + entry)) := by
    have isMapped := mapped _ below
    rwa [← Nat.add_assoc] at isMapped
  have hasTable : 2 ≤ table := by
    have isMapped := entryMapped (loop.pos % bpi) isEntry (by omega)
    refine Nat.not_lt.mp fun unmapped => ?_
    rw [isNumber _ isEntry, entryAt_of_unmapped unmapped] at isMapped
    omega
  have tableNumber : file.number (.table (loop.pos / bpi)) = table := by
    refine (if_pos isTable).trans ?_
    rw [entryAt_of_mapped hasDouble]
  have notData (block : Nat) :
      BlockAddress.table (loop.pos / bpi) ≠ .data block := by
    intro same
    cases same
  have isTableBlock : loop.volume.blocks table = volume.blocks table := by
    have kept := quiet.index _ notData (tableNumber.symm ▸ hasTable)
    rwa [tableNumber] at kept
  have isData (entry : Nat) (inside : entry < bpi) :
      loop.volume.blocks table entry =
        file.number (.data (12 + bpi + loop.pos / bpi * bpi + entry)) := by
    rw [isTableBlock, isNumber entry inside, entryAt_of_mapped hasTable]
  let count := min (bpi - loop.pos % bpi) (indirectIdx - loop.pos)
  have isFilled : fillEntries blockAlloc count (loop.pos % bpi)
          (loop.volume, loop.volume.blocks table) =
        (loop.volume, loop.volume.blocks table) := by
    refine fillEntries_same fun other lower upper => ?_
    rw [isData other (by omega)]
    exact entryMapped other (by omega) (by omega)
  let inner :=
    writeEntries blockAlloc buf id bpi loop.volume
      (loop.volume.blocks table) (loop.pos % bpi + count) loop.ptr
      loop.blocks
  obtain ⟨sameTable, innerQuiet⟩ : inner.table = loop.volume.blocks table ∧
        Quiet file loop.volume inner.volume := by
    refine writeEntries_quiet addresses fun other lower upper => ?_
    exact ⟨_, isData other (by omega), entryMapped other (by omega) (by omega)⟩
  obtain ⟨-, isPtr, isBlocks⟩ : inner.pos =
          loop.pos % bpi + count +
            min loop.blocks (bpi - (loop.pos % bpi + count)) ∧
        inner.ptr =
          loop.ptr + min loop.blocks (bpi - (loop.pos % bpi + count)) ∧
        inner.blocks =
          loop.blocks - min loop.blocks (bpi - (loop.pos % bpi + count)) :=
    writeEntries_counts id _ _ _ _ _
  have isTurn : writeTable blockAlloc bpi buf indirectIdx loop =
        { volume := inner.volume.bdevWrite table inner.table
          table := loop.table
          pos := loop.pos + count + (inner.ptr - loop.ptr)
          ptr := inner.ptr
          blocks := inner.blocks } := by
    have isOuter : loop.table (loop.pos / bpi) = table := by
      rw [outer]
    have sameOuter : loop.table.set (loop.pos / bpi) table = loop.table := by
      rw [← isOuter, Memory.set_self]
    unfold writeTable
    dsimp only
    rw [isOuter, loadIndex_mapped hasTable]
    rw [isFilled, sameOuter]
  have allQuiet := quiet.trans innerQuiet
  have isFlushed : inner.table = inner.volume.blocks table := by
    have kept := allQuiet.index _ notData (tableNumber.symm ▸ hasTable)
    rw [tableNumber] at kept
    rw [sameTable, isTableBlock, kept]
  rw [isTurn]
  refine ⟨allQuiet.trans (.writeSame isFlushed), outer, ?_⟩
  show max (loop.pos + count + (inner.ptr - loop.ptr)) indirectIdx +
    inner.blocks ≤ stop
  rw [isPtr, isBlocks, Nat.add_sub_cancel_left]
  exact turn_ends ends (Nat.min_le_right _ _) (Nat.min_le_left _ _)

theorem writeTables_quiet {indirectIdx stop : Nat} {loop : WriteLoop}
    (addresses : OneAddressEach (onDevice bpi volume.blocks iBlock))
    (hasDouble : 2 ≤ iBlock 13)
    (mapped :
      ∀ pos < stop,
        2 ≤ numberAt bpi volume.blocks iBlock (.data (12 + bpi + pos)))
    (tables : TablesQuiet bpi volume iBlock indirectIdx stop loop)
    (turns : Nat) :
    TablesQuiet bpi volume iBlock indirectIdx stop
      (writeTables blockAlloc bpi buf indirectIdx turns loop) := by
  induction turns generalizing loop with
  | zero =>
    exact tables
  | succ turns ih =>
    rw [writeTables]
    split
    next both =>
      exact ih
        (writeTable_quiet addresses hasDouble mapped tables both.1 both.2)
    next ended => exact tables

theorem writeDouble_quiet {indirectIdx : Nat} (ptr : Nat) {blocks : Nat}
    (isRoot : table = iBlock)
    (addresses : OneAddressEach (onDevice bpi volume.blocks iBlock))
    (quiet : Quiet (onDevice bpi volume.blocks iBlock) volume current)
    (hasDouble : 2 ≤ iBlock 13)
    (mapped :
      ∀ pos < indirectIdx + blocks,
        2 ≤ numberAt bpi volume.blocks iBlock (.data (12 + bpi + pos))) :
    let loop :=
      writeDouble blockAlloc bpi buf current table indirectIdx ptr blocks
    loop.table = iBlock ∧
      Quiet (onDevice bpi volume.blocks iBlock) volume loop.volume := by
  subst isRoot
  intro loop
  have isIndex (block : Nat) : BlockAddress.double ≠ .data block := by
    intro same
    cases same
  have isTable : current.blocks (table 13) = volume.blocks (table 13) :=
    quiet.index .double isIndex hasDouble
  have tables : TablesQuiet bpi volume table indirectIdx (indirectIdx + blocks)
        ⟨current, current.blocks (table 13), 0, ptr, blocks⟩ :=
    ⟨quiet, isTable, by
      show max 0 indirectIdx + blocks ≤ _
      omega⟩
  let inner :=
    writeTables blockAlloc bpi buf indirectIdx bpi
      ⟨current, current.blocks (table 13), 0, ptr, blocks⟩
  obtain ⟨innerQuiet, sameTable, -⟩ :
      TablesQuiet bpi volume table indirectIdx (indirectIdx + blocks) inner :=
    writeTables_quiet addresses hasDouble mapped tables bpi
  have isLoop : loop =
        { inner with
          volume := inner.volume.bdevWrite (table 13) inner.table
          table := table } := by
    show writeDouble blockAlloc bpi buf current table indirectIdx ptr blocks = _
    unfold writeDouble
    rw [loadIndex_mapped hasDouble]
    dsimp only
    rw [Memory.set_self]
  have isFlushed : inner.table = inner.volume.blocks (table 13) := by
    rw [sameTable]
    exact (innerQuiet.index .double isIndex hasDouble).symm
  rw [isLoop]
  exact ⟨rfl, innerQuiet.trans (.writeSame isFlushed)⟩

theorem hasIndex_of_mapped {block : Nat} (behind : 12 ≤ block)
    (mapped : 2 ≤ numberAt bpi volume.blocks iBlock (.data block)) :
    if block < 12 + bpi then 2 ≤ iBlock 12 else 2 ≤ iBlock 13 := by
  split
  next inSingle =>
    refine Nat.not_lt.mp fun unmapped => ?_
    rw [numberAt, if_neg (by omega), if_pos inSingle,
      entryAt_of_unmapped unmapped] at mapped
    omega
  next notSingle =>
    refine Nat.not_lt.mp fun unmapped => ?_
    rw [numberAt, if_neg (by omega), if_neg notSingle] at mapped
    split at mapped
    · rw [entryAt_of_unmapped unmapped,
        entryAt_of_unmapped (by decide)] at mapped
      omega
    · omega

/--
A write call up to a block in front of which all blocks are there; one that
ends with the single-indirect block wants the double-indirect block as well.
-/
structure BlocksPresent
    (bpi : Nat) (volume : Ext2Volume) (iBlock : Block)
    (stop : Nat) : Prop where
  data : ∀ block < stop, 2 ≤ numberAt bpi volume.blocks iBlock (.data block)
  double : stop = 12 + bpi → 2 ≤ iBlock 13

/-- A write call that finds its blocks changes nothing but their contents. -/
theorem inodeWriteContent_quiet
    {start blocks returned : Nat} {last : Ext2Volume}
    (addresses : OneAddressEach (onDevice bpi volume.blocks iBlock))
    (present : BlocksPresent bpi volume iBlock (start + blocks))
    (returns :
      inodeWriteContent blockAlloc bpi buf volume iBlock blocks start =
        some (last, table, returned)) :
    table = iBlock ∧ Quiet (onDevice bpi volume.blocks iBlock) volume last := by
  let file := onDevice bpi volume.blocks iBlock
  let direct :=
    writeDirect blockAlloc buf { volume with written := [] } iBlock start blocks
  have begin : Quiet file volume { volume with written := [] } :=
    ⟨rfl, rfl, fun _ _ _ => rfl⟩
  obtain ⟨directTable, directQuiet⟩ : direct.table = iBlock ∧
        Quiet file { volume with written := [] } direct.volume := by
    refine writeDirect_quiet addresses fun block isDirect below => ?_
    have mapped := present.data block below
    rwa [numberAt, if_pos isDirect] at mapped
  have toDirect := begin.trans directQuiet
  obtain ⟨directPos, -, directBlocks⟩ :
      direct.pos = start + min blocks (12 - start) ∧
        direct.ptr = 0 + min blocks (12 - start) ∧
        direct.blocks = blocks - min blocks (12 - start) :=
    writeDirect_counts _ _ _ _
  unfold inodeWriteContent at returns
  by_cases remains : 0 < direct.blocks
  · rw [if_pos remains] at returns
    have hasSingle : 2 ≤ iBlock 12 := by
      have someEntries : 12 < 12 + bpi ∨ bpi = 0 := by omega
      rcases someEntries with inSingle | isZero
      · have isMapped := present.data 12 (by omega)
        have hasIndex := hasIndex_of_mapped (Nat.le_refl _) isMapped
        rwa [if_pos inSingle] at hasIndex
      · have isMapped := present.data 12 (by omega)
        simp [numberAt, isZero] at isMapped
    let single :=
      writeSingle blockAlloc bpi buf direct.volume direct.table
        (direct.pos - 12) direct.ptr direct.blocks
    obtain ⟨singleTable, toSingle⟩ :
        single.table = iBlock ∧ Quiet file volume single.volume :=
      writeSingle_quiet direct.ptr directTable addresses toDirect hasSingle
        fun pos _ below => present.data _ (by omega)
    obtain ⟨singlePos, -, singleBlocks⟩ : single.pos =
            direct.pos - 12 + min direct.blocks (bpi - (direct.pos - 12)) ∧
          single.ptr =
            direct.ptr + min direct.blocks (bpi - (direct.pos - 12)) ∧
          single.blocks =
            direct.blocks - min direct.blocks (bpi - (direct.pos - 12)) :=
      writeEntries_counts _ _ _ _ _ _
    by_cases inDouble : bpi ≤ single.pos ∧ single.pos - bpi < bpi * bpi
    · have hasDouble : 2 ≤ iBlock 13 := by
        by_cases isEnd : start + blocks = 12 + bpi
        · exact present.double isEnd
        · have isMapped := present.data (12 + bpi) (by omega)
          have hasIndex := hasIndex_of_mapped (by omega) isMapped
          rwa [if_neg (Nat.lt_irrefl _)] at hasIndex
      let double :=
        writeDouble blockAlloc bpi buf single.volume single.table
          (single.pos - bpi) single.ptr single.blocks
      obtain ⟨doubleTable, toDouble⟩ :
          double.table = iBlock ∧ Quiet file volume double.volume :=
        writeDouble_quiet single.ptr singleTable addresses toSingle hasDouble
          fun pos below => present.data _ (by omega)
      dsimp only at returns
      rw [if_pos inDouble] at returns
      split at returns
      · cases returns
      · cases returns
        exact ⟨doubleTable, toDouble⟩
    · rw [if_neg inDouble] at returns
      cases returns
      exact ⟨singleTable, toSingle⟩
  · rw [if_neg remains] at returns
    cases returns
    exact ⟨directTable, toDirect⟩

/-- Index blocks as they were name the same blocks. -/
theorem Quiet.numbers
    (quiet : Quiet (onDevice bpi volume.blocks iBlock) volume current) :
    numberAt bpi current.blocks iBlock = numberAt bpi volume.blocks iBlock := by
  have entry {index : BlockAddress} (isIndex : ∀ block, index ≠ .data block)
      (pos : Nat) :
      entryAt current.blocks (numberAt bpi volume.blocks iBlock index) pos =
        entryAt volume.blocks (numberAt bpi volume.blocks iBlock index)
          pos := by
    unfold entryAt
    split
    next mapped => exact congrFun (quiet.index index isIndex mapped) pos
    next unmapped => rfl
  have isSingle (block : Nat) : BlockAddress.single ≠ .data block := by
    intro same
    cases same
  have isDouble (block : Nat) : BlockAddress.double ≠ .data block := by
    intro same
    cases same
  have isTable (index block : Nat) :
      BlockAddress.table index ≠ .data block := by
    intro same
    cases same
  funext address
  cases address with
  | single =>
    rfl
  | double =>
    rfl
  | table index =>
    simp only [numberAt]
    split
    · exact entry isDouble index
    · rfl
  | data block =>
    simp only [numberAt]
    split
    · rfl
    split
    · exact entry isSingle (block - 12)
    split
    next inDouble =>
      have inTables : (block - 12 - bpi) / bpi < bpi :=
        Nat.div_lt_of_lt_mul (by omega)
      have isNumber : numberAt bpi volume.blocks iBlock
              (.table ((block - 12 - bpi) / bpi)) =
            entryAt volume.blocks (iBlock 13) ((block - 12 - bpi) / bpi) :=
        if_pos inTables
      have sameTable :
          entryAt current.blocks (iBlock 13) ((block - 12 - bpi) / bpi) =
            entryAt volume.blocks (iBlock 13) ((block - 12 - bpi) / bpi) :=
        entry isDouble _
      have sameEntry := entry (isTable ((block - 12 - bpi) / bpi))
        ((block - 12 - bpi) % bpi)
      rw [isNumber] at sameEntry
      rw [sameTable, sameEntry]
    · rfl

end Levels

end Idylla.Ext2
