import Idylla.Ext2.InodeMap

namespace Idylla.Ext2

open Idylla.Lib

/-!
# Writing through index blocks

An index block is loaded, its entries are filled and written, and it is
written back.  In between its entries are those of the table in memory; before
and behind, every index block is in sync with the blocks that it names.
-/

/-- An index block names the blocks at its entries, or there are none. -/
structure InSync
    (bpi : Nat) (file : FileMap) (index : BlockAddress)
    (entry : Nat → BlockAddress) : Prop where
  mapped : 2 ≤ file.number index →
      ∀ pos < bpi, file.content index pos = file.number (entry pos)
  unmapped : file.number index < 2 → ∀ pos < bpi, file.number (entry pos) = 0

/-- Blocks of the file stay, and index blocks other than one do not change. -/
structure GrownBut (index : BlockAddress) (file after : FileMap) : Prop where
  numbers : ∀ address, 2 ≤ file.number address →
      after.number address = file.number address
  others : ∀ address, address ≠ index → (∀ block, address ≠ .data block) →
      after.number address = file.number address ∧
        after.content address = file.content address

namespace GrownBut

variable {index : BlockAddress} {file after last : FileMap}

theorem trans (first : GrownBut index file after)
    (second : GrownBut index after last) : GrownBut index file last := by
  constructor
  · intro address isMapped
    have same := first.numbers address isMapped
    rw [second.numbers address (by rw [same]; exact isMapped), same]
  · intro address differs isIndex
    obtain ⟨number, content⟩ := second.others address differs isIndex
    obtain ⟨oldNumber, oldContent⟩ := first.others address differs isIndex
    exact ⟨number.trans oldNumber, content.trans oldContent⟩

theorem of_grown (grown : Grown file after) : GrownBut index file after :=
  ⟨grown.numbers, fun address _ => grown.index address⟩

theorem put {number : Nat} (content : Block)
    (keeps : 2 ≤ file.number index → number = file.number index) :
    GrownBut index file (file.put index number content) := by
  constructor
  · intro address isMapped
    by_cases same : address = index
    · subst same
      rw [FileMap.number_put_same]
      exact keeps isMapped
    · exact FileMap.number_put_of_ne same
  · intro address differs _
    exact ⟨FileMap.number_put_of_ne differs, FileMap.content_put_of_ne differs⟩

end GrownBut

section Index

variable {blockAlloc : Nat → Nat} {allocated start base bpi border : Nat}
  {before file : FileMap} {buf : Memory Block} {volume : Ext2Volume}
  {index : BlockAddress}

theorem loadIndex_reaches {entry : Nat → BlockAddress}
    (reached : Reached blockAlloc allocated before buf start volume file border)
    (isIndex : ∀ block, index ≠ .data block)
    (notEntry : ∀ pos, entry pos ≠ index)
    (inSync : InSync bpi file index entry) :
    let loaded := loadIndex blockAlloc volume (file.number index)
    ∃ after,
      Reached blockAlloc allocated before buf start loaded.1 after border ∧
      after.number index = loaded.2.1 ∧ 2 ≤ loaded.2.1 ∧
      (∀ pos < bpi, loaded.2.2 pos = after.number (entry pos)) ∧
      GrownBut index file after := by
  by_cases unmapped : file.number index < 2
  · have created := reached.progress.create unmapped false
    have frontier : Frontier before buf start
          (file.put index (blockAlloc volume.allocated)
            (volume.blocks (blockAlloc volume.allocated))) border :=
      reached.frontier.put_index isIndex _
    have grown : GrownBut index file
          (file.put index (blockAlloc volume.allocated)
            (volume.blocks (blockAlloc volume.allocated))) :=
      .put _ fun mapped => absurd unmapped (Nat.not_lt.mpr mapped)
    simp only [loadIndex, unmapped, ↓reduceIte]
    refine ⟨_, ⟨created, frontier⟩, FileMap.number_put_same,
      reached.progress.fresh.valid _, fun pos inBound => ?_, grown⟩
    show 0 = _
    rw [FileMap.number_put_of_ne (notEntry pos),
      inSync.unmapped unmapped pos inBound]
  · have mapped : 2 ≤ file.number index := Nat.not_lt.mp unmapped
    simp only [loadIndex, unmapped, ↓reduceIte]
    refine ⟨file, reached, rfl, mapped, fun pos inBound => ?_,
      ⟨fun _ _ => rfl, fun _ _ _ => ⟨rfl, rfl⟩⟩⟩
    rw [reached.progress.stored index mapped, inSync.mapped mapped pos inBound]

theorem writeIndex_reaches {slot : Nat → Nat} {count ptr blocks : Nat}
    (reached : Reached blockAlloc allocated before buf start volume file base)
    (isIndex : ∀ block, index ≠ .data block)
    (inSync : InSync bpi file index fun pos => .data (base + pos))
    (inBound : count ≤ bpi) (below : 0 < count → base + count ≤ start)
    (notes :
      ∀ other, count ≤ other → other < count + min blocks (bpi - count) →
        file.number (.data (base + other)) < 2 → slot other = other)
    (inRange :
      0 < min blocks (bpi - count) →
        start ≤ base + count ∧ ptr = base + count - start) :
    let loaded := loadIndex blockAlloc volume (file.number index)
    let filled := fillEntries blockAlloc count 0 (loaded.1, loaded.2.2)
    let loop :=
      writeEntries blockAlloc buf slot bpi filled.1 filled.2 count ptr blocks
    ∃ after,
      Reached blockAlloc allocated before buf start
        (loop.volume.bdevWrite loaded.2.1 loop.table) after
        (base + loop.pos) ∧
      after.number index = loaded.2.1 ∧ 2 ≤ loaded.2.1 ∧
      (InSync bpi after index fun pos => .data (base + pos)) ∧
      GrownBut index file after := by
  intro loaded filled loop
  obtain ⟨first, firstReached, isNumber, valid, firstShows, firstGrown⟩ :=
    loadIndex_reaches reached isIndex (fun pos => (isIndex _).symm) inSync
  have fillBound : 0 + count ≤ bpi := by omega
  have fillBelow : 0 < count → base + (0 + count) ≤ start := by omega
  obtain ⟨second, secondReached, secondShows, secondGrown⟩ :=
    fillEntries_reaches firstReached firstShows fillBound fillBelow
  rw [Nat.zero_add] at secondReached
  have secondNotes (other : Nat) (lower : count ≤ other)
      (upper : other < count + min blocks (bpi - count))
      (unmapped : second.number (.data (base + other)) < 2) :
      slot other = other := by
    refine notes other lower upper ?_
    by_cases mapped : 2 ≤ file.number (.data (base + other))
    · have same := firstGrown.numbers _ mapped
      rw [secondGrown.numbers _ (by rw [same]; exact mapped), same] at unmapped
      exact unmapped
    · omega
  obtain ⟨third, thirdReached, thirdShows, thirdGrown⟩ :=
    writeEntries_reaches secondReached secondShows secondNotes inRange
  have isThird : third.number index = loaded.2.1 := by
    rw [(thirdGrown.index index isIndex).1,
      (secondGrown.index index isIndex).1, isNumber]
  have mapped : 2 ≤ third.number index := by
    rw [isThird]
    exact valid
  have flushed := thirdReached.progress.store mapped loop.table
  have frontier : Frontier before buf start
        (third.put index (third.number index) loop.table)
        (base + loop.pos) :=
    thirdReached.frontier.put_index isIndex _
  rw [isThird] at flushed frontier
  have grown : GrownBut index file (third.put index loaded.2.1 loop.table) :=
    firstGrown.trans ((GrownBut.of_grown secondGrown).trans
      ((GrownBut.of_grown thirdGrown).trans (.put _ fun _ => isThird.symm)))
  refine ⟨_, ⟨flushed, frontier⟩, FileMap.number_put_same, valid, ⟨?_, ?_⟩,
    grown⟩
  · intro _ pos inside
    rw [FileMap.content_put_same, FileMap.number_put_of_ne (isIndex _).symm]
    exact thirdShows pos inside
  · intro unmapped
    rw [FileMap.number_put_same] at unmapped
    omega

end Index

/-- The index blocks of a file are in sync with what they name. -/
structure Synced (bpi : Nat) (file : FileMap) : Prop where
  single : InSync bpi file .single fun pos => .data (12 + pos)
  double : InSync bpi file .double fun pos => .table pos
  tables : ∀ table < bpi,
      InSync bpi file (.table table) fun pos =>
        .data (12 + bpi + table * bpi + pos)
  beyond : ∀ table, bpi ≤ table → file.number (.table table) = 0

theorem InSync.keep {bpi : Nat} {file after : FileMap} {index : BlockAddress}
    {entry : Nat → BlockAddress} (inSync : InSync bpi file index entry)
    (sameIndex :
      after.number index = file.number index ∧
        after.content index = file.content index)
    (sameEntries :
      ∀ pos < bpi, after.number (entry pos) = file.number (entry pos)) :
    InSync bpi after index entry := by
  constructor
  · intro mapped pos inside
    rw [sameIndex.1] at mapped
    rw [sameIndex.2, sameEntries pos inside, inSync.mapped mapped pos inside]
  · intro unmapped pos inside
    rw [sameIndex.1] at unmapped
    rw [sameEntries pos inside, inSync.unmapped unmapped pos inside]

section Levels

variable {blockAlloc : Nat → Nat} {allocated start bpi : Nat}
  {before file : FileMap} {buf : Memory Block} {volume : Ext2Volume}

variable {iBlock : Block} {blocks : Nat}

theorem writeDirect_reaches
    (reached : Reached blockAlloc allocated before buf start volume file 0)
    (shows : ShowsEntries file iBlock 0 12) :
    let loop := writeDirect blockAlloc buf volume iBlock start blocks
    ∃ after,
      Reached blockAlloc allocated before buf start loop.volume after
        (min loop.pos 12) ∧
      ShowsEntries after loop.table 0 12 ∧ Grown file after ∧
      ∀ pos, 12 ≤ pos → loop.table pos = iBlock pos := by
  intro loop
  have fillBound : 0 + min start 12 ≤ 12 := by omega
  have fillBelow : 0 < min start 12 → 0 + (0 + min start 12) ≤ start := by
    omega
  obtain ⟨first, firstReached, firstShows, firstGrown⟩ :=
    fillEntries_reaches reached shows fillBound fillBelow
  have behindFill (pos : Nat) (isBehind : 12 ≤ pos) :
      (fillEntries blockAlloc (min start 12) 0 (volume, iBlock)).2 pos =
        iBlock pos :=
    fillEntries_behind (by omega)
  by_cases isDirect : start < 12
  · have fillBorder : 0 + (0 + min start 12) = 0 + start := by omega
    rw [fillBorder] at firstReached
    have notes (other : Nat) :
        start ≤ other → other < start + min blocks (12 - start) →
          first.number (.data (0 + other)) < 2 → id other = other :=
      fun _ _ _ => rfl
    have inRange : 0 < min blocks (12 - start) →
          start ≤ 0 + start ∧ 0 = 0 + start - start := by
      omega
    obtain ⟨second, secondReached, secondShows, secondGrown⟩ :=
      writeEntries_reaches firstReached firstShows notes inRange
    have counts : loop.pos = start + min blocks (12 - start) :=
      (writeEntries_counts id _ _ start 0 blocks).1
    have border : min loop.pos 12 = 0 + loop.pos := by omega
    rw [border]
    refine ⟨second, secondReached, secondShows,
      firstGrown.trans secondGrown, fun pos isBehind => ?_⟩
    exact (writeEntries_behind isBehind).trans (behindFill pos isBehind)
  · have isLoop : loop =
          ⟨(fillEntries blockAlloc (min start 12) 0 (volume, iBlock)).1,
            (fillEntries blockAlloc (min start 12) 0 (volume, iBlock)).2,
            start, 0, blocks⟩ :=
      writeEntries_done (Nat.not_lt.mp isDirect)
    rw [isLoop]
    have count : min start 12 = 12 := by omega
    rw [count] at firstReached
    refine ⟨first, ?_, firstShows, firstGrown, behindFill⟩
    rw [count]
    exact firstReached

theorem writeSingle_reaches {indirectIdx ptr blocks : Nat}
    (reached : Reached blockAlloc allocated before buf start volume file 12)
    (synced : Synced bpi file) (isSingle : iBlock 12 = file.number .single)
    (isStart : indirectIdx = start - 12)
    (isPtr : ptr = 12 + indirectIdx - start)
    (mapped :
      ∀ block, 12 + indirectIdx < block → block < 12 + bpi →
        block < 12 + indirectIdx + blocks → 2 ≤ file.number (.data block)) :
    let loop :=
      writeSingle blockAlloc bpi buf volume iBlock indirectIdx ptr blocks
    ∃ after,
      Reached blockAlloc allocated before buf start loop.volume after
        (12 + min loop.pos bpi) ∧
      Synced bpi after ∧ GrownBut .single file after ∧
      2 ≤ after.number .single ∧
      loop.table = iBlock.set 12 (after.number .single) := by
  have isIndex (block : Nat) : BlockAddress.single ≠ .data block := nofun
  have inBound : min indirectIdx bpi ≤ bpi := by omega
  have below : 0 < min indirectIdx bpi → 12 + min indirectIdx bpi ≤ start := by
    omega
  have inRange : 0 < min blocks (bpi - min indirectIdx bpi) →
        start ≤ 12 + min indirectIdx bpi ∧
          ptr = 12 + min indirectIdx bpi - start := by
    omega
  have notes (other : Nat) (lower : min indirectIdx bpi ≤ other)
      (upper :
        other < min indirectIdx bpi + min blocks (bpi - min indirectIdx bpi))
      (unmapped : file.number (.data (12 + other)) < 2) :
      min indirectIdx bpi = other := by
    refine Classical.byContradiction fun differs => ?_
    exact absurd unmapped
      (Nat.not_lt.mpr (mapped (12 + other) (by omega) (by omega) (by omega)))
  obtain ⟨after, afterReached, isNumber, valid, inSync, grown⟩ :=
    writeIndex_reaches reached isIndex synced.single inBound below notes inRange
  rw [← isSingle] at afterReached isNumber
  have sameLoop (volume : Ext2Volume) (table : Block) :
      let first :=
        writeEntries blockAlloc buf (fun _ => min indirectIdx bpi) bpi volume
          table (min indirectIdx bpi) ptr blocks
      let second :=
        writeEntries blockAlloc buf (fun _ => min indirectIdx bpi) bpi volume
          table indirectIdx ptr blocks
      first.volume = second.volume ∧ first.table = second.table ∧
        first.pos = min second.pos bpi := by
    by_cases inside : indirectIdx ≤ bpi
    · rw [Nat.min_eq_left inside]
      refine ⟨rfl, rfl, (Nat.min_eq_left ?_).symm⟩
      rw [(writeEntries_counts _ _ _ indirectIdx ptr blocks).1]
      omega
    · rw [writeEntries_done (show bpi ≤ min indirectIdx bpi by omega),
        writeEntries_done (show bpi ≤ indirectIdx by omega)]
      exact ⟨rfl, rfl, by simp only⟩
  obtain ⟨sameVolume, sameTable, samePos⟩ := sameLoop _ _
  rw [sameVolume, sameTable, samePos] at afterReached
  refine ⟨after, afterReached,
    ⟨inSync, ?_, fun table isTable => ?_, fun table isBeyond => ?_⟩, grown,
    ?_, ?_⟩
  · exact synced.double.keep (grown.others .double nofun nofun)
      fun pos _ => (grown.others (.table pos) nofun nofun).1
  · refine (synced.tables table isTable).keep
      (grown.others (.table table) nofun nofun) fun pos _ => ?_
    refine reached.frontier.same_number afterReached.frontier grown.numbers
      (by omega) (.inr ?_)
    omega
  · rw [(grown.others (.table table) nofun nofun).1]
    exact synced.beyond table isBeyond
  · rw [isNumber, isSingle]
    exact valid
  · rw [isNumber]
    rfl

/-- The loop over the double-indirect block has done some of its entries. -/
structure TablesReached
    (blockAlloc : Nat → Nat)
    (allocated : Nat) (before : FileMap) (buf : Memory Block)
    (start bpi stop : Nat) (loop : WriteLoop)
    (file : FileMap) : Prop where
  reached : Reached blockAlloc allocated before buf start loop.volume file
      (12 + bpi + loop.pos)
  outer : ∀ table < bpi, loop.table table = file.number (.table table)
  single : InSync bpi file .single fun pos => .data (12 + pos)
  tables : ∀ table < bpi,
      InSync bpi file (.table table) fun pos =>
        .data (12 + bpi + table * bpi + pos)
  beyond : ∀ table, bpi ≤ table → file.number (.table table) = 0
  isPtr : start + loop.ptr = max (12 + bpi + loop.pos) start
  isBlocks : start + loop.ptr + loop.blocks = stop
  filled : 0 < loop.blocks ∨ start ≤ 12 + bpi + loop.pos

variable {loop : WriteLoop}

theorem turn_ptr {border count more ptr : Nat}
    (isPtr : start + ptr = max border start)
    (below : 0 < count → border + count ≤ start)
    (past : 0 < more → start ≤ border + count) :
    start + (ptr + more) = max (border + count + more) start := by
  rcases Nat.eq_zero_or_pos count <;> omega

/-- One turn of the loop over the double-indirect block. -/
theorem writeTable_reaches {stop table : Nat}
    (tables :
      TablesReached blockAlloc allocated before buf start bpi stop loop file)
    (isTable : table < bpi) (isPos : loop.pos = table * bpi)
    (remains : 0 < loop.blocks) :
    let next :=
      writeTable blockAlloc bpi buf (start - 12 - bpi) loop
    ∃ after,
      TablesReached blockAlloc allocated before buf start bpi stop next after ∧
      GrownBut (.table table) file after ∧
      (next.blocks = 0 ∨ next.pos = (table + 1) * bpi) := by
  intro next
  obtain ⟨reached, outer, single, others, beyond, isPtr, isBlocks, behind⟩ :=
    tables
  have isTmp : loop.pos / bpi = table := by
    rw [isPos]
    exact Nat.mul_div_cancel table (by omega)
  have isFirst : loop.pos % bpi = 0 := by
    rw [isPos]
    exact Nat.mul_mod_left table bpi
  have isNext : (table + 1) * bpi = table * bpi + bpi := Nat.succ_mul table bpi
  rw [isPos] at reached isPtr behind
  let count := min (bpi - 0) (start - 12 - bpi - table * bpi)
  have inBound : count ≤ bpi := Nat.min_le_left _ _
  have below : 0 < count → 12 + bpi + table * bpi + count ≤ start := by
    omega
  have inRange : 0 < min loop.blocks (bpi - count) →
        start ≤ 12 + bpi + table * bpi + count ∧
          loop.ptr = 12 + bpi + table * bpi + count - start := by
    intro isMore
    have notFull : count < bpi := by omega
    have isCount : count = start - 12 - bpi - table * bpi := by omega
    clear isMore below behind
    omega
  have notes (other : Nat) :
      count ≤ other → other < count + min loop.blocks (bpi - count) →
        file.number (.data (12 + bpi + table * bpi + other)) < 2 →
        id other = other :=
    fun _ _ _ => rfl
  have isIndex (block : Nat) : BlockAddress.table table ≠ .data block := nofun
  obtain ⟨after, afterReached, isNumber, valid, inSync, grown⟩ :=
    writeIndex_reaches reached isIndex (others table isTable) inBound below
      notes inRange
  rw [← outer table isTable] at afterReached isNumber
  let loaded := loadIndex blockAlloc loop.volume (loop.table table)
  let full := fillEntries blockAlloc count 0 (loaded.1, loaded.2.2)
  let inner :=
    writeEntries blockAlloc buf id bpi full.1 full.2 count loop.ptr loop.blocks
  have isNextLoop : next =
        { volume := inner.volume.bdevWrite loaded.2.1 inner.table
          table := loop.table.set table loaded.2.1
          pos := table * bpi + count + (inner.ptr - loop.ptr)
          ptr := inner.ptr
          blocks := inner.blocks } := by
    simp only [next, writeTable]
    rw [isTmp, isFirst]
    simp only [isPos, Nat.zero_add]
    rfl
  obtain ⟨more, innerPos, innerPtr, innerBlocks, fits, ends⟩ : ∃ more,
        inner.pos = count + more ∧ inner.ptr = loop.ptr + more ∧
          inner.blocks + more = loop.blocks ∧ count + more ≤ bpi ∧
          (inner.blocks = 0 ∨ inner.pos = bpi) :=
    writeEntries_ends id _ _ _ _ inBound
  have nextPos : next.pos = table * bpi + count + more := by
    rw [isNextLoop]
    show table * bpi + count + (inner.ptr - loop.ptr) = _
    rw [innerPtr, Nat.add_sub_cancel_left]
  have nextPtr : next.ptr = loop.ptr + more := by
    rw [isNextLoop]
    exact innerPtr
  have nextBlocks : next.blocks = inner.blocks := by
    rw [isNextLoop]
  have isBorder : 12 + bpi + table * bpi + inner.pos = 12 + bpi + next.pos := by
    omega
  have nextReached :
      Reached blockAlloc allocated before buf start next.volume after
        (12 + bpi + next.pos) := by
    rw [← isBorder, isNextLoop]
    exact afterReached
  have sameNumber {block : Nat}
      (outside : block < 12 + bpi + table * bpi ∨ 12 + bpi + next.pos ≤ block) :
      after.number (.data block) = file.number (.data block) :=
    reached.frontier.same_number nextReached.frontier grown.numbers
      (by omega) outside
  refine ⟨after, ⟨nextReached, ?_, ?_, ?_, ?_, ?_, ?_, ?_⟩, grown, ?_⟩
  · intro other isOther
    rw [isNextLoop]
    show (loop.table.set table loaded.2.1) other = _
    by_cases same : other = table
    · rw [same, Memory.set_same]
      exact isNumber.symm
    · have differs : BlockAddress.table other ≠ .table table := by
        rintro ⟨⟩
        exact same rfl
      rw [Memory.set_of_ne same, outer other isOther,
        (grown.others _ differs nofun).1]
  · exact single.keep (grown.others .single nofun nofun)
      fun pos inside => sameNumber (by omega)
  · intro other isOther
    by_cases same : other = table
    · rw [same]
      exact inSync
    · have differs : BlockAddress.table other ≠ .table table := by
        rintro ⟨⟩
        exact same rfl
      refine (others other isOther).keep (grown.others _ differs nofun)
        fun pos inside => sameNumber ?_
      rcases Nat.lt_or_gt_of_ne same with isBefore | isBehind
      · have ends : (other + 1) * bpi ≤ table * bpi :=
          Nat.mul_le_mul_right bpi isBefore
        rw [Nat.succ_mul] at ends
        omega
      · have starts : (table + 1) * bpi ≤ other * bpi :=
          Nat.mul_le_mul_right bpi isBehind
        omega
  · intro other isBeyond
    have differs : BlockAddress.table other ≠ .table table := by
      rintro ⟨⟩
      exact Nat.not_lt.mpr isBeyond isTable
    rw [(grown.others _ differs nofun).1]
    exact beyond other isBeyond
  · rw [nextPtr, nextPos, ← Nat.add_assoc (12 + bpi),
      ← Nat.add_assoc (12 + bpi)]
    exact turn_ptr isPtr below fun isMore =>
      (inRange (Nat.lt_min.mpr ⟨by omega, by omega⟩)).1
  · omega
  · omega
  · omega

theorem writeTables_done (indirectIdx turns : Nat) (isDone : loop.blocks = 0) :
    writeTables blockAlloc bpi buf indirectIdx turns loop = loop := by
  cases turns with
  | zero =>
    rfl
  | succ turns =>
    rw [writeTables, if_neg]
    rw [isDone]
    exact fun both => Nat.lt_irrefl 0 both.2

theorem writeTables_reaches {turns stop table : Nat}
    (tables :
      TablesReached blockAlloc allocated before buf start bpi stop loop file)
    (isPos : loop.pos = table * bpi) (isLast : turns + table = bpi)
    (inRange : stop ≤ 12 + bpi + bpi * bpi) :
    let last := writeTables blockAlloc bpi buf (start - 12 - bpi) turns loop
    ∃ after,
      TablesReached blockAlloc allocated before buf start bpi stop last after ∧
      last.blocks = 0 ∧
      ∀ address, 2 ≤ file.number address →
        after.number address = file.number address := by
  induction turns generalizing table loop file with
  | zero =>
    have isEnd : loop.pos = bpi * bpi := by
      rw [isPos, ← isLast, Nat.zero_add]
    have isPtr := tables.isPtr
    have isBlocks := tables.isBlocks
    exact ⟨file, tables, show loop.blocks = 0 by omega, fun _ _ => rfl⟩
  | succ turns ih =>
    have isTable : table < bpi := by omega
    have inTables : loop.pos < bpi * bpi := by
      rw [isPos]
      exact Nat.mul_lt_mul_of_pos_right isTable (by omega)
    by_cases remains : 0 < loop.blocks
    · obtain ⟨next, nextTables, grown, isNext⟩ :=
        writeTable_reaches tables isTable isPos remains
      rw [writeTables, if_pos ⟨inTables, remains⟩]
      rcases isNext with isDone | isNextPos
      · rw [writeTables_done _ turns isDone]
        exact ⟨next, nextTables, isDone, grown.numbers⟩
      · obtain ⟨after, afterTables, isDone, numbers⟩ :=
          ih nextTables isNextPos (by omega)
        refine ⟨after, afterTables, isDone, fun address mapped => ?_⟩
        have same := grown.numbers address mapped
        rw [numbers address (by rw [same]; exact mapped), same]
    · have isDone : loop.blocks = 0 := Nat.eq_zero_of_not_pos remains
      rw [writeTables_done _ _ isDone]
      exact ⟨file, tables, isDone, fun _ _ => rfl⟩

theorem writeDouble_reaches {ptr blocks stop : Nat}
    (reached :
      Reached blockAlloc allocated before buf start volume file (12 + bpi))
    (synced : Synced bpi file) (isDouble : iBlock 13 = file.number .double)
    (isPtr : start + ptr = max (12 + bpi) start)
    (isBlocks : start + ptr + blocks = stop)
    (behind : 0 < blocks ∨ start ≤ 12 + bpi)
    (inRange : stop ≤ 12 + bpi + bpi * bpi) :
    let loop :=
      writeDouble blockAlloc bpi buf volume iBlock (start - 12 - bpi) ptr blocks
    ∃ after,
      Reached blockAlloc allocated before buf start loop.volume after stop ∧
      Synced bpi after ∧
      (∀ address, 2 ≤ file.number address →
        after.number address = file.number address) ∧
      loop.table = iBlock.set 13 (after.number .double) ∧
      loop.blocks = 0 ∧ start + loop.ptr = stop := by
  have isIndex (block : Nat) : BlockAddress.double ≠ .data block := nofun
  have notEntry (pos : Nat) : BlockAddress.table pos ≠ .double := nofun
  obtain ⟨first, firstReached, isNumber, valid, outer, firstGrown⟩ :=
    loadIndex_reaches reached isIndex notEntry synced.double
  rw [← isDouble] at firstReached isNumber valid outer
  have sameData (block : Nat) :
      first.number (.data block) = file.number (.data block) :=
    reached.frontier.same_number firstReached.frontier firstGrown.numbers
      (Nat.le_refl _) (by omega)
  let loaded := loadIndex blockAlloc volume (iBlock 13)
  have tables : TablesReached blockAlloc allocated before buf start bpi stop
        ⟨loaded.1, loaded.2.2, 0, ptr, blocks⟩ first := by
    refine ⟨firstReached, outer, ?_, fun table isTable => ?_,
      fun table isBeyond => ?_, isPtr, isBlocks, behind⟩
    · exact synced.single.keep (firstGrown.others .single nofun nofun)
        fun pos _ => sameData _
    · exact (synced.tables table isTable).keep
        (firstGrown.others (.table table) nofun nofun) fun pos _ => sameData _
    · rw [(firstGrown.others (.table table) nofun nofun).1]
      exact synced.beyond table isBeyond
  obtain ⟨second, secondTables, isDone, numbers⟩ :=
    writeTables_reaches tables (Nat.zero_mul bpi).symm (Nat.add_zero bpi)
      inRange
  let last :=
    writeTables blockAlloc bpi buf (start - 12 - bpi) bpi
      ⟨loaded.1, loaded.2.2, 0, ptr, blocks⟩
  have lastTables :
      TablesReached blockAlloc allocated before buf start bpi stop last
        second :=
    secondTables
  have isEmpty : last.blocks = 0 := isDone
  obtain ⟨secondReached, lastOuter, single, others, beyond, lastPtr,
    lastBlocks, lastBehind⟩ := lastTables
  have isSecond : second.number .double = loaded.2.1 := by
    rw [numbers .double (by rw [isNumber]; exact valid), isNumber]
  have mapped : 2 ≤ second.number .double := by
    rw [isSecond]
    exact valid
  have isStop : 12 + bpi + last.pos = stop := by
    omega
  have flushed := secondReached.progress.store mapped last.table
  have frontier : Frontier before buf start
        (second.put .double (second.number .double) last.table)
        (12 + bpi + last.pos) :=
    secondReached.frontier.put_index isIndex _
  rw [isStop] at frontier
  rw [isSecond] at flushed frontier
  refine ⟨_, ⟨flushed, frontier⟩, ⟨?_, ⟨?_, ?_⟩, ?_, ?_⟩, ?_, ?_, isDone, ?_⟩
  · exact single.keep
      ⟨FileMap.number_put_of_ne nofun, FileMap.content_put_of_ne nofun⟩
      fun pos _ => FileMap.number_put_of_ne nofun
  · intro _ pos inside
    exact lastOuter pos inside
  · intro unmapped
    rw [FileMap.number_put_same] at unmapped
    omega
  · exact fun table isTable => (others table isTable).keep
      ⟨FileMap.number_put_of_ne nofun, FileMap.content_put_of_ne nofun⟩
      fun pos _ => FileMap.number_put_of_ne nofun
  · exact fun table isBeyond =>
      (FileMap.number_put_of_ne (notEntry table)).trans (beyond table isBeyond)
  · intro address wasMapped
    have isFirst := firstGrown.numbers address wasMapped
    by_cases same : address = .double
    · subst same
      rw [FileMap.number_put_same, ← isFirst, isNumber]
    · rw [FileMap.number_put_of_ne same,
        numbers address (by rw [isFirst]; exact wasMapped), isFirst]
  · rfl
  · show start + last.ptr = stop
    omega

/-- `i_block` names the direct blocks and the two index blocks. -/
structure Rooted (iBlock : Block) (file : FileMap) : Prop where
  direct : ∀ block < 12, iBlock block = file.number (.data block)
  single : iBlock 12 = file.number .single
  double : iBlock 13 = file.number .double

theorem writeDirect_synced
    (reached : Reached blockAlloc allocated before buf start volume file 0)
    (synced : Synced bpi file) (rooted : Rooted iBlock file) :
    let loop := writeDirect blockAlloc buf volume iBlock start blocks
    ∃ after,
      Reached blockAlloc allocated before buf start loop.volume after
        (min loop.pos 12) ∧
      Synced bpi after ∧ Rooted loop.table after ∧
      ∀ block, 12 ≤ block →
        after.number (.data block) = file.number (.data block) := by
  intro loop
  have showsDirect : ShowsEntries file iBlock 0 12 := fun pos inside => by
    rw [rooted.direct pos inside, Nat.zero_add]
  obtain ⟨after, afterReached, shows, grown, sameBehind⟩ :=
    writeDirect_reaches reached showsDirect
  have sameData (block : Nat)
      (isBehind : 12 ≤ block) :
      after.number (.data block) = file.number (.data block) := by
    have border : min loop.pos 12 ≤ 12 := Nat.min_le_right _ _
    exact reached.frontier.same_number afterReached.frontier grown.numbers
      (Nat.zero_le _) (.inr (Nat.le_trans border isBehind))
  refine ⟨after, afterReached,
    ⟨?_, ?_, fun table isTable => ?_, fun table isBeyond => ?_⟩,
    ⟨fun block inside => ?_, ?_, ?_⟩, sameData⟩
  · exact synced.single.keep (grown.index _ nofun)
      fun pos _ => sameData _ (by omega)
  · exact synced.double.keep (grown.index _ nofun)
      fun pos _ => (grown.index (.table pos) nofun).1
  · exact (synced.tables table isTable).keep (grown.index _ nofun)
      fun pos _ => sameData _ (by omega)
  · rw [(grown.index (.table table) nofun).1]
    exact synced.beyond table isBeyond
  · rw [shows block inside, Nat.zero_add]
  · rw [sameBehind 12 (by omega), (grown.index .single nofun).1, rooted.single]
  · rw [sameBehind 13 (by omega), (grown.index .double nofun).1, rooted.double]

theorem writeDirect_counts (volume : Ext2Volume) (iBlock : Block)
    (start blocks : Nat) :
    let loop := writeDirect blockAlloc buf volume iBlock start blocks
    loop.pos = start + min blocks (12 - start) ∧
      loop.ptr = 0 + min blocks (12 - start) ∧
      loop.blocks = blocks - min blocks (12 - start) :=
  writeEntries_counts id _ _ _ _ _

/-- What the entries of a level leave of a number of blocks. -/
theorem level_counts {idx blocks bound pos before ptr left : Nat}
    (isPos : pos = idx + min blocks (bound - idx))
    (isPtr : ptr = before + min blocks (bound - idx))
    (isLeft : left = blocks - min blocks (bound - idx)) :
    ptr + idx = before + pos ∧ ptr + left = before + blocks ∧ idx ≤ pos ∧
      (0 < left → bound ≤ pos) ∧ (pos = idx ∨ pos ≤ bound) := by
  omega

/-- A write call leaves a file that is as wanted up to the end of its range. -/
theorem inodeWriteContent_reaches
    (reached :
      Reached blockAlloc allocated before buf start
        { volume with written := [] } file 0)
    (synced : Synced bpi file) (rooted : Rooted iBlock file)
    (someEntries : 0 < bpi) (inRange : start + blocks ≤ 12 + bpi + bpi * bpi)
    (mapped :
      ∀ block, max start 12 < block → block < 12 + bpi →
        block < start + blocks → 2 ≤ file.number (.data block)) :
    ∃ last table after,
      inodeWriteContent blockAlloc bpi buf volume iBlock blocks start =
        some (last, table, blocks) ∧
      Reached blockAlloc allocated before buf start last after
        (if blocks = 0 then min start 12 else start + blocks) ∧
      Synced bpi after ∧ Rooted table after := by
  let direct :=
    writeDirect blockAlloc buf { volume with written := [] } iBlock start blocks
  obtain ⟨first, firstReached, firstSynced, firstRooted, sameData⟩ : ∃ first,
        Reached blockAlloc allocated before buf start direct.volume first
          (min direct.pos 12) ∧
        Synced bpi first ∧ Rooted direct.table first ∧
        ∀ block, 12 ≤ block →
          first.number (.data block) = file.number (.data block) :=
    writeDirect_synced reached synced rooted
  obtain ⟨directPos, directPtr, directBlocks⟩ :
      direct.pos = start + min blocks (12 - start) ∧
        direct.ptr = 0 + min blocks (12 - start) ∧
        direct.blocks = blocks - min blocks (12 - start) :=
    writeDirect_counts _ _ _ _
  obtain ⟨directAt, directLeft, directFrom, directFull, directEnd⟩ :=
    level_counts directPos directPtr directBlocks
  clear directPos directPtr directBlocks
  unfold inodeWriteContent
  by_cases remains : 0 < direct.blocks
  · have someBlocks : blocks ≠ 0 := by omega
    rw [if_pos remains, if_neg someBlocks]
    let indirectIdx := direct.pos - 12
    have isStart : indirectIdx = start - 12 := by omega
    replace directFull := directFull remains
    rw [Nat.min_eq_right directFull] at firstReached
    have firstMapped (block : Nat) (lower : 12 + indirectIdx < block)
        (inSingle : block < 12 + bpi)
        (upper : block < 12 + indirectIdx + direct.blocks) :
        2 ≤ first.number (.data block) := by
      rw [sameData block (by omega)]
      exact mapped block (by omega) inSingle (by omega)
    let single :=
      writeSingle blockAlloc bpi buf direct.volume direct.table indirectIdx
        direct.ptr direct.blocks
    obtain ⟨second, secondReached, secondSynced, secondGrown, hasSingle,
      singleTable⟩ : ∃ second,
          Reached blockAlloc allocated before buf start single.volume second
            (12 + min single.pos bpi) ∧
          Synced bpi second ∧ GrownBut .single first second ∧
          2 ≤ second.number .single ∧
          single.table = direct.table.set 12 (second.number .single) :=
      writeSingle_reaches firstReached firstSynced firstRooted.single isStart
        (by omega) firstMapped
    obtain ⟨singlePos, singlePtr, singleBlocks⟩ :
        single.pos = indirectIdx + min direct.blocks (bpi - indirectIdx) ∧
          single.ptr = direct.ptr + min direct.blocks (bpi - indirectIdx) ∧
          single.blocks =
            direct.blocks - min direct.blocks (bpi - indirectIdx) :=
      writeEntries_counts _ _ _ _ _ _
    obtain ⟨singleAt, singleLeft, singleFrom, singleFull, singleEnd⟩ :=
      level_counts singlePos singlePtr singleBlocks
    clear singlePos singlePtr singleBlocks
    have secondRooted : Rooted single.table second := by
      rw [singleTable]
      refine ⟨fun block inside => ?_, Memory.set_same _ _ _, ?_⟩
      · have wasMapped := (firstReached.frontier.done block inside).1
        rw [Memory.set_of_ne (by omega), firstRooted.direct block inside,
          secondGrown.numbers _ wasMapped]
      · rw [Memory.set_of_ne (by omega), firstRooted.double,
          (secondGrown.others .double nofun nofun).1]
    by_cases inDouble : bpi ≤ single.pos ∧ single.pos - bpi < bpi * bpi
    · have isIdx : single.pos - bpi = start - 12 - bpi := by omega
      rw [Nat.min_eq_right inDouble.1] at secondReached
      let double :=
        writeDouble blockAlloc bpi buf single.volume single.table
          (start - 12 - bpi) single.ptr single.blocks
      obtain ⟨third, thirdReached, thirdSynced, thirdNumbers, doubleTable,
        isDone, isPtr⟩ : ∃ third,
            Reached blockAlloc allocated before buf start double.volume third
              (start + blocks) ∧
            Synced bpi third ∧
            (∀ address, 2 ≤ second.number address →
              third.number address = second.number address) ∧
            double.table = single.table.set 13 (third.number .double) ∧
            double.blocks = 0 ∧ start + double.ptr = start + blocks :=
        writeDouble_reaches secondReached secondSynced secondRooted.double
          (by omega) (by omega) (by omega) inRange
      have thirdRooted : Rooted double.table third := by
        rw [doubleTable]
        refine ⟨fun block inside => ?_, ?_, Memory.set_same _ _ _⟩
        · have wasMapped := (secondReached.frontier.done block (by omega)).1
          rw [Memory.set_of_ne (by omega), secondRooted.direct block inside,
            thirdNumbers _ wasMapped]
        · rw [Memory.set_of_ne (by omega), secondRooted.single,
            thirdNumbers _ hasSingle]
      refine ⟨double.volume, double.table, third, ?_, thirdReached,
        thirdSynced, thirdRooted⟩
      have isEmpty : ¬ 0 < double.blocks := by omega
      have all : double.ptr = blocks := by omega
      rw [if_pos inDouble]
      rw [isIdx, if_neg isEmpty, all]
    · refine ⟨single.volume, single.table, second, ?_, ?_, secondSynced,
        secondRooted⟩
      · have all : single.ptr = blocks := by omega
        rw [if_neg inDouble, all]
      · have isBorder : 12 + min single.pos bpi = start + blocks := by omega
        rw [← isBorder]
        exact secondReached
  · refine ⟨direct.volume, direct.table, first, ?_, ?_, firstSynced,
      firstRooted⟩
    · have all : direct.ptr = blocks := by omega
      rw [if_neg remains, all]
    · have isBorder : min direct.pos 12 =
            if blocks = 0 then min start 12 else start + blocks := by
        split <;> omega
      rw [← isBorder]
      exact firstReached

end Levels

end Idylla.Ext2
