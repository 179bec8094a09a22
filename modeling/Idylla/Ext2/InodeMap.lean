import Idylla.Ext2.InodeContent

namespace Idylla.Ext2

open Idylla.Lib

/-!
# Files as maps from addresses to blocks

Every block of a file has an address: its logical number, or its place among
the index blocks.  A map gives the device block and the contents for each
address, also while the entry for it is in memory only.  A write call fills
the file from the front: below some logical block all is as the call leaves
it, from there on all is as it was.
-/

/-- Where a block belongs in a file. -/
inductive BlockAddress where
  | data (block : Nat)
  | single
  | double
  /-- An index block that the double-indirect block names. -/
  | table (index : Nat)
  deriving Repr, DecidableEq

/-- The blocks of a file. -/
structure FileMap where
  number : BlockAddress → Nat
  content : BlockAddress → Block

/-- The block at one address replaced. -/
def FileMap.put (file : FileMap) (address : BlockAddress) (number : Nat)
    (content : Block) : FileMap where
  number := fun other =>
    if other = address then number else file.number other
  content := fun other =>
    if other = address then content else file.content other

namespace FileMap

variable {file : FileMap} {address other : BlockAddress} {number : Nat}
  {content : Block}

@[simp] theorem number_put_same :
    (file.put address number content).number address = number :=
  if_pos rfl

@[simp] theorem content_put_same :
    (file.put address number content).content address = content :=
  if_pos rfl

@[simp] theorem put_put (newNumber : Nat) (newContent : Block) :
    (file.put address number content).put address newNumber newContent =
      file.put address newNumber newContent := by
  unfold FileMap.put
  congr 1
  all_goals
    funext other
    by_cases same : other = address <;> simp [same]

theorem number_put_of_ne (differs : other ≠ address) :
    (file.put address number content).number other = file.number other :=
  if_neg differs

theorem content_put_of_ne (differs : other ≠ address) :
    (file.put address number content).content other = file.content other :=
  if_neg differs

end FileMap

/-- The blocks that `block_alloc` returns are the file's from then on. -/
structure FreshBlocks
    (blockAlloc : Nat → Nat)
    (allocated : Nat)
    (file : FileMap) : Prop where
  distinct : ∀ call other, blockAlloc call = blockAlloc other → call = other
  valid : ∀ call, 2 ≤ blockAlloc call
  unused :
    ∀ call address, allocated ≤ call → file.number address ≠ blockAlloc call

/-- What a call has made of the blocks of a file so far. -/
structure Progress
    (blockAlloc : Nat → Nat)
    (allocated : Nat) (before : FileMap) (volume : Ext2Volume)
    (file : FileMap) : Prop where
  fresh : FreshBlocks blockAlloc volume.allocated file
  apart : ∀ address other, 2 ≤ file.number address →
      file.number address = file.number other → address = other
  stored : ∀ address, 2 ≤ file.number address →
      volume.blocks (file.number address) = file.content address
  kept : ∀ address, 2 ≤ before.number address →
      file.number address = before.number address
  made : ∀ address, 2 ≤ file.number address →
      file.number address = before.number address ∨
        ∃ call, allocated ≤ call ∧ call < volume.allocated ∧
          file.number address = blockAlloc call
  logged : ∀ block ∈ volume.written,
      ∃ address, 2 ≤ file.number address ∧ block = file.number address
  later : allocated ≤ volume.allocated

namespace Progress

variable {blockAlloc : Nat → Nat} {allocated : Nat} {before file : FileMap}
  {volume : Ext2Volume} {address : BlockAddress}

theorem create (progress : Progress blockAlloc allocated before volume file)
    (unmapped : file.number address < 2) (zeroblock : Bool) :
    Progress blockAlloc allocated before
      (inodeDoAllocBlock blockAlloc volume zeroblock).1
      (file.put address (blockAlloc volume.allocated)
        (if zeroblock then zeroBlock
          else volume.blocks (blockAlloc volume.allocated))) := by
  obtain ⟨⟨distinct, valid, unused⟩, apart, stored, kept, made, logged,
    later⟩ := progress
  have isNew (other : BlockAddress) :
      file.number other ≠ blockAlloc volume.allocated :=
    unused _ other (Nat.le_refl _)
  have others {other : BlockAddress}
      (isMapped : 2 ≤ file.number other) :
      other ≠ address := by
    rintro rfl
    exact Nat.not_lt.mpr isMapped unmapped
  have allocatedNext :
      (inodeDoAllocBlock blockAlloc volume zeroblock).1.allocated =
        volume.allocated + 1 := by
    cases zeroblock <;> rfl
  refine ⟨⟨distinct, valid, ?_⟩, ?_, ?_, ?_, ?_, ?_, ?_⟩
  · intro call other isLater
    rw [allocatedNext] at isLater
    by_cases same : other = address
    · rw [same, FileMap.number_put_same]
      intro isCall
      exact Nat.ne_of_lt isLater (distinct _ _ isCall)
    · rw [FileMap.number_put_of_ne same]
      exact unused call other (Nat.le_of_lt isLater)
  · intro one other isMapped sameNumber
    by_cases isOne : one = address <;> by_cases isOther : other = address
    · rw [isOne, isOther]
    · rw [isOne, FileMap.number_put_same,
        FileMap.number_put_of_ne isOther] at sameNumber
      exact absurd sameNumber.symm (isNew other)
    · rw [isOther, FileMap.number_put_same,
        FileMap.number_put_of_ne isOne] at sameNumber
      exact absurd sameNumber (isNew one)
    · rw [FileMap.number_put_of_ne isOne] at isMapped sameNumber
      rw [FileMap.number_put_of_ne isOther] at sameNumber
      exact apart one other isMapped sameNumber
  · intro other isMapped
    by_cases same : other = address
    · rw [same, FileMap.number_put_same, FileMap.content_put_same]
      cases zeroblock
      · rfl
      · exact Memory.set_same _ _ _
    · rw [FileMap.number_put_of_ne same] at isMapped ⊢
      rw [FileMap.content_put_of_ne same, ← stored other isMapped]
      cases zeroblock
      · rfl
      · exact Memory.set_of_ne (isNew other)
  · intro other wasMapped
    have isMapped : 2 ≤ file.number other := by
      rw [kept other wasMapped]
      exact wasMapped
    rw [FileMap.number_put_of_ne (others isMapped)]
    exact kept other wasMapped
  · intro other isMapped
    rw [allocatedNext]
    by_cases same : other = address
    · refine .inr ⟨volume.allocated, later, Nat.lt_succ_self _, ?_⟩
      rw [same, FileMap.number_put_same]
    · rw [FileMap.number_put_of_ne same] at isMapped ⊢
      rcases made other isMapped with isOld | ⟨call, lower, upper, isCall⟩
      · exact .inl isOld
      · exact .inr ⟨call, lower, Nat.lt_succ_of_lt upper, isCall⟩
  · have old {block number : Nat} {content : Block}
        (wasWritten : block ∈ volume.written) :
        ∃ other,
          2 ≤ (file.put address number content).number other ∧
            block = (file.put address number content).number other := by
      obtain ⟨other, isMapped, isBlock⟩ := logged block wasWritten
      refine ⟨other, ?_⟩
      rw [FileMap.number_put_of_ne (others isMapped)]
      exact ⟨isMapped, isBlock⟩
    intro block isWritten
    cases zeroblock with
    | false =>
      exact old isWritten
    | true =>
      rcases List.mem_cons.mp isWritten with rfl | wasWritten
      · refine ⟨address, ?_⟩
        rw [FileMap.number_put_same]
        exact ⟨valid _, rfl⟩
      · exact old wasWritten
  · rw [allocatedNext]
    exact Nat.le_succ_of_le later

theorem store (progress : Progress blockAlloc allocated before volume file)
    (mapped : 2 ≤ file.number address) (content : Block) :
    Progress blockAlloc allocated before
      (volume.bdevWrite (file.number address) content)
      (file.put address (file.number address) content) := by
  obtain ⟨⟨distinct, valid, unused⟩, apart, stored, kept, made, logged,
    later⟩ := progress
  have sameNumber (other : BlockAddress) :
      (file.put address (file.number address) content).number other =
        file.number other := by
    by_cases same : other = address
    · rw [same, FileMap.number_put_same]
    · rw [FileMap.number_put_of_ne same]
  refine ⟨⟨distinct, valid, ?_⟩, ?_, ?_, ?_, ?_, ?_, later⟩
  all_goals
    simp only [sameNumber]
  · exact unused
  · exact apart
  · intro other isMapped
    by_cases same : other = address
    · rw [same, FileMap.content_put_same]
      exact Memory.set_same _ _ _
    · rw [FileMap.content_put_of_ne same, ← stored other isMapped]
      exact Memory.set_of_ne fun isThat =>
        same (apart other address isMapped isThat)
  · exact kept
  · exact made
  · intro block isWritten
    rcases List.mem_cons.mp isWritten with rfl | wasWritten
    · exact ⟨address, mapped, rfl⟩
    · exact logged block wasWritten

end Progress

/-- The contents that a write call is to leave at a logical block. -/
def FileMap.wanted (before : FileMap) (buf : Memory Block)
    (start block : Nat) : Block :=
  if start ≤ block then
    buf (block - start)
  else if 2 ≤ before.number (.data block) then
    before.content (.data block)
  else
    zeroBlock

namespace FileMap

variable {before : FileMap} {buf : Memory Block} {start block : Nat}

theorem wanted_of_range (inRange : start ≤ block) :
    before.wanted buf start block = buf (block - start) :=
  if_pos inRange

theorem wanted_of_mapped (below : block < start)
    (wasMapped : 2 ≤ before.number (.data block)) :
    before.wanted buf start block = before.content (.data block) := by
  rw [wanted, if_neg (Nat.not_le.mpr below), if_pos wasMapped]

theorem wanted_of_unmapped (below : block < start)
    (wasUnmapped : before.number (.data block) < 2) :
    before.wanted buf start block = zeroBlock := by
  rw [wanted, if_neg (Nat.not_le.mpr below),
    if_neg (Nat.not_le.mpr wasUnmapped)]

end FileMap

/-- The logical blocks below one are as wanted, the others as before. -/
structure Frontier
    (before : FileMap) (buf : Memory Block) (start : Nat) (file : FileMap)
    (border : Nat) : Prop where
  done : ∀ block < border, 2 ≤ file.number (.data block) ∧
      file.content (.data block) = before.wanted buf start block
  rest : ∀ block, border ≤ block →
      file.number (.data block) = before.number (.data block) ∧
        file.content (.data block) = before.content (.data block)

/-- Blocks of the file stay, and index blocks do not change. -/
structure Grown (file after : FileMap) : Prop where
  numbers : ∀ address, 2 ≤ file.number address →
      after.number address = file.number address
  index : ∀ address, (∀ block, address ≠ .data block) →
      after.number address = file.number address ∧
        after.content address = file.content address

/-- A table has the numbers of the logical blocks from one on. -/
def ShowsEntries (file : FileMap) (table : Block) (base bound : Nat) : Prop :=
  ∀ pos < bound, table pos = file.number (.data (base + pos))

namespace Grown

variable {file after last : FileMap}

theorem refl (file : FileMap) : Grown file file :=
  ⟨fun _ _ => rfl, fun _ _ => ⟨rfl, rfl⟩⟩

theorem trans (first : Grown file after) (second : Grown after last) :
    Grown file last := by
  constructor
  · intro address isMapped
    have same := first.numbers address isMapped
    rw [second.numbers address (by rw [same]; exact isMapped), same]
  · intro address isIndex
    obtain ⟨number, content⟩ := second.index address isIndex
    obtain ⟨oldNumber, oldContent⟩ := first.index address isIndex
    exact ⟨number.trans oldNumber, content.trans oldContent⟩

theorem put {block number : Nat} (content : Block)
    (keeps :
      2 ≤ file.number (.data block) → number = file.number (.data block)) :
    Grown file (file.put (.data block) number content) := by
  constructor
  · intro address isMapped
    by_cases same : address = .data block
    · subst same
      rw [FileMap.number_put_same]
      exact keeps isMapped
    · exact FileMap.number_put_of_ne same
  · intro address isIndex
    exact ⟨FileMap.number_put_of_ne (isIndex block),
      FileMap.content_put_of_ne (isIndex block)⟩

end Grown

namespace Frontier

variable {before file : FileMap} {buf : Memory Block}
  {start border number : Nat}

variable (frontier : Frontier before buf start file border)

include frontier

theorem advance (mapped : 2 ≤ number) (content : Block)
    (isWanted : content = before.wanted buf start border) :
    Frontier before buf start (file.put (.data border) number content)
      (border + 1) := by
  constructor
  · intro block below
    by_cases same : block = border
    · rw [same, FileMap.number_put_same, FileMap.content_put_same]
      exact ⟨mapped, isWanted⟩
    · have differs : BlockAddress.data block ≠ .data border := by
        rintro ⟨⟩
        exact same rfl
      rw [FileMap.number_put_of_ne differs, FileMap.content_put_of_ne differs]
      exact frontier.done block (by omega)
  · intro block isBehind
    have differs : BlockAddress.data block ≠ .data border := by
      rintro ⟨⟩
      exact Nat.not_succ_le_self _ isBehind
    rw [FileMap.number_put_of_ne differs, FileMap.content_put_of_ne differs]
    exact frontier.rest block (Nat.le_of_succ_le isBehind)

theorem skip (mapped : 2 ≤ file.number (.data border))
    (below : border < start) : Frontier before buf start file (border + 1) := by
  obtain ⟨sameNumber, sameContent⟩ := frontier.rest border (Nat.le_refl _)
  constructor
  · intro block isBelow
    by_cases same : block = border
    · rw [same]
      refine ⟨mapped, ?_⟩
      rw [sameNumber] at mapped
      rw [sameContent, FileMap.wanted_of_mapped below mapped]
    · exact frontier.done block (by omega)
  · exact fun block isBehind => frontier.rest block (Nat.le_of_succ_le isBehind)

theorem same_number {after : FileMap} {later block : Nat}
    (afterFrontier : Frontier before buf start after later)
    (numbers :
      ∀ address, 2 ≤ file.number address →
        after.number address = file.number address) (isLater : border ≤ later)
    (outside : block < border ∨ later ≤ block) :
    after.number (.data block) = file.number (.data block) := by
  rcases outside with below | behind
  · exact numbers _ (frontier.done block below).1
  · rw [(afterFrontier.rest block behind).1,
      (frontier.rest block (Nat.le_trans isLater behind)).1]

theorem put_index {address : BlockAddress}
    (isIndex : ∀ block, address ≠ .data block) (content : Block) :
    Frontier before buf start (file.put address number content) border := by
  constructor
  · intro block below
    rw [FileMap.number_put_of_ne (Ne.symm (isIndex block)),
      FileMap.content_put_of_ne (Ne.symm (isIndex block))]
    exact frontier.done block below
  · intro block isBehind
    rw [FileMap.number_put_of_ne (Ne.symm (isIndex block)),
      FileMap.content_put_of_ne (Ne.symm (isIndex block))]
    exact frontier.rest block isBehind

end Frontier

/-- A loop over a table has come to a logical block. -/
structure Reached
    (blockAlloc : Nat → Nat)
    (allocated : Nat) (before : FileMap) (buf : Memory Block) (start : Nat)
    (volume : Ext2Volume) (file : FileMap)
    (border : Nat) : Prop where
  progress : Progress blockAlloc allocated before volume file
  frontier : Frontier before buf start file border

section Loops

variable {blockAlloc : Nat → Nat} {allocated start base bound : Nat}
  {before : FileMap} {buf : Memory Block}

variable {table : Block}

variable {file : FileMap}

theorem ShowsEntries.put
    (shows : ShowsEntries file table base bound) (pos number : Nat)
    (content : Block) :
    ShowsEntries (file.put (.data (base + pos)) number content)
      (table.set pos number) base bound := by
  intro other below
  by_cases same : other = pos
  · rw [same, Memory.set_same, FileMap.number_put_same]
  · have differs : BlockAddress.data (base + other) ≠ .data (base + pos) := by
      rintro isSame
      injection isSame with isSame
      omega
    rw [Memory.set_of_ne same, FileMap.number_put_of_ne differs]
    exact shows other below

variable {pos : Nat} {volume : Ext2Volume}

/-- The loops that create the blocks in front of the range. -/
theorem fillEntries_reaches {count : Nat}
    (reached :
      Reached blockAlloc allocated before buf start volume file (base + pos))
    (shows : ShowsEntries file table base bound) (inBound : pos + count ≤ bound)
    (below : 0 < count → base + (pos + count) ≤ start) :
    ∃ after,
      Reached blockAlloc allocated before buf start
        (fillEntries blockAlloc count pos (volume, table)).1 after
        (base + (pos + count)) ∧
      ShowsEntries after
        (fillEntries blockAlloc count pos (volume, table)).2 base bound ∧
      Grown file after := by
  induction count generalizing pos volume table file with
  | zero =>
    exact ⟨file, reached, shows, .refl file⟩
  | succ count ih =>
    have isEntry := shows pos (by omega)
    have rest : pos + (count + 1) = pos + 1 + count := by omega
    have isBelow := below (Nat.succ_pos count)
    rw [rest] at inBound isBelow ⊢
    by_cases unmapped : table pos < 2
    · have created : Progress blockAlloc allocated before
            (inodeDoAllocBlock blockAlloc volume true).1
            (file.put (.data (base + pos)) (blockAlloc volume.allocated)
              zeroBlock) :=
        reached.progress.create (by rw [← isEntry]; exact unmapped) true
      have isWanted : zeroBlock = before.wanted buf start (base + pos) := by
        obtain ⟨sameNumber, -⟩ :=
          reached.frontier.rest (base + pos) (Nat.le_refl _)
        have wasUnmapped : before.number (.data (base + pos)) < 2 := by
          rw [← sameNumber, ← isEntry]
          exact unmapped
        exact (FileMap.wanted_of_unmapped (by omega) wasUnmapped).symm
      have advanced :=
        reached.frontier.advance
          (reached.progress.fresh.valid volume.allocated) zeroBlock isWanted
      obtain ⟨after, afterReached, afterShows, grown⟩ :=
        ih ⟨created, advanced⟩
          (shows.put pos (blockAlloc volume.allocated) zeroBlock)
          inBound fun _ => isBelow
      have firstGrown : Grown file
            (file.put (.data (base + pos)) (blockAlloc volume.allocated)
              zeroBlock) :=
        .put zeroBlock fun mapped => by
          omega
      simp only [fillEntries, unmapped, ↓reduceIte]
      exact ⟨after, afterReached, afterShows, firstGrown.trans grown⟩
    · have mapped : 2 ≤ file.number (.data (base + pos)) := by
        omega
      have advanced := reached.frontier.skip mapped (by omega)
      simp only [fillEntries, unmapped, ↓reduceIte]
      exact ih ⟨reached.progress, advanced⟩ shows inBound fun _ => isBelow

theorem writeEntries_counts (slot : Nat → Nat)
    (volume : Ext2Volume) (table : Block) (pos ptr blocks : Nat) :
    let loop :=
      writeEntries blockAlloc buf slot bound volume table pos ptr blocks
    loop.pos = pos + min blocks (bound - pos) ∧
      loop.ptr = ptr + min blocks (bound - pos) ∧
      loop.blocks = blocks - min blocks (bound - pos) := by
  induction blocks generalizing pos ptr volume table with
  | zero =>
    simp [writeEntries]
  | succ blocks ih =>
    by_cases inBound : pos < bound
    · have counts : min (blocks + 1) (bound - pos) =
            min blocks (bound - (pos + 1)) + 1 := by
        omega
      simp only [writeEntries, inBound, ↓reduceIte]
      split
      all_goals
        simp only [ih, counts]
        omega
    · have none : bound - pos = 0 := by omega
      simp [writeEntries, inBound, none]

theorem writeEntries_ends (slot : Nat → Nat)
    (volume : Ext2Volume) (table : Block) (ptr blocks : Nat)
    (inBound : pos ≤ bound) :
    let loop :=
      writeEntries blockAlloc buf slot bound volume table pos ptr blocks
    ∃ more,
      loop.pos = pos + more ∧ loop.ptr = ptr + more ∧
        loop.blocks + more = blocks ∧ pos + more ≤ bound ∧
        (loop.blocks = 0 ∨ loop.pos = bound) := by
  intro loop
  obtain ⟨isPos, isPtr, isBlocks⟩ : loop.pos = pos + min blocks (bound - pos) ∧
        loop.ptr = ptr + min blocks (bound - pos) ∧
        loop.blocks = blocks - min blocks (bound - pos) :=
    writeEntries_counts slot volume table pos ptr blocks
  exact ⟨min blocks (bound - pos), isPos, isPtr, by omega, by omega, by omega⟩

variable {ptr blocks : Nat}

theorem writeEntries_reaches {slot : Nat → Nat}
    (reached :
      Reached blockAlloc allocated before buf start volume file (base + pos))
    (shows : ShowsEntries file table base bound)
    (notes :
      ∀ other, pos ≤ other → other < pos + min blocks (bound - pos) →
        file.number (.data (base + other)) < 2 → slot other = other)
    (inRange :
      0 < min blocks (bound - pos) →
        start ≤ base + pos ∧ ptr = base + pos - start) :
    let loop :=
      writeEntries blockAlloc buf slot bound volume table pos ptr blocks
    ∃ after,
      Reached blockAlloc allocated before buf start loop.volume after
        (base + loop.pos) ∧
      ShowsEntries after loop.table base bound ∧
      Grown file after := by
  induction blocks generalizing pos ptr volume table file with
  | zero =>
    exact ⟨file, reached, shows, .refl file⟩
  | succ blocks ih =>
    by_cases inBound : pos < bound
    · obtain ⟨isBehind, isPtr⟩ := inRange (by omega)
      have isEntry := shows pos inBound
      have isWanted : buf ptr = before.wanted buf start (base + pos) := by
        rw [FileMap.wanted_of_range isBehind, isPtr]
      have nextRange : 0 < min blocks (bound - (pos + 1)) →
            start ≤ base + (pos + 1) ∧ ptr + 1 = base + (pos + 1) - start := by
        omega
      have nextNotes {after : FileMap} (grown : Grown file after) (other : Nat)
          (lower : pos + 1 ≤ other)
          (upper : other < pos + 1 + min blocks (bound - (pos + 1)))
          (unmapped : after.number (.data (base + other)) < 2) :
          slot other = other := by
        refine notes other (by omega) (by omega) ?_
        by_cases mapped : 2 ≤ file.number (.data (base + other))
        · rw [grown.numbers _ mapped] at unmapped
          exact unmapped
        · omega
      by_cases unmapped : table pos < 2
      · have isUnmapped : file.number (.data (base + pos)) < 2 := by
          rw [← isEntry]
          exact unmapped
        have isSlot : slot pos = pos :=
          notes pos (Nat.le_refl _) (by omega) isUnmapped
        have created := reached.progress.create isUnmapped false
        have valid := reached.progress.fresh.valid volume.allocated
        have written :=
          created.store (by rw [FileMap.number_put_same]; exact valid) (buf ptr)
        rw [FileMap.number_put_same, FileMap.put_put] at written
        have advanced := reached.frontier.advance valid (buf ptr) isWanted
        have grown : Grown file
              (file.put (.data (base + pos)) (blockAlloc volume.allocated)
                (buf ptr)) :=
          .put (buf ptr) fun mapped => by omega
        obtain ⟨after, afterReached, afterShows, laterGrown⟩ :=
          ih ⟨written, advanced⟩
            (shows.put pos (blockAlloc volume.allocated) (buf ptr))
            (nextNotes grown) nextRange
        simp only [writeEntries, inBound, unmapped, isSlot, ↓reduceIte,
          inodeDoAllocBlock, Memory.set_same]
        exact ⟨after, afterReached, afterShows, grown.trans laterGrown⟩
      · have mapped : 2 ≤ file.number (.data (base + pos)) := by
          omega
        have written := reached.progress.store mapped (buf ptr)
        have advanced := reached.frontier.advance mapped (buf ptr) isWanted
        have grown : Grown file
              (file.put (.data (base + pos))
                (file.number (.data (base + pos))) (buf ptr)) :=
          .put (buf ptr) fun _ => rfl
        have nextShows :=
          shows.put pos (file.number (.data (base + pos))) (buf ptr)
        rw [← isEntry] at written advanced grown nextShows
        rw [Memory.set_self] at nextShows
        obtain ⟨after, afterReached, afterShows, laterGrown⟩ :=
          ih ⟨written, advanced⟩ nextShows (nextNotes grown) nextRange
        simp only [writeEntries, inBound, unmapped, ↓reduceIte]
        exact ⟨after, afterReached, afterShows, grown.trans laterGrown⟩
    · simp only [writeEntries, inBound, ↓reduceIte]
      exact ⟨file, reached, shows, .refl file⟩

theorem fillEntries_behind {count other : Nat} (behind : pos + count ≤ other) :
    (fillEntries blockAlloc count pos (volume, table)).2 other =
      table other := by
  induction count generalizing pos volume table with
  | zero =>
    rfl
  | succ count ih =>
    simp only [fillEntries]
    split
    · rw [ih (by omega)]
      exact Memory.set_of_ne (by omega)
    · exact ih (by omega)

theorem writeEntries_behind {other : Nat} (behind : bound ≤ other) :
    (writeEntries blockAlloc buf id bound volume table pos ptr
      blocks).table other = table other := by
  induction blocks generalizing pos ptr volume table with
  | zero =>
    rfl
  | succ blocks ih =>
    simp only [writeEntries]
    split
    next inBound =>
      split
      · rw [ih]
        exact Memory.set_of_ne (by simp only [id]; omega)
      · exact ih
    next => rfl

theorem writeEntries_done {slot : Nat → Nat} (behind : bound ≤ pos) :
    writeEntries blockAlloc buf slot bound volume table pos ptr blocks =
      ⟨volume, table, pos, ptr, blocks⟩ := by
  cases blocks with
  | zero =>
    rfl
  | succ blocks =>
    rw [writeEntries, if_neg (Nat.not_lt.mpr behind)]

end Loops

end Idylla.Ext2
