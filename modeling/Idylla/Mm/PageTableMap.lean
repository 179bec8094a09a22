import Idylla.Mm.PageDirectories

namespace Idylla.Mm

/-!
# Page tables as maps

What `paging_map_page` and `paging_unmap_page` make of the translation of
every page under a directory.  The page tables of the directory are frames of
their own; entries that are pages of 4 MB may stand beside them.
-/

/-- A present entry that is a page of 4 MB. -/
def isLarge (entry : BitVec 32) : Bool :=
  isPresent entry && flagsOf entry &&& PG_FLAG_SIZE != 0

/-- A present entry that names a page table. -/
def isTable (entry : BitVec 32) : Bool :=
  isPresent entry && flagsOf entry &&& PG_FLAG_SIZE == 0

namespace PageMemory

variable (memory : PageMemory)

/--
The page tables of a directory are pairwise distinct frames, none of them the
directory's own, and all of them handed out by `phys_alloc`.
-/
structure TablesApart (kernel dir : Frame) : Prop where
  apart : ∀ index other, isTable (memory.words dir index) = true →
      isTable (memory.words dir other) = true →
      frameOf (memory.words dir index) = frameOf (memory.words dir other) →
      index = other
  notDirectory : ∀ index, isTable (memory.words dir index) = true →
      frameOf (memory.words dir index) ≠ dir
  taken : ∀ index, isTable (memory.words dir index) = true →
      frameOf (memory.words dir index) ∈ kernel :: memory.taken
  directoryTaken : dir ∈ kernel :: memory.taken

/-- The frame and the flags of a page, none of those of a page of 4 MB. -/
def pageOf (dir : Frame)
    (virt : BitVec 32) : Option (Frame × Option (BitVec 16)) :=
  (memory.translate dir virt).map fun translation =>
    (translation.frame, translation.pageFlags.map fun flags =>
      flags.setWidth 16)

/-- The translation of a page is another one with some flags. -/
def MapsTo (dir : Frame) (virt phys : BitVec 32) (att : BitVec 16) : Prop :=
  memory.pageOf dir virt =
    if att.getLsbD 0 then some (frameOf phys, some att) else none

/-- The translation of every page but one is as before. -/
def KeepsOthers (next : PageMemory) (dir : Frame) (virt : BitVec 32) : Prop :=
  ∀ other : BitVec 32, other >>> 12 ≠ virt >>> 12 →
    next.translate dir other = memory.translate dir other

end PageMemory

/-- A word has room for a physical address beside flags. -/
def Packs (phys : BitVec 32) (att : BitVec 16) : Prop :=
  if att.getLsbD 0 then
    att >>> 12 = 0 ∧ phys.setWidth 12 ||| att.setWidth 12 = att.setWidth 12
  else
    phys.getLsbD 0 = false

namespace PagingCall

variable (kernel : Frame) (memory next : PageMemory)

/-- A call does to the translations of its directory what it is for. -/
def ActsOnMap : PagingCall → Prop
  | .mapPage virt phys att dataptr allocated =>
    let dir := dataptr.getD kernel
    if (memory.pagingMapPage kernel virt phys att dataptr allocated).2 then
      next.MapsTo dir virt phys att ∧ memory.KeepsOthers next dir virt
    else
      ∀ other, next.translate dir other = memory.translate dir other
  | .unmapPage virt dataptr =>
    let dir := dataptr.getD kernel
    next.translate dir virt = none ∧ memory.KeepsOthers next dir virt
  | .createAspace _ => True

/--
The page does not lie in one of 4 MB, and a page that is put in fits beside
its flags.
-/
def SuitsTables : PagingCall → Prop
  | .mapPage virt phys att dataptr allocated =>
    let entry := memory.words (dataptr.getD kernel) (PGDIR_ENTRY virt)
    isPresent entry = true ∨ allocated ≠ none →
      isLarge entry = false ∧ Packs phys att
  | .unmapPage virt dataptr =>
    isLarge (memory.words (dataptr.getD kernel) (PGDIR_ENTRY virt)) = false
  | .createAspace _ => True

end PagingCall

section Words

variable {phys : BitVec 32} {att : BitVec 16} {entry : BitVec 32}

theorem isPresent_eq_getLsbD (entry : BitVec 32) :
    isPresent entry = entry.getLsbD 0 := by
  have isBit : flagsOf entry &&& PG_FLAG_PRESENT = PG_FLAG_PRESENT ↔
        entry.getLsbD 0 = true := by
    unfold flagsOf PG_FLAG_PRESENT
    constructor
    · intro same
      have atZero := congrArg (fun word => word.getLsbD 0) same
      simpa using atZero
    · intro isSet
      ext i inside
      by_cases isZero : i = 0
      · simpa [isZero] using isSet
      · simp [isZero, BitVec.getElem_one]
  rw [isPresent, Bool.eq_iff_iff, beq_iff_eq, isBit]

theorem isTable_of_present (present : isPresent entry = true)
    (notLarge : isLarge entry = false) : isTable entry = true := by
  unfold isLarge at notLarge
  unfold isTable
  rw [present] at notLarge ⊢
  simpa using notLarge

theorem frameOf_or (phys : BitVec 32) (att : BitVec 16) :
    frameOf (phys ||| att.setWidth 32) =
      frameOf phys ||| (att >>> 12).setWidth 20 := by
  unfold frameOf
  ext i inside
  have inWord : 12 + i < 32 := by omega
  simp only [BitVec.getElem_setWidth, BitVec.getLsbD_ushiftRight,
    BitVec.getLsbD_or, BitVec.getLsbD_setWidth, BitVec.getElem_or, inWord,
    decide_true, Bool.true_and]

theorem flagsOf_or (phys : BitVec 32) (att : BitVec 16) :
    flagsOf (phys ||| att.setWidth 32) =
      phys.setWidth 12 ||| att.setWidth 12 := by
  unfold flagsOf
  simp

theorem isPresent_or (phys : BitVec 32) (att : BitVec 16) :
    isPresent (phys ||| att.setWidth 32) =
      (phys.getLsbD 0 || att.getLsbD 0) := by
  rw [isPresent_eq_getLsbD]
  simp

theorem setWidth_setWidth_eq_iff (flags : BitVec 12) (att : BitVec 16) :
    flags.setWidth 16 = att ↔ att >>> 12 = 0 ∧ flags = att.setWidth 12 := by
  constructor
  · rintro rfl
    constructor
    · ext i inside
      simp
    · simp
  · rintro ⟨noneAbove, rfl⟩
    ext i inside
    by_cases isFlag : i < 12
    · simp [isFlag, BitVec.getLsbD_eq_getElem inside]
    · have isBit := congrArg (fun word => word.getLsbD (i - 12)) noneAbove
      have isAbove : 12 + (i - 12) = i := by omega
      simp only [BitVec.getLsbD_ushiftRight, isAbove] at isBit
      simp [isFlag, ← BitVec.getLsbD_eq_getElem inside, isBit]

theorem packs_iff (phys : BitVec 32) (att : BitVec 16) :
    ((if isPresent (phys ||| att.setWidth 32) = true then
        some (frameOf (phys ||| att.setWidth 32),
          some ((flagsOf (phys ||| att.setWidth 32)).setWidth 16))
      else none) =
      if att.getLsbD 0 then some (frameOf phys, some att) else none) ↔
      Packs phys att := by
  unfold Packs
  rw [isPresent_or, flagsOf_or, frameOf_or]
  cases present : att.getLsbD 0 with
  | false =>
    cases phys.getLsbD 0 <;> simp
  | true =>
    simp only [Bool.or_true, ↓reduceIte, Option.some.injEq, Prod.mk.injEq,
      setWidth_setWidth_eq_iff]
    constructor
    · exact fun holds => holds.2
    · rintro ⟨noneAbove, isFlags⟩
      refine ⟨?_, noneAbove, isFlags⟩
      rw [noneAbove]
      simp

theorem pgtab_ne_of_page_ne {virt other : BitVec 32}
    (differs : other >>> 12 ≠ virt >>> 12)
    (sameEntry : PGDIR_ENTRY other = PGDIR_ENTRY virt) :
    PGTAB_ENTRY other ≠ PGTAB_ENTRY virt := by
  intro samePage
  refine differs ?_
  have dirBits := congrArg BitVec.toNat sameEntry
  have tabBits := congrArg BitVec.toNat samePage
  unfold PGDIR_ENTRY at dirBits
  unfold PGTAB_ENTRY at tabBits
  simp only [BitVec.toNat_setWidth, BitVec.toNat_ushiftRight,
    Nat.shiftRight_eq_div_pow] at dirBits tabBits
  refine BitVec.eq_of_toNat_eq ?_
  simp only [BitVec.toNat_ushiftRight, Nat.shiftRight_eq_div_pow]
  omega

theorem exists_neighbour (virt : BitVec 32) :
    ∃ other : BitVec 32, other >>> 12 ≠ virt >>> 12 ∧
      PGDIR_ENTRY other = PGDIR_ENTRY virt := by
  refine ⟨virt ^^^ 0x1000, ?_, ?_⟩
  · intro same
    have isBit := congrArg (fun word => word.getLsbD 0) same
    simp at isBit
  · unfold PGDIR_ENTRY
    ext i inside
    have noBit : (0x1000#32).getLsbD (22 + i) = false := by
      revert i
      decide
    simp [noBit]

end Words

namespace PageMemory

variable {memory next : PageMemory} {kernel dir : Frame} {virt : BitVec 32}

theorem translate_of_absent
    (absent : isPresent (memory.words dir (PGDIR_ENTRY virt)) = false) :
    memory.translate dir virt = none := by
  exact if_pos absent

theorem translate_of_large
    (large : isLarge (memory.words dir (PGDIR_ENTRY virt)) = true) :
    ∃ translation,
      memory.translate dir virt = some translation ∧
        translation.pageFlags = none := by
  unfold isLarge at large
  rw [Bool.and_eq_true, bne_iff_ne] at large
  unfold translate
  rw [if_neg (by rw [large.1]; decide), if_pos large.2]
  exact ⟨_, rfl, rfl⟩

theorem translate_of_table
    (table : isTable (memory.words dir (PGDIR_ENTRY virt)) = true) :
    memory.translate dir virt = let entry := memory.words dir (PGDIR_ENTRY virt)
      let page := memory.words (frameOf entry) (PGTAB_ENTRY virt)
      if isPresent page = true then
        some
          { frame := frameOf page
            directoryFlags := flagsOf entry
            pageFlags := some (flagsOf page) }
      else
        none := by
  unfold isTable at table
  rw [Bool.and_eq_true, beq_iff_eq] at table
  unfold translate
  dsimp only
  rw [if_neg (by rw [table.1]; decide), if_neg (fun large => large table.2)]
  cases isPresent (memory.words
    (frameOf (memory.words dir (PGDIR_ENTRY virt))) (PGTAB_ENTRY virt)) <;>
    rfl

theorem translate_congr
    (sameEntry :
      next.words dir (PGDIR_ENTRY virt) = memory.words dir (PGDIR_ENTRY virt))
    (samePage :
      isTable (memory.words dir (PGDIR_ENTRY virt)) = true →
        next.words (frameOf (memory.words dir (PGDIR_ENTRY virt)))
            (PGTAB_ENTRY virt) =
          memory.words (frameOf (memory.words dir (PGDIR_ENTRY virt)))
            (PGTAB_ENTRY virt)) :
    next.translate dir virt = memory.translate dir virt := by
  by_cases table : isTable (memory.words dir (PGDIR_ENTRY virt)) = true
  · rw [translate_of_table table,
      translate_of_table (by rw [sameEntry]; exact table), sameEntry]
    dsimp only
    rw [samePage table]
  · unfold translate
    rw [sameEntry]
    dsimp only
    by_cases present : isPresent (memory.words dir (PGDIR_ENTRY virt)) = true
    · have large : isLarge (memory.words dir (PGDIR_ENTRY virt)) = true := by
        by_cases notLarge : isLarge (memory.words dir (PGDIR_ENTRY virt)) = true
        · exact notLarge
        · exact absurd
            (isTable_of_present present (Bool.eq_false_iff.mpr notLarge))
            table
      unfold isLarge at large
      rw [Bool.and_eq_true, bne_iff_ne] at large
      rw [if_pos large.2, if_pos large.2]
    · rw [if_pos (Bool.eq_false_iff.mpr present),
        if_pos (Bool.eq_false_iff.mpr present)]

theorem mapsTo_iff {phys : BitVec 32} {att : BitVec 16}
    (table : isTable (memory.words dir (PGDIR_ENTRY virt)) = true)
    (isWord :
      memory.words (frameOf (memory.words dir (PGDIR_ENTRY virt)))
          (PGTAB_ENTRY virt) =
        phys ||| att.setWidth 32) :
    memory.MapsTo dir virt phys att ↔ Packs phys att := by
  rw [← packs_iff, MapsTo, pageOf, translate_of_table table]
  dsimp only
  rw [isWord]
  cases isPresent (phys ||| att.setWidth 32) <;> rfl

section

variable (tables : memory.TablesApart kernel dir)

include tables

theorem TablesApart.keepsOthers
    (table : isTable (memory.words dir (PGDIR_ENTRY virt)) = true)
    {word : BitVec 32}
    (words :
      next.words =
        (memory.setWord (frameOf (memory.words dir (PGDIR_ENTRY virt)))
          (PGTAB_ENTRY virt) word).words) :
    memory.KeepsOthers next dir virt := by
  have notDirectory := tables.notDirectory _ table
  intro other differs
  refine translate_congr ?_ fun otherTable => ?_
  · rw [words]
    exact if_neg fun both => notDirectory both.1.symm
  · rw [words]
    refine if_neg ?_
    rintro ⟨sameTable, samePage⟩
    exact pgtab_ne_of_page_ne differs
      (tables.apart _ _ otherTable table sameTable) samePage

theorem TablesApart.entry_setWord
    (table : isTable (memory.words dir (PGDIR_ENTRY virt)) = true)
    (index : EntryIndex) (word : BitVec 32) :
    (memory.setWord (frameOf (memory.words dir (PGDIR_ENTRY virt)))
        index word).words dir (PGDIR_ENTRY virt) =
      memory.words dir (PGDIR_ENTRY virt) :=
  if_neg fun both => tables.notDirectory _ table both.1.symm

theorem TablesApart.maps
    (table : isTable (memory.words dir (PGDIR_ENTRY virt)) = true)
    {phys : BitVec 32} {att : BitVec 16}
    (words :
      next.words =
        (memory.setWord (frameOf (memory.words dir (PGDIR_ENTRY virt)))
          (PGTAB_ENTRY virt) (phys ||| att.setWidth 32)).words) :
    (next.MapsTo dir virt phys att ∧ memory.KeepsOthers next dir virt) ↔
      Packs phys att := by
  have sameEntry : next.words dir (PGDIR_ENTRY virt) =
        memory.words dir (PGDIR_ENTRY virt) := by
    rw [words]
    exact tables.entry_setWord table _ _
  have isWord : next.words (frameOf (next.words dir (PGDIR_ENTRY virt)))
          (PGTAB_ENTRY virt) =
        phys ||| att.setWidth 32 := by
    rw [sameEntry, words]
    exact if_pos ⟨rfl, rfl⟩
  rw [mapsTo_iff (by rw [sameEntry]; exact table) isWord]
  exact and_iff_left (tables.keepsOthers table words)

theorem TablesApart.unmaps
    (table : isTable (memory.words dir (PGDIR_ENTRY virt)) = true)
    (words :
      next.words =
        (memory.setWord (frameOf (memory.words dir (PGDIR_ENTRY virt)))
          (PGTAB_ENTRY virt) 0).words) :
    next.translate dir virt = none ∧ memory.KeepsOthers next dir virt := by
  refine ⟨?_, tables.keepsOthers table words⟩
  have sameEntry : next.words dir (PGDIR_ENTRY virt) =
        memory.words dir (PGDIR_ENTRY virt) := by
    rw [words]
    exact tables.entry_setWord table _ _
  have isWord : next.words (frameOf (next.words dir (PGDIR_ENTRY virt)))
          (PGTAB_ENTRY virt) = 0 := by
    rw [sameEntry, words]
    exact if_pos ⟨rfl, rfl⟩
  rw [translate_of_table (by rw [sameEntry]; exact table)]
  dsimp only
  rw [isWord]
  rfl

end

theorem isTable_linkTable (index : EntryIndex) (table : Frame) :
    isTable ((memory.linkTable dir index table).words dir index) = true := by
  have isEntry : (memory.linkTable dir index table).words dir index =
        withFlags (withFlags (withFlags table.address PG_FLAG_USER) PG_FLAG_RW)
          PG_FLAG_PRESENT :=
    if_pos ⟨rfl, rfl⟩
  rw [isEntry]
  unfold isTable isPresent
  rw [flagsOf_withFlags, flagsOf_withFlags, flagsOf_withFlags, flagsOf_address]
  decide

variable {table : Frame}

theorem entry_linkTable {index other : EntryIndex} (differs : other ≠ index)
    (notDirectory : table ≠ dir) :
    (memory.linkTable dir index table).words dir other =
      memory.words dir other :=
  (if_neg fun both => differs both.2).trans (if_neg notDirectory.symm)

/-- A fresh page table is one more frame of its own. -/
theorem TablesApart.linkTable (tables : memory.TablesApart kernel dir)
    (fresh : table ∉ kernel :: memory.taken) (index : EntryIndex) :
    (memory.linkTable dir index table).TablesApart kernel dir := by
  have notDirectory : table ≠ dir := by
    rintro rfl
    exact fresh tables.directoryTaken
  have notOther {other : EntryIndex}
      (isOther : isTable (memory.words dir other) = true) :
      frameOf (memory.words dir other) ≠ table := by
    intro same
    exact fresh (same ▸ tables.taken other isOther)
  have isNew := frameOf_linkTable memory dir index table
  constructor
  · intro one other oneTable otherTable same
    by_cases isOne : one = index <;> by_cases isOther : other = index
    · rw [isOne, isOther]
    · rw [entry_linkTable isOther notDirectory] at otherTable same
      rw [isOne, isNew] at same
      exact absurd same.symm (notOther otherTable)
    · rw [entry_linkTable isOne notDirectory] at oneTable same
      rw [isOther, isNew] at same
      exact absurd same (notOther oneTable)
    · rw [entry_linkTable isOne notDirectory] at oneTable same
      rw [entry_linkTable isOther notDirectory] at otherTable same
      exact tables.apart one other oneTable otherTable same
  · intro other otherTable
    by_cases isOther : other = index
    · rw [isOther, isNew]
      exact notDirectory
    · rw [entry_linkTable isOther notDirectory] at otherTable ⊢
      exact tables.notDirectory other otherTable
  · intro other otherTable
    by_cases isOther : other = index
    · rw [isOther, isNew]
      exact List.mem_cons_of_mem kernel List.mem_cons_self
    · rw [entry_linkTable isOther notDirectory] at otherTable ⊢
      rcases List.mem_cons.mp (tables.taken other otherTable) with
        isKernel | wasTaken
      · exact isKernel ▸ List.mem_cons_self
      · exact List.mem_cons_of_mem kernel (List.mem_cons_of_mem table wasTaken)
  · rcases List.mem_cons.mp tables.directoryTaken with isKernel | wasTaken
    · exact isKernel ▸ List.mem_cons_self
    · exact List.mem_cons_of_mem kernel (List.mem_cons_of_mem table wasTaken)

theorem TablesApart.translate_linkTable (tables : memory.TablesApart kernel dir)
    (fresh : table ∉ kernel :: memory.taken) {index : EntryIndex}
    (absent : isPresent (memory.words dir index) = false) (virt : BitVec 32) :
    (memory.linkTable dir index table).translate dir virt =
      memory.translate dir virt := by
  have notDirectory : table ≠ dir := by
    rintro rfl
    exact fresh tables.directoryTaken
  by_cases isNew : PGDIR_ENTRY virt = index
  · rw [← isNew] at absent ⊢
    rw [translate_of_absent absent,
      translate_of_table (isTable_linkTable _ table)]
    dsimp only
    rw [frameOf_linkTable]
    have isCleared : (memory.linkTable dir (PGDIR_ENTRY virt) table).words table
          (PGTAB_ENTRY virt) = 0 :=
      (if_neg fun both => notDirectory both.1).trans (if_pos rfl)
    rw [isCleared]
    rfl
  · refine translate_congr (entry_linkTable isNew notDirectory) fun isOld => ?_
    refine (if_neg fun both => isNew ?_).trans (if_neg fun same => ?_)
    · exact absurd both.1 (tables.notDirectory _ isOld)
    · exact fresh (same ▸ tables.taken _ isOld)

theorem isLarge_of_pageFlags_none {translation : Translation}
    (isTranslated : memory.translate dir virt = some translation)
    (noTable : translation.pageFlags = none) :
    isLarge (memory.words dir (PGDIR_ENTRY virt)) = true := by
  by_cases present : isPresent (memory.words dir (PGDIR_ENTRY virt)) = true
  · refine Classical.byContradiction fun notLarge => ?_
    have table := isTable_of_present present (Bool.eq_false_iff.mpr notLarge)
    rw [translate_of_table table] at isTranslated
    dsimp only at isTranslated
    split at isTranslated
    · cases isTranslated
      cases noTable
    · cases isTranslated
  · rw [translate_of_absent (Bool.eq_false_iff.mpr present)] at isTranslated
    cases isTranslated

theorem KeepsOthers.large (keeps : memory.KeepsOthers next dir virt)
    (large : isLarge (memory.words dir (PGDIR_ENTRY virt)) = true) :
    ∃ translation,
      next.translate dir virt = some translation ∧
        translation.pageFlags = none := by
  obtain ⟨other, differs, sameEntry⟩ := exists_neighbour virt
  rw [← sameEntry] at large
  obtain ⟨translation, isTranslated, noTable⟩ := translate_of_large large
  rw [← keeps other differs] at isTranslated
  have stillLarge := isLarge_of_pageFlags_none isTranslated noTable
  rw [sameEntry] at stillLarge
  exact translate_of_large stillLarge

theorem KeepsOthers.not_mapsTo (keeps : memory.KeepsOthers next dir virt)
    (large : isLarge (memory.words dir (PGDIR_ENTRY virt)) = true)
    (phys : BitVec 32) (att : BitVec 16) : ¬ next.MapsTo dir virt phys att := by
  obtain ⟨translation, isTranslated, noTable⟩ := keeps.large large
  unfold MapsTo pageOf
  rw [isTranslated, Option.map_some, noTable]
  split <;> simp

end PageMemory

section Calls

variable {kernel : Frame} {memory next : PageMemory} {call : PagingCall}

/--
Under a directory whose page tables are frames of their own,
`paging_map_page` and `paging_unmap_page` act on a map from pages to frames
exactly if the page does not lie in one of 4 MB and what is put in fits beside
its flags.
-/
theorem pagingCall_actsOnMap_iff
    (tables : memory.TablesApart kernel (call.dataptr.getD kernel))
    (low : ∀ frame, call.reached kernel memory = some frame → frame.IsLow)
    (step : PagingStep kernel memory call next) :
    call.ActsOnMap kernel memory next ↔ call.SuitsTables kernel memory := by
  have words := step.words low
  cases call with
  | createAspace allocated =>
    exact Iff.rfl
  | unmapPage virt dataptr =>
    simp only [PagingCall.run, PageMemory.pagingUnmapPage,
      PagingCall.dataptr] at words tables
    by_cases present :
        isPresent (memory.words (dataptr.getD kernel) (PGDIR_ENTRY virt)) = true
    · rw [if_pos present] at words
      constructor
      · rintro ⟨isNone, keeps⟩
        refine Bool.eq_false_iff.mpr fun large => ?_
        obtain ⟨translation, isTranslated, -⟩ := keeps.large large
        rw [isNone] at isTranslated
        cases isTranslated
      · exact fun notLarge =>
          tables.unmaps (isTable_of_present present notLarge) words
    · have absent := Bool.eq_false_iff.mpr present
      rw [if_neg present] at words
      have notLarge : isLarge
            (memory.words (dataptr.getD kernel) (PGDIR_ENTRY virt)) =
              false := by
        rw [isLarge, absent]
        rfl
      have same (other : BitVec 32) :
          next.translate (dataptr.getD kernel) other =
            memory.translate (dataptr.getD kernel) other :=
        PageMemory.translate_congr (by rw [words]) fun _ => by rw [words]
      refine iff_of_true ⟨?_, fun other _ => same other⟩ notLarge
      rw [same]
      exact PageMemory.translate_of_absent absent
  | mapPage virt phys att dataptr allocated =>
    simp only [PagingCall.run, PageMemory.pagingMapPage,
      PagingCall.dataptr] at words tables
    simp only [PagingCall.ActsOnMap, PagingCall.SuitsTables,
      PageMemory.pagingMapPage]
    by_cases present :
        isPresent (memory.words (dataptr.getD kernel) (PGDIR_ENTRY virt)) = true
    · rw [if_pos present] at words ⊢
      simp only [present, true_or, forall_const, ↓reduceIte]
      by_cases large :
          isLarge (memory.words (dataptr.getD kernel) (PGDIR_ENTRY virt)) = true
      · refine iff_of_false ?_ ?_
        · exact fun both => both.2.not_mapsTo large phys att both.1
        · exact fun both => Bool.eq_false_iff.mp both.1 large
      · have notLarge := Bool.eq_false_iff.mpr large
        rw [tables.maps (isTable_of_present present notLarge) words]
        exact (and_iff_right notLarge).symm
    · have absent := Bool.eq_false_iff.mpr present
      rw [if_neg present] at words ⊢
      cases allocated with
      | none =>
        have same (other : BitVec 32) :
            next.translate (dataptr.getD kernel) other =
              memory.translate (dataptr.getD kernel) other :=
          PageMemory.translate_congr (by rw [words]) fun _ => by rw [words]
        simpa [absent] using same
      | some table =>
        have fresh := step.fresh table rfl
        have linked :=
          (tables.linkTable fresh (PGDIR_ENTRY virt)).maps
            (PageMemory.isTable_linkTable _ table) words
        have keeps :
            (memory.linkTable (dataptr.getD kernel) (PGDIR_ENTRY virt)
                table).KeepsOthers next (dataptr.getD kernel) virt ↔
              memory.KeepsOthers next (dataptr.getD kernel) virt := by
          unfold PageMemory.KeepsOthers
          simp only [tables.translate_linkTable fresh absent]
        have notLarge : isLarge
              (memory.words (dataptr.getD kernel) (PGDIR_ENTRY virt)) =
                false := by
          rw [isLarge, absent]
          rfl
        rw [keeps] at linked
        simpa [absent, notLarge] using linked

end Calls

theorem boot_tablesApart :
    (PageMemory.boot bootWords).TablesApart 0x110 0x110 := by
  have noTable (index : EntryIndex) :
      isTable ((PageMemory.boot bootWords).words 0x110 index) = false := by
    show isTable (bootWords 0x110 index) = false
    unfold bootWords
    split
    · unfold isTable
      have isSize : flagsOf
          (withFlags ((index - 768).setWidth 32 <<< 22)
            (PG_FLAG_PRESENT ||| PG_FLAG_RW ||| PG_FLAG_SIZE)) &&&
              PG_FLAG_SIZE ≠ 0 := by
        intro isZero
        have isBit := congrArg (fun flags => flags.getLsbD 7) isZero
        rw [flagsOf_withFlags] at isBit
        simp [PG_FLAG_PRESENT, PG_FLAG_RW, PG_FLAG_SIZE] at isBit
      rw [Bool.and_eq_false_iff, beq_eq_false_iff_ne]
      exact .inr isSize
    · rfl
  constructor
  · intro index _ isTable
    rw [noTable] at isTable
    cases isTable
  · intro index isTable
    rw [noTable] at isTable
    cases isTable
  · intro index isTable
    rw [noTable] at isTable
    cases isTable
  · exact List.mem_cons_self

/-- The first page of the user memory. -/
def mapUserPage : PagingCall :=
  .mapPage 0x00400000 0x02000000 0x007 none (some 0x1000)

/-- It is put in, with a new page table. -/
theorem mapUserPage_actsOnMap :
    mapUserPage.ActsOnMap 0x110 (PageMemory.boot bootWords)
      (mapUserPage.run 0x110 (PageMemory.boot bootWords)) := by
  refine (pagingCall_actsOnMap_iff boot_tablesApart ?_
    ⟨?_, ?_, rfl, rfl, fun _ => rfl⟩).mpr ?_
  · intro frame isReached
    have isFrame : some 0x1000 = some frame := by
      rw [← isReached]
      decide +kernel
    cases isFrame
    unfold Frame.IsLow LOWMEM_SIZE
    decide
  · intro dir isDir
    cases isDir
  · intro frame isAllocated
    cases isAllocated
    decide
  · unfold mapUserPage PagingCall.SuitsTables Packs
    decide +kernel

/-- The address of a page of 4 MB stays translated when it is unmapped. -/
theorem unmapLowPage_not_actsOnMap :
    ¬ ∀ kernel memory next call,
      PageMemory.TablesApart memory kernel (call.dataptr.getD kernel) →
      (∀ frame, call.reached kernel memory = some frame → frame.IsLow) →
      PagingStep kernel memory call next →
      call.ActsOnMap kernel memory next := by
  intro acts
  have isTable :
      unmapLowPage.reached 0x110 (PageMemory.boot bootWords) = some 0x1400 := by
    decide +kernel
  have unmapped :=
    acts 0x110 (PageMemory.boot bootWords)
      (unmapLowPage.run 0x110 (PageMemory.boot bootWords)) unmapLowPage
      boot_tablesApart
      (by
        intro frame isReached
        cases isTable.symm.trans isReached
        unfold Frame.IsLow LOWMEM_SIZE
        decide)
      ⟨nofun, nofun, rfl, rfl, fun _ => rfl⟩
  have stillThere :
      ((unmapLowPage.run 0x110 (PageMemory.boot bootWords)).translate 0x110
        0xC1780000).isSome := by
    decide +kernel
  have isNone :
      (unmapLowPage.run 0x110 (PageMemory.boot bootWords)).translate 0x110
        0xC1780000 = none :=
    unmapped.1
  rw [isNone] at stillThere
  cases stillThere

end Idylla.Mm
