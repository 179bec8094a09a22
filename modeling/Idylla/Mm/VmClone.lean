import Idylla.Mm.VmSound

namespace Idylla.Mm

open Idylla.Lib

/-!
# What a clone does

`vm_clone` gives the destination a block in the place of the source's one.
Either both mappings share the region, or the region is split: each of them
gets a region of its own with the same pages, which the source then maps
read-only.
-/

variable {w : Nat} {Vnode : Type}

/-- The clone of a block of the source into the destination. -/
structure Cloning
    (state : VmState w Vnode) (src dest : Nat)
    (front : List (SmaBlock w VmMapping)) (block : SmaBlock w VmMapping)
    (behind : List (SmaBlock w VmMapping)) : Prop where
  sound : VmSound state
  different : dest ≠ src
  source : (state.spaces src).area.usedList = front ++ block :: behind
  placed : ∀ other ∈ (state.spaces dest).area.usedList,
      ∃ done ∈ front, other.start = done.start ∧ other.size = done.size

/-- The state after a clone that shares the region. -/
def shareMapping (state : VmState w Vnode) (dest : Nat) (mapping : VmMapping)
    (newBlock : SmaBlock w VmMapping)
    (area : SmaArea w VmMapping) : VmState w Vnode :=
  (state.holdRegion mapping.region).setArea dest
    (setDataptr (state.spaces dest).area newBlock mapping area)

/-- The block of the source after a clone that splits the region. -/
def keptBlock (state : VmState w Vnode) (block : SmaBlock w VmMapping)
    (mapping : VmMapping) : SmaBlock w VmMapping :=
  { block with
    dataptr := some { mapping with region := state.regions.next } }

/-- The mapping of the destination after a clone that splits the region. -/
def childMapping (state : VmState w Vnode) (mapping : VmMapping) : VmMapping :=
  { mapping with region := state.regions.next + 1 }

/-- The state after a clone that splits the region. -/
def splitMapping (state : VmState w Vnode) (src dest : Nat)
    (front : List (SmaBlock w VmMapping)) (block : SmaBlock w VmMapping)
    (behind : List (SmaBlock w VmMapping)) (mapping : VmMapping)
    (region : VmRegion w Vnode) (newBlock : SmaBlock w VmMapping)
    (area : SmaArea w VmMapping) : VmState w Vnode :=
  let split := splitRegion state src block mapping.region region
  (split.setArea src
    { (split.spaces src).area with
      usedList := front ++ keptBlock state block mapping :: behind }).setArea
    dest
    (setDataptr (state.spaces dest).area newBlock
      (childMapping state mapping) area)

variable {state next : VmState w Vnode}

/-- The two ways in which `vm_clone` succeeds. -/
theorem vmClone_ok {src dest : Nat} {front behind : List (SmaBlock w VmMapping)}
    {block kept : SmaBlock w VmMapping}
    (returns :
      vmClone state src dest front block behind = some (next, .ok kept)) :
    ∃ mapping region newBlock area,
      block.dataptr = some mapping ∧
        state.regions.cells mapping.region = some region ∧
        smaAlloc (state.spaces dest).area block.start block.size
          smaAllocFixed = some (newBlock, area) ∧
        ((sharesRegion mapping region = true ∧ kept = block ∧
            next = shareMapping state dest mapping newBlock area) ∨
          (sharesRegion mapping region = false ∧
            kept = keptBlock state block mapping ∧
            next =
              splitMapping state src dest front block behind mapping
                region newBlock area)) := by
  unfold vmClone at returns
  cases isMapping : block.dataptr with
  | none =>
    simp [isMapping] at returns
  | some mapping =>
    simp only [isMapping] at returns
    cases allocated : smaAlloc (state.spaces dest).area block.start block.size
          smaAllocFixed with
    | none =>
      simp [allocated] at returns
    | some placed =>
      obtain ⟨newBlock, area⟩ := placed
      simp only [allocated] at returns
      cases live : state.regions.cells mapping.region with
      | none =>
        simp [live] at returns
      | some region =>
        simp only [live] at returns
        refine ⟨mapping, region, newBlock, area, rfl, live, rfl, ?_⟩
        cases shares : sharesRegion mapping region with
        | true =>
          simp only [shares, ↓reduceIte, Option.some.injEq,
            Prod.mk.injEq, Except.ok.injEq] at returns
          exact .inl ⟨rfl, returns.2.symm, returns.1.symm⟩
        | false =>
          simp only [shares, Bool.false_eq_true, ↓reduceIte,
            Option.some.injEq, Prod.mk.injEq, Except.ok.injEq]
            at returns
          exact .inr ⟨rfl, returns.2.symm, returns.1.symm⟩

namespace Cloning

variable {state : VmState w Vnode} {src dest : Nat}
  {front behind : List (SmaBlock w VmMapping)}
  {block newBlock : SmaBlock w VmMapping} {mapping newmap : VmMapping}
  {region : VmRegion w Vnode} {area : SmaArea w VmMapping}

theorem uses (cloning : Cloning state src dest front block behind)
    (isMapping : block.dataptr = some mapping) :
    state.Uses src block mapping := by
  refine ⟨?_, isMapping⟩
  rw [cloning.source]
  simp

theorem destLayout (cloning : Cloning state src dest front block behind)
    (fixed :
      FixedAlloc (state.spaces dest).area area block.start block.size
        newBlock) :
    Layout (setDataptr (state.spaces dest).area newBlock newmap area).usedList
      := by
  have sourceLayout := cloning.sound.layout src
  rw [cloning.source] at sourceLayout
  have shaped := sourceLayout.shaped block (by simp)
  refine (cloning.sound.layout dest).smaListAdd
    (shaped.congr fixed.start fixed.size fixed.used) ?_
  intro other member
  obtain ⟨done, inFront, sameStart, sameSize⟩ := cloning.placed other member
  have apart := sourceLayout.apart_others (List.mem_append_left behind inFront)
  exact ((apart.congr fixed.start fixed.size).symm.congr sameStart
    sameSize).symm

theorem dest_free_unused (cloning : Cloning state src dest front block behind)
    (fixed :
      FixedAlloc (state.spaces dest).area area block.start block.size
        newBlock) :
    ∀ piece ∈
        (setDataptr (state.spaces dest).area newBlock newmap area).freeList,
      piece.flags &&& smaFlagsUsed ≠ smaFlagsUsed := by
  intro piece member
  rcases fixed.free piece member with isZero | ⟨old, inFree, same⟩
  · rw [isZero]
    decide
  · rw [same]
    exact cloning.sound.free_unused dest old inFree

theorem mem_dest {other : SmaBlock w VmMapping} :
    other ∈
        (setDataptr (state.spaces dest).area newBlock newmap area).usedList ↔
      other = { newBlock with dataptr := some newmap } ∨
        other ∈ (state.spaces dest).area.usedList := by
  rw [setDataptr, (smaListAdd_perm _ _).mem_iff, List.mem_cons]

variable {space : Nat} {other : SmaBlock w VmMapping}

variable {otherMapping : VmMapping}

theorem uses_shareMapping :
    (shareMapping state dest mapping newBlock area).Uses space other
        otherMapping ↔
      (space = dest ∧ other = { newBlock with dataptr := some mapping } ∧
          otherMapping = mapping) ∨
        state.Uses space other otherMapping := by
  have area_eq :
      ((shareMapping state dest mapping newBlock area).spaces space).area =
        if space = dest then
          setDataptr (state.spaces dest).area newBlock mapping area
        else (state.spaces space).area :=
    VmState.setArea_area ..
  rw [VmState.Uses, VmState.Uses, area_eq]
  by_cases isDest : space = dest
  · subst isDest
    rw [if_pos rfl, mem_dest]
    constructor
    · rintro ⟨rfl | old, isMapping⟩
      · exact .inl ⟨rfl, rfl, (Option.some.inj isMapping).symm⟩
      · exact .inr ⟨old, isMapping⟩
    · rintro (⟨-, rfl, rfl⟩ | ⟨old, isMapping⟩)
      · exact ⟨.inl rfl, rfl⟩
      · exact ⟨.inr old, isMapping⟩
  · simp [isDest]

theorem cells_shareMapping {pointer : Nat} {cell : VmRegion w Vnode}
    (isCell :
      (shareMapping state dest mapping newBlock area).regions.cells
        pointer = some cell) :
    ∃ old,
      state.regions.cells pointer = some old ∧
        cell.ops = old.ops ∧ cell.pages = old.pages ∧
        cell.size = old.size ∧ cell.vnode = old.vnode ∧
        cell.offset = old.offset ∧
        (pointer ≠ mapping.region → cell.refs = old.refs) := by
  by_cases held : pointer = mapping.region
  · subst held
    have isHeld : (state.regions.cells mapping.region).map
            (fun old => { old with refs := old.refs + 1 }) = some cell := by
      simpa [shareMapping, VmState.holdRegion] using isCell
    obtain ⟨old, isOld, rfl⟩ := Option.map_eq_some_iff.mp isHeld
    exact ⟨old, isOld, rfl, rfl, rfl, rfl, rfl,
      fun different => absurd rfl different⟩
  · have isOld : state.regions.cells pointer = some cell := by
      simpa [shareMapping, VmState.holdRegion,
        Heap.cells_modify_of_ne held] using isCell
    exact ⟨cell, isOld, rfl, rfl, rfl, rfl, rfl, fun _ => rfl⟩

theorem live_shareMapping {pointer : Nat} {old : VmRegion w Vnode}
    (isOld : state.regions.cells pointer = some old) :
    ∃ cell,
      (shareMapping state dest mapping newBlock area).regions.cells
          pointer = some cell ∧
        cell.ops = old.ops ∧ cell.pages = old.pages ∧
        cell.size = old.size ∧ cell.vnode = old.vnode ∧
        cell.offset = old.offset := by
  by_cases held : pointer = mapping.region
  · simp [shareMapping, VmState.holdRegion, ← held, isOld]
  · refine ⟨old, ?_, rfl, rfl, rfl, rfl, rfl⟩
    simpa [shareMapping, VmState.holdRegion,
      Heap.cells_modify_of_ne held] using isOld

theorem sharesRegion_congr {first second : VmRegion w Vnode}
    (mapping : VmMapping) (sameVnode : first.vnode = second.vnode) :
    sharesRegion mapping first = sharesRegion mapping second := by
  unfold sharesRegion
  rw [sameVnode]

theorem slot_shareMapping :
    (shareMapping state dest mapping newBlock area).slot = state.slot := by
  funext pointer index
  by_cases held : pointer = mapping.region
  · subst held
    cases isCell : state.regions.cells mapping.region <;>
      simp [VmState.slot, shareMapping, VmState.holdRegion, isCell]
  · simp [VmState.slot, shareMapping, VmState.holdRegion,
      Heap.cells_modify_of_ne held]

theorem sound_shareMapping (cloning : Cloning state src dest front block behind)
    (isMapping : block.dataptr = some mapping)
    (live : state.regions.cells mapping.region = some region)
    (fixed :
      FixedAlloc (state.spaces dest).area area block.start block.size newBlock)
    (shares : sharesRegion mapping region = true) :
    VmSound (shareMapping state dest mapping newBlock area) := by
  have sound := cloning.sound
  have uses := cloning.uses isMapping
  have area_eq : ∀ space,
        ((shareMapping state dest mapping newBlock area).spaces space).area =
          if space = dest then
            setDataptr (state.spaces dest).area newBlock mapping area
          else (state.spaces space).area :=
    fun _ => VmState.setArea_area ..
  -- no mapping that uses the region would split it
  have notSplit : ∀ space other otherMapping cell,
        state.Uses space other otherMapping →
        otherMapping.region = mapping.region →
        state.regions.cells otherMapping.region = some cell →
        sharesRegion otherMapping cell = true := by
    intro space other otherMapping cell otherUses same isCell
    cases splitting : sharesRegion otherMapping cell with
    | true =>
      rfl
    | false =>
      obtain ⟨-, rfl⟩ := sound.alone _ _ _ _ _ _ cell otherUses uses
        same isCell splitting
      rw [same, live, Option.some.injEq] at isCell
      have sameMapping := otherUses.2.symm.trans isMapping
      rw [Option.some.injEq] at sameMapping
      rw [← isCell, sameMapping, shares] at splitting
      exact splitting.symm
  -- every mapping after the clone was there before it, in the same place
  have origin : ∀ {space other otherMapping},
        (shareMapping state dest mapping newBlock area).Uses space other
          otherMapping →
        ∃ oldSpace old,
          state.Uses oldSpace old otherMapping ∧
            old.start = other.start ∧ old.size = other.size := by
    intro space other otherMapping used
    rcases uses_shareMapping.mp used with ⟨-, rfl, rfl⟩ | old
    · exact ⟨src, block, uses, fixed.start.symm, fixed.size.symm⟩
    · exact ⟨space, other, old, rfl, rfl⟩
  have splitsOld : ∀ {space other otherMapping cell},
        (shareMapping state dest mapping newBlock area).Uses space other
          otherMapping →
        (shareMapping state dest mapping newBlock area).regions.cells
          otherMapping.region = some cell →
        sharesRegion otherMapping cell = false →
        otherMapping.region ≠ mapping.region ∧
          state.Uses space other otherMapping := by
    intro space other otherMapping cell used isCell splitting
    obtain ⟨oldCell, isOld, -, -, -, sameVnode, -⟩ := cells_shareMapping isCell
    obtain ⟨oldSpace, old, oldUses, -⟩ := origin used
    have elsewhere : otherMapping.region ≠ mapping.region := by
      intro same
      have isShared := notSplit _ _ _ oldCell oldUses same isOld
      rw [sharesRegion_congr otherMapping sameVnode, isShared] at splitting
      simp at splitting
    refine ⟨elsewhere, ?_⟩
    rcases uses_shareMapping.mp used with ⟨-, -, rfl⟩ | same
    · exact absurd rfl elsewhere
    · exact same
  refine ⟨?_, ?_, ?_, ?_, ?_, ?_, ?_, ?_, ?_⟩
  · intro space
    rw [area_eq]
    split
    · exact cloning.destLayout fixed
    · exact sound.layout space
  · intro space
    rw [area_eq]
    split
    · exact cloning.dest_free_unused fixed
    · exact sound.free_unused space
  · intro space
    rw [area_eq]
    split
    · intro other member
      rcases mem_dest.mp member with rfl | old
      · exact ⟨mapping, rfl⟩
      · exact sound.mapped dest other old
    · exact sound.mapped space
  · intro space other otherMapping used
    obtain ⟨oldSpace, old, oldUses, -, sameSize⟩ := origin used
    obtain ⟨oldCell, isOld, oldSize, hasVnode⟩ := sound.live _ _ _ oldUses
    obtain ⟨cell, isCell, sameOps, -, cellSize, sameVnode, -⟩ :=
      live_shareMapping isOld
    refine ⟨cell, isCell, ?_, ?_⟩
    · rw [cellSize, oldSize, sameSize]
    · rw [sameOps, sameVnode]
      exact hasVnode
  · intro pointer cell isCell index outside
    obtain ⟨old, isOld, -, samePages, sameSize, -⟩ := cells_shareMapping isCell
    rw [samePages]
    rw [sameSize] at outside
    exact sound.within pointer old isOld index outside
  · intro space other otherMapping space' other' otherMapping' used used' same
    obtain ⟨_, old, oldUses, sameStart, -⟩ := origin used
    obtain ⟨_, old', oldUses', sameStart', -⟩ := origin used'
    rw [← sameStart, ← sameStart']
    exact sound.same_start _ _ _ _ _ _ oldUses oldUses' same
  · intro space other otherMapping space' other' otherMapping' cell used
      used' same isCell splitting
    obtain ⟨elsewhere, old⟩ := splitsOld used isCell splitting
    obtain ⟨oldCell, isOld, -, -, -, sameVnode, -⟩ := cells_shareMapping isCell
    have old' : state.Uses space' other' otherMapping' := by
      rcases uses_shareMapping.mp used' with ⟨-, -, rfl⟩ | isOld'
      · exact absurd same elsewhere
      · exact isOld'
    exact sound.alone _ _ _ _ _ _ oldCell old old' same isOld
      (by rw [← sharesRegion_congr otherMapping sameVnode]; exact splitting)
  · intro space other otherMapping cell used isCell splitting
    obtain ⟨elsewhere, old⟩ := splitsOld used isCell splitting
    obtain ⟨oldCell, isOld, -, -, -, sameVnode, -, sameRefs⟩ :=
      cells_shareMapping isCell
    rw [sameRefs elsewhere]
    exact sound.single _ _ _ oldCell old isOld
      (by rw [← sharesRegion_congr otherMapping sameVnode]; exact splitting)
  · exact sound.counted.congr rfl slot_shareMapping

theorem splitRegion_of_cloning
    (cloning : Cloning state src dest front block behind)
    (isMapping : block.dataptr = some mapping)
    (live : state.regions.cells mapping.region = some region)
    (splits : sharesRegion mapping region = false) :
    SplitRegion state (splitRegion state src block mapping.region region)
      src block mapping.region region :=
  splitRegion_spec cloning.sound.counted live
    (cloning.sound.single _ _ _ region (cloning.uses isMapping) live splits)
    (cloning.sound.within _ region live) src block

theorem pageTable_splitMapping (space : Nat) :
    ((splitMapping state src dest front block behind mapping region
        newBlock area).spaces space).pageTable =
      ((splitRegion state src block mapping.region region).spaces
        space).pageTable := by
  simp [splitMapping]

theorem area_splitMapping (cloning : Cloning state src dest front block behind)
    (split :
      SplitRegion state (splitRegion state src block mapping.region region)
        src block mapping.region region) (space : Nat) :
    ((splitMapping state src dest front block behind mapping region
        newBlock area).spaces space).area =
      if space = dest then
        setDataptr (state.spaces dest).area newBlock
          (childMapping state mapping) area
      else if space = src then
        { (state.spaces src).area with
          usedList := front ++ keptBlock state block mapping :: behind }
      else (state.spaces space).area := by
  have different := cloning.different
  by_cases isDest : space = dest
  · simp [splitMapping, isDest]
  · by_cases isSrc : space = src
    · simp [splitMapping, isSrc, Ne.symm different, split.area]
    · simp [splitMapping, isDest, isSrc, split.area]

theorem uses_splitMapping (cloning : Cloning state src dest front block behind)
    (split :
      SplitRegion state (splitRegion state src block mapping.region region)
        src block mapping.region region)
    (used :
      (splitMapping state src dest front block behind mapping region
        newBlock area).Uses space other otherMapping) :
    (space = dest ∧
        other = { newBlock with dataptr := some (childMapping state mapping) } ∧
        otherMapping = childMapping state mapping) ∨
      (space = src ∧ other = keptBlock state block mapping ∧
        otherMapping = { mapping with region := state.regions.next }) ∨
      (state.Uses space other otherMapping ∧
        ¬ (space = src ∧ other = block)) := by
  obtain ⟨member, isMapping⟩ := used
  rw [area_splitMapping cloning split] at member
  by_cases isDest : space = dest
  · rw [if_pos isDest] at member
    rcases mem_dest.mp member with rfl | old
    · exact .inl ⟨isDest, rfl, (Option.some.inj isMapping).symm⟩
    · refine .inr (.inr ⟨⟨isDest ▸ old, isMapping⟩, ?_⟩)
      rintro ⟨isSrc, -⟩
      exact cloning.different (isDest.symm.trans isSrc)
  · rw [if_neg isDest] at member
    by_cases isSrc : space = src
    · subst isSrc
      rw [if_pos rfl] at member
      have sourceLayout := cloning.sound.layout space
      rw [cloning.source] at sourceLayout
      by_cases isKept : other = keptBlock state block mapping
      · subst isKept
        exact .inr (.inl ⟨rfl, rfl, (Option.some.inj isMapping).symm⟩)
      · have elsewhere : other ∈ front ++ behind := by
          simp only [List.mem_append, List.mem_cons] at member ⊢
          rcases member with inFront | same | isBehind
          · exact .inl inFront
          · exact absurd same isKept
          · exact .inr isBehind
        refine .inr (.inr ⟨⟨?_, isMapping⟩, ?_⟩)
        · rw [cloning.source]
          simp only [List.mem_append, List.mem_cons] at elsewhere ⊢
          exact elsewhere.imp_right .inr
        · rintro ⟨-, rfl⟩
          exact sourceLayout.not_mem_others elsewhere
    · rw [if_neg isSrc] at member
      exact .inr (.inr ⟨⟨member, isMapping⟩, fun both => isSrc both.1⟩)

theorem uses_splitMapping_of_old
    (cloning : Cloning state src dest front block behind)
    (split :
      SplitRegion state (splitRegion state src block mapping.region region)
        src block mapping.region region)
    (used : state.Uses space other otherMapping)
    (elsewhere : ¬ (space = src ∧ other = block)) :
    (splitMapping state src dest front block behind mapping region newBlock
      area).Uses space other otherMapping := by
  obtain ⟨member, isMapping⟩ := used
  refine ⟨?_, isMapping⟩
  rw [area_splitMapping cloning split]
  by_cases isDest : space = dest
  · subst isDest
    rw [if_pos rfl, mem_dest]
    exact .inr member
  · rw [if_neg isDest]
    by_cases isSrc : space = src
    · subst isSrc
      have different : other ≠ block := fun same => elsewhere ⟨rfl, same⟩
      rw [cloning.source] at member
      rw [if_pos rfl]
      simp only [List.mem_append, List.mem_cons] at member ⊢
      rcases member with inFront | same | isBehind
      · exact .inl inFront
      · exact absurd same different
      · exact .inr (.inr isBehind)
    · rw [if_neg isSrc]
      exact member

theorem uses_keptBlock (cloning : Cloning state src dest front block behind)
    (split :
      SplitRegion state (splitRegion state src block mapping.region region)
        src block mapping.region region) :
    (splitMapping state src dest front block behind mapping region newBlock
      area).Uses src (keptBlock state block mapping)
      { mapping with region := state.regions.next } := by
  refine ⟨?_, rfl⟩
  rw [area_splitMapping cloning split, if_neg (Ne.symm cloning.different),
    if_pos rfl]
  simp

theorem region_of_uses_splitMapping
    (cloning : Cloning state src dest front block behind)
    (isMapping : block.dataptr = some mapping)
    (live : state.regions.cells mapping.region = some region)
    (splits : sharesRegion mapping region = false)
    {space : Nat} {other : SmaBlock w VmMapping} {otherMapping : VmMapping}
    (used :
      (splitMapping state src dest front block behind mapping region
        newBlock area).Uses space other otherMapping) :
    (otherMapping = childMapping state mapping ∧ space = dest ∧
        other =
          { newBlock with dataptr := some (childMapping state mapping) }) ∨
      (otherMapping = { mapping with region := state.regions.next } ∧
        space = src ∧ other = keptBlock state block mapping) ∨
      (otherMapping.region < state.regions.next ∧
        otherMapping.region ≠ mapping.region ∧
        state.Uses space other otherMapping) := by
  have sound := cloning.sound
  have split := splitRegion_of_cloning cloning isMapping live splits
  rcases uses_splitMapping cloning split used with
    ⟨isDest, isBlock, isChild⟩ | ⟨isSrc, isBlock, isParent⟩ |
    ⟨old, elsewhere⟩
  · exact .inl ⟨isChild, isDest, isBlock⟩
  · exact .inr (.inl ⟨isParent, isSrc, isBlock⟩)
  · obtain ⟨cell, isCell, -⟩ := sound.live _ _ _ old
    refine .inr (.inr ⟨Heap.lt_next isCell, ?_, old⟩)
    intro same
    obtain ⟨isSrc, isBlock⟩ := sound.alone _ _ _ _ _ _ region
      (cloning.uses isMapping) old same.symm live splits
    exact elsewhere ⟨isSrc.symm, isBlock.symm⟩

theorem sound_splitMapping (cloning : Cloning state src dest front block behind)
    (isMapping : block.dataptr = some mapping)
    (live : state.regions.cells mapping.region = some region)
    (fixed :
      FixedAlloc (state.spaces dest).area area block.start block.size newBlock)
    (splits : sharesRegion mapping region = false) :
    VmSound
      (splitMapping state src dest front block behind mapping region
        newBlock area) := by
  have sound := cloning.sound
  have uses := cloning.uses isMapping
  have split := splitRegion_of_cloning cloning isMapping live splits
  have areas := fun space =>
    @area_splitMapping _ _ state src dest front behind block newBlock
      mapping region area cloning split space
  have kinds := fun {space other otherMapping} =>
    @region_of_uses_splitMapping _ _ state src dest front behind block
      newBlock mapping region area cloning isMapping live splits space
      other otherMapping
  obtain ⟨oldSize, hasVnode⟩ :
      region.size = block.size ∧ (region.ops = .vfs → region.vnode ≠ none) := by
    obtain ⟨cell, isCell, sameSize, hasVnode⟩ := sound.live _ _ _ uses
    rw [live, Option.some.injEq] at isCell
    exact isCell ▸ ⟨sameSize, hasVnode⟩
  have isSingle := sound.single _ _ _ region uses live splits
  have oldCells : ∀ {pointer}, pointer < state.regions.next →
        pointer ≠ mapping.region →
        (splitMapping state src dest front block behind mapping region
          newBlock area).regions.cells pointer =
          state.regions.cells pointer :=
    fun below elsewhere => split.others _ elsewhere (by omega) (by omega)
  have sourceLayout := sound.layout src
  rw [cloning.source] at sourceLayout
  refine ⟨?_, ?_, ?_, ?_, ?_, ?_, ?_, ?_, ?_⟩
  · intro space
    rw [areas]
    split
    · exact cloning.destLayout fixed
    · split
      · exact sourceLayout.replace rfl rfl rfl
      · exact sound.layout space
  · intro space
    rw [areas]
    split
    · exact cloning.dest_free_unused fixed
    · split
      · exact sound.free_unused src
      · exact sound.free_unused space
  · intro space other member
    rw [areas] at member
    split at member
    · rcases mem_dest.mp member with rfl | old
      · exact ⟨_, rfl⟩
      · exact sound.mapped dest other old
    · split at member
      · have inSource := sound.mapped src
        rw [cloning.source] at inSource
        simp only [List.mem_append, List.mem_cons] at member inSource
        rcases member with inFront | rfl | isBehind
        · exact inSource other (.inl inFront)
        · exact ⟨_, rfl⟩
        · exact inSource other (.inr (.inr isBehind))
      · exact sound.mapped space other member
  · intro space other otherMapping used
    rcases kinds used with
      ⟨rfl, -, rfl⟩ | ⟨rfl, -, rfl⟩ | ⟨below, elsewhere, old⟩
    · exact ⟨region, split.childCell, oldSize.trans fixed.size.symm, hasVnode⟩
    · exact ⟨region, split.parentCell, oldSize, hasVnode⟩
    · rw [oldCells below elsewhere]
      exact sound.live _ _ _ old
  · intro pointer cell isCell
    by_cases isChild : pointer = state.regions.next + 1
    · rw [isChild] at isCell
      obtain rfl := Option.some.inj (split.childCell.symm.trans isCell)
      exact sound.within _ _ live
    · by_cases isParent : pointer = state.regions.next
      · rw [isParent] at isCell
        obtain rfl := Option.some.inj (split.parentCell.symm.trans isCell)
        exact sound.within _ _ live
      · have elsewhere : pointer ≠ mapping.region := by
          rintro rfl
          have gone := split.gone.symm.trans isCell
          simp at gone
        exact sound.within _ cell
          ((split.others _ elsewhere isParent isChild).symm.trans isCell)
  · intro space other otherMapping space' other' otherMapping' used used' same
    rcases kinds used with
      ⟨rfl, -, rfl⟩ | ⟨rfl, -, rfl⟩ | ⟨below, elsewhere, old⟩ <;>
    rcases kinds used' with
      ⟨rfl, -, rfl⟩ | ⟨rfl, -, rfl⟩ | ⟨below', elsewhere', old'⟩
    all_goals
      first
      | rfl
      | exact sound.same_start _ _ _ _ _ _ old old' same
      | (simp only [childMapping] at same
         omega)
  · intro space other otherMapping space' other' otherMapping' cell used
      used' same isCell splitting
    rcases kinds used with
      ⟨rfl, rfl, rfl⟩ | ⟨rfl, rfl, rfl⟩ | ⟨below, elsewhere, old⟩ <;>
    rcases kinds used' with
      ⟨rfl, rfl, rfl⟩ | ⟨rfl, rfl, rfl⟩ | ⟨below', elsewhere', old'⟩
    all_goals
      first
      | exact ⟨rfl, rfl⟩
      | (simp only [childMapping] at same
         omega)
      | skip
    rw [oldCells below elsewhere] at isCell
    exact sound.alone _ _ _ _ _ _ cell old old' same isCell splitting
  · intro space other otherMapping cell used isCell splitting
    rcases kinds used with
      ⟨rfl, -, -⟩ | ⟨rfl, -, -⟩ | ⟨below, elsewhere, old⟩
    · obtain rfl := Option.some.inj (split.childCell.symm.trans isCell)
      exact isSingle
    · obtain rfl := Option.some.inj (split.parentCell.symm.trans isCell)
      exact isSingle
    · rw [oldCells below elsewhere] at isCell
      exact sound.single _ _ _ cell old isCell splitting
  · exact split.counted.congr rfl (VmState.slot_congr rfl)

end Cloning

/-- The loop of `vm_space_clone` before it clones the pending blocks. -/
structure CloneLoop
    (state : VmState w Vnode) (src dest : Nat)
    (front pending : List (SmaBlock w VmMapping)) : Prop where
  sound : VmSound state
  different : dest ≠ src
  source : (state.spaces src).area.usedList = front ++ pending
  placed : ∀ other ∈ (state.spaces dest).area.usedList,
      ∃ done ∈ front, other.start = done.start ∧ other.size = done.size

section Loop

variable {state next : VmState w Vnode} {src dest : Nat}
  {front behind pending : List (SmaBlock w VmMapping)}
  {block kept : SmaBlock w VmMapping}

theorem CloneLoop.cloning
    (loop : CloneLoop state src dest front (block :: behind)) :
    Cloning state src dest front block behind where
  sound := loop.sound
  different := loop.different
  source := loop.source
  placed := loop.placed

theorem CloneLoop.advance
    (loop : CloneLoop state src dest front (block :: behind))
    (returns :
      vmClone state src dest front block behind = some (next, .ok kept)) :
    CloneLoop next src dest (front ++ [kept]) behind := by
  have cloning := loop.cloning
  have different := loop.different
  obtain ⟨mapping, region, newBlock, area, isMapping, live, allocated,
    outcome⟩ := vmClone_ok returns
  have fixed := smaAlloc_fixed allocated
  have placed : ∀ {newmap : VmMapping} {last : SmaBlock w VmMapping},
        last.start = block.start → last.size = block.size →
        ∀ other ∈
            (setDataptr (state.spaces dest).area newBlock newmap area).usedList,
          ∃ done ∈ front ++ [last],
            other.start = done.start ∧ other.size = done.size := by
    intro newmap last sameStart sameSize other member
    rcases Cloning.mem_dest.mp member with rfl | old
    · exact ⟨last, by simp, by rw [sameStart]; exact fixed.start,
        by rw [sameSize]; exact fixed.size⟩
    · obtain ⟨done, inFront, same⟩ := loop.placed other old
      exact ⟨done, List.mem_append_left _ inFront, same⟩
  rcases outcome with ⟨shares, rfl, rfl⟩ | ⟨splits, rfl, rfl⟩
  · refine ⟨cloning.sound_shareMapping isMapping live fixed shares,
      different, ?_, ?_⟩
    · have area_eq :
          ((shareMapping state dest mapping newBlock area).spaces
            src).area = (state.spaces src).area := by
        simp [shareMapping, VmState.holdRegion, Ne.symm different]
      rw [area_eq, loop.source]
      simp
    · have area_eq :
          ((shareMapping state dest mapping newBlock area).spaces dest).area =
            setDataptr (state.spaces dest).area newBlock mapping area := by
        simp [shareMapping]
      rw [area_eq]
      exact placed rfl rfl
  · have split := cloning.splitRegion_of_cloning isMapping live splits
    refine ⟨cloning.sound_splitMapping isMapping live fixed splits,
      different, ?_, ?_⟩
    · rw [cloning.area_splitMapping split, if_neg (Ne.symm different),
        if_pos rfl]
      simp
    · rw [cloning.area_splitMapping split, if_pos rfl]
      exact placed rfl rfl

theorem CloneLoop.run {Holds : VmState w Vnode → Prop}
    (keeps :
      ∀ {state next front block behind kept},
        Cloning state src dest front block behind →
        Holds state →
        vmClone state src dest front block behind = some (next, .ok kept) →
        Holds next)
    (loop : CloneLoop state src dest front pending) (holds : Holds state)
    (returns : cloneBlocks src dest front pending state = some (next, .ok ())) :
    VmSound next ∧ Holds next := by
  induction pending generalizing state front with
  | nil =>
    simp only [cloneBlocks, Option.some.injEq, Prod.mk.injEq, and_true]
      at returns
    exact returns ▸ ⟨loop.sound, holds⟩
  | cons block behind ih =>
    rw [cloneBlocks] at returns
    cases cloned : vmClone state src dest front block behind with
    | none =>
      simp [cloned] at returns
    | some outcome =>
      obtain ⟨middle, result⟩ := outcome
      cases result with
      | error err =>
        simp [cloned] at returns
      | ok kept =>
        simp only [cloned] at returns
        exact ih (loop.advance cloned) (keeps loop.cloning holds cloned) returns

end Loop

theorem vmSpaceClone_preserves {memory : UserMemory w} {dest src : Nat}
    {Holds : VmState w Vnode → Prop} (sound : VmSound state)
    (fresh : state.spaces dest = vmSpaceCreate memory) (different : dest ≠ src)
    (keeps :
      ∀ {state next front block behind kept},
        Cloning state src dest front block behind →
        Holds state →
        vmClone state src dest front block behind = some (next, .ok kept) →
        Holds next) (holds : Holds state)
    (returns : vmSpaceClone state dest src = some (next, .ok ())) :
    VmSound next ∧ Holds next := by
  refine CloneLoop.run keeps ⟨sound, different, rfl, ?_⟩ holds returns
  intro other member
  rw [fresh] at member
  simp [vmSpaceCreate, vmSpaceArea, smaAreaCreate] at member

theorem VmStep.sound (wide : 32 ≤ w) {memory : UserMemory w}
    {label : VmLabel w Vnode} (step : VmStep memory state label next)
    (sound : VmSound state) : VmSound next := by
  cases step with
  | clone fresh different returns =>
    have nothing : (fun _ : VmState w Vnode => True) state := trivial
    exact (vmSpaceClone_preserves sound fresh different
      (fun _ _ _ => trivial) nothing returns).1
  | fault unused returns =>
    rcases sound.vmPagefault_served wide returns with
      ⟨rfl, -⟩ | ⟨block, mapping, region, index, -, -, live, bounded,
        -, served, -⟩
    · exact sound
    · exact sound.served live bounded unused served
  | store writes =>
    exact sound.store writes

end Idylla.Mm
