import Idylla.Mm.VmIsolation

namespace Idylla.Mm

open Idylla.Lib

/-!
# A cloned address space has the layout of its source

`vm_space_clone` places every used block of the source at its own address in
the destination.  The blocks come in ascending order, so each of them finds
its whole interval in a free block behind those placed before it.
-/

section FixedPlace

variable {w : Nat} {Data : Type}

theorem smaAlloc_of_freshIn {area : SmaArea w Data} {block : SmaBlock w Data}
    (sound : Sound area) (separated : Separated area)
    (areaStart : area.start ≠ 0)
    (areaEnds : area.start.toNat + area.size.toNat < 2 ^ w)
    (nonempty : block.size ≠ 0) (fresh : FreshIn area block)
    (flags : BitVec 32) :
    ∃ found,
      area.freeList = found.passed ++ found.item :: found.rest ∧
        Room found.item block.start block.size ∧
        smaAlloc area block.start block.size flags =
          some (smaCarve area found block.start block.size) := by
  obtain ⟨inArea, unused⟩ :=
    fresh block.start.toNat (SmaBlock.covers_start nonempty)
  have areaNonempty : area.size ≠ 0 := by
    intro empty
    have sizeZero : area.size.toNat = 0 := by simp [empty]
    simp only [SmaArea.Covers] at inArea
    omega
  have hint : block.start ≠ 0 := by
    intro isZero
    have positive : area.start.toNat ≠ 0 := by
      simpa [BitVec.toNat_eq] using areaStart
    have startZero : block.start.toNat = 0 := by simp [isZero]
    simp only [SmaArea.Covers] at inArea
    omega
  have ends_lt : ∀ piece ∈ area.freeList, piece.ends < 2 ^ w := by
    intro piece member
    have anyMember : piece ∈ area.usedList ++ area.freeList :=
      List.mem_append_right _ member
    have within :=
      sound.within anyMember fun empty =>
        areaNonempty (sound.nonempty piece anyMember empty)
    omega
  obtain ⟨piece, member, covers⟩ := (sound.tiles.exact _).mpr inArea
  have pieceFree : piece ∈ area.freeList := by
    rcases List.mem_append.mp member with inUsed | inFree
    · exact absurd covers (unused piece inUsed)
    · exact inFree
  obtain ⟨found, isFirst⟩ : ∃ found,
        firstFound (fun other => other.hits block.start) area.freeList =
          some found := by
    rw [← Option.isSome_iff_exists, Option.isSome_iff_ne_none]
    intro nothing
    rw [firstFound_eq_none_iff] at nothing
    have pieceEnds := ends_lt piece pieceFree
    have hits : piece.hits block.start = true :=
      (SmaBlock.hits_iff_covers (Nat.le_of_lt pieceEnds)).mpr
        ⟨covers, pieceEnds⟩
    simp [nothing piece pieceFree] at hits
  have itemFree := firstFound_mem isFirst
  have itemHits := (firstFound_some isFirst).2.1
  have itemEnds := ends_lt found.item itemFree
  have itemCovers :=
    ((SmaBlock.hits_iff_covers (Nat.le_of_lt itemEnds)).mp itemHits).1
  -- otherwise the block would meet what stands behind its free block
  have room : block.ends ≤ found.item.ends := by
    apply Nat.le_of_not_lt
    intro short
    refine not_freshIn_of_overrun sound separated areaNonempty itemFree ?_ fresh
    simp only [SmaBlock.Covers] at itemCovers ⊢
    omega
  have noWrap : (block.start + block.size).toNat = block.ends :=
    BitVec.toNat_add_of_lt (by simp only [SmaBlock.ends] at *; omega)
  have hinted : smaHinted area block.start block.size = some found := by
    have tall : ¬ found.item.stop < block.start + block.size := by
      rw [BitVec.lt_def, noWrap, SmaBlock.stop_toNat itemEnds]
      omega
    simp only [smaHinted, if_neg hint, isFirst, if_neg tall]
  refine ⟨found, (firstFound_some isFirst).1, ?_, ?_⟩
  · rw [Room, if_pos ⟨itemHits, hint⟩]
    exact room
  · simp [smaAlloc, smaFind, hinted]

theorem smaListAdd_last
    {block : SmaBlock w Data} {blocks : List (SmaBlock w Data)}
    (isLast : ∀ other ∈ blocks, other.start ≤ block.start) :
    smaListAdd block blocks = blocks ++ [block] := by
  induction blocks with
  | nil =>
    rfl
  | cons iter rest ih =>
    have notBefore : ¬ block.start < iter.start :=
      BitVec.not_lt.mpr (isLast iter List.mem_cons_self)
    rw [smaListAdd, if_neg notBefore,
      ih fun other member => isLast other (List.mem_cons_of_mem _ member)]
    rfl

/-- Every block ends before those behind it start. -/
def Ascending (blocks : List (SmaBlock w Data)) : Prop :=
  blocks.Pairwise fun first second => first.ends ≤ second.start.toNat

theorem Partition.ascending {area : SmaArea w Data} (partition : Partition area)
    (nonempty : ∀ block ∈ area.usedList, block.size ≠ 0) :
    Ascending area.usedList := by
  have apart := (List.pairwise_append.mp partition.tiles.disjoint).1
  refine (apart.and partition.usedSorted).imp_of_mem ?_
  intro first second _ secondMember both
  obtain ⟨notBoth, ordered⟩ := both
  have second_covers := SmaBlock.covers_start (nonempty second secondMember)
  have notHere : ¬ first.Covers second.start.toNat :=
    fun here => notBoth _ ⟨here, second_covers⟩
  simp only [SmaBlock.Covers, BitVec.le_def] at notHere ordered
  omega

end FixedPlace

variable {w : Nat} {Vnode : Type}

/-- The region behind a pointer, without its pages. -/
def VmState.bareRegion (state : VmState w Vnode)
    (pointer : Nat) : Option (VmRegion w Vnode) :=
  (state.regions.cells pointer).map VmRegion.bare

section Split

variable {state : VmState w Vnode}

@[simp] theorem VmState.bareRegion_setSlot
    (region index : Nat) (page : Option Nat) (pointer : Nat) :
    (state.setSlot region index page).bareRegion pointer =
      state.bareRegion pointer := by
  by_cases same : pointer = region
  · subst same
    simp only [bareRegion, setSlot, Heap.cells_modify_same, Option.map_map]
    rfl
  · simp [bareRegion, setSlot, Heap.cells_modify_of_ne same]

theorem VmState.bareRegion_congr {after : VmState w Vnode}
    (sameRegions : after.regions = state.regions) :
    after.bareRegion = state.bareRegion := by
  funext pointer
  rw [bareRegion, bareRegion, sameRegions]

theorem shareSlots_bare (old parent child count : Nat) :
    (shareSlots state old parent child count).bareRegion = state.bareRegion ∧
      (shareSlots state old parent child count).spaces = state.spaces := by
  induction count with
  | zero =>
    exact ⟨rfl, rfl⟩
  | succ count ih =>
    rw [shareSlots, shareSlot]
    split
    · exact ih
    · refine ⟨?_, by simpa using ih.2⟩
      funext pointer
      rw [VmState.bareRegion_setSlot,
        VmState.bareRegion_congr (VmState.holdPage_regions ..),
        VmState.bareRegion_setSlot,
        VmState.bareRegion_congr (VmState.holdPage_regions ..),
        ih.1]

theorem protectSlots_bare (src : Nat) (start : BitVec w) (region count : Nat) :
    (protectSlots state src start region count).regions = state.regions ∧
      ∀ space,
        ((protectSlots state src start region count).spaces space).area =
          (state.spaces space).area := by
  induction count with
  | zero =>
    exact ⟨rfl, fun _ => rfl⟩
  | succ count ih =>
    simp only [protectSlots]
    split
    · exact ih
    · simpa using ih

theorem releaseSlots_bare (region count : Nat) :
    (releaseSlots state region count).bareRegion = state.bareRegion ∧
      (releaseSlots state region count).spaces = state.spaces := by
  induction count with
  | zero =>
    exact ⟨rfl, rfl⟩
  | succ count ih =>
    rw [releaseSlots, releaseSlot]
    split
    · exact ih
    · refine ⟨?_, by simpa using ih.2⟩
      funext pointer
      rw [VmState.bareRegion_setSlot,
        VmState.bareRegion_congr (VmState.releasePage_regions ..),
        ih.1]

theorem VmState.bareRegion_allocRegion {pointer : Nat}
    (below : pointer < state.regions.next) (region : VmRegion w Vnode) :
    (state.allocRegion region).bareRegion pointer =
      state.bareRegion pointer := by
  simp [bareRegion, allocRegion, Heap.cells_alloc_of_lt below]

theorem VmState.bareRegion_dropRegion (region pointer : Nat) :
    (state.dropRegion region).bareRegion pointer =
      if pointer = region then
        (state.bareRegion pointer).map fun cell =>
          { cell with refs := cell.refs - 1 }
      else state.bareRegion pointer := by
  by_cases same : pointer = region
  · subst same
    simp only [bareRegion, dropRegion, Heap.cells_modify_same,
      Option.map_map, ↓reduceIte]
    rfl
  · simp [bareRegion, dropRegion, Heap.cells_modify_of_ne same, same]

theorem vmDestroyRegion_bare (region count pointer : Nat) :
    (vmDestroyRegion state region count).bareRegion pointer =
      if pointer = region then none else state.bareRegion pointer := by
  have released :=
    congrFun (@releaseSlots_bare _ _ state region count).1 pointer
  by_cases same : pointer = region
  · subst same
    simp [VmState.bareRegion, vmDestroyRegion]
  · rw [if_neg same, ← released]
    simp [VmState.bareRegion, vmDestroyRegion, Heap.cells_free_of_ne same]

/-- The region that a split allocates twice. -/
def VmRegion.fresh (region : VmRegion w Vnode) : VmRegion w Vnode :=
  { region with refs := 1, pages := fun _ => none }

variable {old : Nat} {region : VmRegion w Vnode}

variable (live : state.regions.cells old = some region)

include live

theorem splitRegion_dropped (src : Nat) (block : SmaBlock w VmMapping) :
    ∃ dropped : VmState w Vnode,
      splitRegion state src block old region =
          (if region.refs - 1 = 0 then
            vmDestroyRegion dropped old (pageCount region.size)
          else dropped) ∧
        (∀ space, (dropped.spaces space).area = (state.spaces space).area) ∧
        ∀ pointer,
          dropped.bareRegion pointer =
            if pointer = old then
              some { region.bare with refs := region.refs - 1 }
            else
              ((state.allocRegion region.fresh).allocRegion
                region.fresh).bareRegion pointer := by
  refine ⟨_, rfl, fun space => ?_, fun pointer => ?_⟩
  · refine ((protectSlots_bare _ _ _ _).2 space).trans ?_
    rw [(shareSlots_bare _ _ _ _).2]
    rfl
  · rw [VmState.bareRegion_dropRegion,
      VmState.bareRegion_congr (protectSlots_bare _ _ _ _).1,
      (shareSlots_bare _ _ _ _).1]
    by_cases same : pointer = old
    · subst same
      have kept :
          ((state.allocRegion region.fresh).allocRegion
              region.fresh).regions.cells pointer =
            some region :=
        Heap.cells_alloc_of_some (Heap.cells_alloc_of_some live)
      have keptBare :
          ((state.allocRegion region.fresh).allocRegion
              region.fresh).bareRegion pointer =
            some region.bare :=
        congrArg (Option.map VmRegion.bare) kept
      rw [if_pos rfl, if_pos rfl]
      exact congrArg
        (Option.map fun cell : VmRegion w Vnode =>
          { cell with refs := cell.refs - 1 }) keptBare
    · rw [if_neg same, if_neg same]
      rfl

theorem bareRegion_splitRegion (src : Nat) (block : SmaBlock w VmMapping)
    (pointer : Nat) :
    (splitRegion state src block old region).bareRegion pointer =
      if pointer = old then
        if region.refs - 1 = 0 then none
        else some { region.bare with refs := region.refs - 1 }
      else
        ((state.allocRegion region.fresh).allocRegion
          region.fresh).bareRegion pointer := by
  obtain ⟨dropped, isSplit, -, isDropped⟩ := splitRegion_dropped live src block
  rw [isSplit]
  by_cases last : region.refs - 1 = 0
  · rw [if_pos last, if_pos last, vmDestroyRegion_bare, isDropped]
    split <;> rfl
  · rw [if_neg last, if_neg last, isDropped]

theorem area_splitRegion (src : Nat) (block : SmaBlock w VmMapping)
    (space : Nat) :
    ((splitRegion state src block old region).spaces space).area =
      (state.spaces space).area := by
  obtain ⟨dropped, isSplit, sameAreas, -⟩ := splitRegion_dropped live src block
  rw [isSplit, ← sameAreas]
  split
  · have sameSpaces :=
      (@releaseSlots_bare _ _ dropped old (pageCount region.size)).2
    exact congrArg (fun spaces : Nat → VmSpace w => (spaces space).area)
      sameSpaces
  · rfl

end Split

/-- The place of a block, and the flags and the offset of its mapping. -/
def SmaBlock.layout (block : SmaBlock w VmMapping) :
    BitVec w × BitVec w × Option (BitVec 16 × BitVec 32) :=
  (block.start, block.size,
    block.dataptr.map fun mapping => (mapping.flags, mapping.offset))

/-- The number of blocks whose mapping points to a region. -/
def regionUsers (blocks : List (SmaBlock w VmMapping)) (pointer : Nat) : Nat :=
  blocks.countP fun block =>
    block.dataptr.any fun mapping => mapping.region == pointer

/-- Every mapping points to a region that counts it. -/
structure RegionsHeld
    (state : VmState w Vnode)
    (blocks : List (SmaBlock w VmMapping)) : Prop where
  live : ∀ block ∈ blocks, ∃ mapping region,
      block.dataptr = some mapping ∧
        state.regions.cells mapping.region = some region
  counted : ∀ pointer region, state.regions.cells pointer = some region →
      regionUsers blocks pointer ≤ region.refs

/-- What is left of a region after one of its mappings has been cloned. -/
def RegionKept (mapping : VmMapping) (pointer : Nat)
    (region : VmRegion w Vnode) :
    Option (VmRegion w Vnode) → Prop
  | none => pointer = mapping.region ∧ region.refs - 1 = 0
  | some after =>
    region.refs ≤ after.refs ∨
      pointer = mapping.region ∧ region.refs - 1 ≤ after.refs

/-- The blocks behind a cloned one are still counted. -/
theorem RegionsHeld.rest
    {state next : VmState w Vnode} {block : SmaBlock w VmMapping}
    {behind : List (SmaBlock w VmMapping)} {mapping : VmMapping}
    (held : RegionsHeld state (block :: behind))
    (isMapping : block.dataptr = some mapping)
    (kept :
      ∀ pointer region, state.regions.cells pointer = some region →
        RegionKept mapping pointer region (next.bareRegion pointer)) :
    RegionsHeld next behind := by
  have users : ∀ pointer,
        regionUsers (block :: behind) pointer =
          regionUsers behind pointer +
            if mapping.region = pointer then 1 else 0 := by
    simp [regionUsers, List.countP_cons, isMapping]
  constructor
  · intro other member
    obtain ⟨otherMapping, region, otherIsMapping, live⟩ :=
      held.live other (List.mem_cons_of_mem _ member)
    have isKept := kept _ _ live
    cases after : next.bareRegion otherMapping.region with
    | some cell =>
      obtain ⟨nextRegion, isNext, -⟩ := Option.map_eq_some_iff.mp after
      exact ⟨otherMapping, nextRegion, otherIsMapping, isNext⟩
    | none =>
      -- the region has lost its last reference, which this block counts
      rw [after] at isKept
      obtain ⟨same, last⟩ := isKept
      have counted := held.counted _ _ live
      have positive : 0 < regionUsers behind otherMapping.region :=
        List.countP_pos_iff.mpr ⟨other, member, by simp [otherIsMapping]⟩
      rw [users, if_pos same.symm] at counted
      omega
  · intro pointer nextRegion isNext
    by_cases old : ∃ region, state.regions.cells pointer = some region
    · obtain ⟨region, live⟩ := old
      have isKept := kept _ _ live
      have counted := held.counted _ _ live
      have after : next.bareRegion pointer = some nextRegion.bare := by
        simp [VmState.bareRegion, isNext]
      have sameRefs : nextRegion.bare.refs = nextRegion.refs := rfl
      rw [after, RegionKept, sameRefs] at isKept
      rw [users] at counted
      rcases isKept with more | ⟨same, less⟩
      · split at counted <;> omega
      · rw [if_pos same.symm] at counted
        omega
    · -- no block points to a region that is new
      have nobody : regionUsers behind pointer = 0 := by
        refine List.countP_eq_zero.mpr ?_
        intro other member points
        obtain ⟨otherMapping, region, otherIsMapping, live⟩ :=
          held.live other (List.mem_cons_of_mem _ member)
        simp only [otherIsMapping, Option.any_some, beq_iff_eq] at points
        exact old ⟨region, points ▸ live⟩
      omega

/-- What the loop of `vm_space_clone` keeps true of the layouts. -/
structure LayoutLoop
    (memory : UserMemory w) (state : VmState w Vnode) (src dest : Nat)
    (front pending : List (SmaBlock w VmMapping)) : Prop where
  source : (state.spaces src).area.usedList = front ++ pending
  mapped : Mapped memory (state.spaces dest).area
  copied : (state.spaces dest).area.usedList.map SmaBlock.layout =
      front.map SmaBlock.layout
  behind : ∀ other ∈ (state.spaces dest).area.usedList, ∀ block ∈ pending,
      other.ends ≤ block.start.toNat
  ascending : Ascending pending
  inside : ∀ block ∈ pending,
      block.size ≠ 0 ∧ memory.start.toNat ≤ block.start.toNat ∧
        block.ends ≤ memory.start.toNat + memory.size.toNat
  held : RegionsHeld state pending

section Loop

variable {memory : UserMemory w} {state : VmState w Vnode} {src dest : Nat}
  {front behind pending : List (SmaBlock w VmMapping)}
  {block : SmaBlock w VmMapping}

theorem LayoutLoop.freshIn
    (loop : LayoutLoop memory state src dest front (block :: behind)) :
    FreshIn (state.spaces dest).area block := by
  intro address covers
  obtain ⟨-, lower, upper⟩ := loop.inside block List.mem_cons_self
  simp only [SmaBlock.Covers] at covers
  constructor
  · simp only [SmaArea.Covers, loop.mapped.start, loop.mapped.size]
    omega
  · intro other member otherCovers
    have before := loop.behind other member block List.mem_cons_self
    simp only [SmaBlock.Covers] at otherCovers
    omega

theorem LayoutLoop.place
    (loop : LayoutLoop memory state src dest front (block :: behind))
    {next : VmState w Vnode} {kept newBlock : SmaBlock w VmMapping}
    {mapping newmap : VmMapping} {area : SmaArea w VmMapping}
    (isMapping : block.dataptr = some mapping)
    (sameFlags : newmap.flags = mapping.flags)
    (sameOffset : newmap.offset = mapping.offset)
    (fixed :
      FixedAlloc (state.spaces dest).area area block.start block.size newBlock)
    (mapped : Mapped memory area)
    (added :
      area.usedList = smaListAdd newBlock (state.spaces dest).area.usedList)
    (sameLayout : kept.layout = block.layout)
    (source : (next.spaces src).area.usedList = front ++ kept :: behind)
    (target :
      (next.spaces dest).area =
        setDataptr (state.spaces dest).area newBlock newmap area)
    (held : RegionsHeld next behind) :
    LayoutLoop memory next src dest (front ++ [kept]) behind := by
  have isLast : ∀ other ∈ (state.spaces dest).area.usedList,
        other.start ≤ newBlock.start := by
    intro other member
    have before := loop.behind other member block List.mem_cons_self
    rw [BitVec.le_def, fixed.start]
    simp only [SmaBlock.ends] at before
    omega
  have used : (next.spaces dest).area.usedList =
        (state.spaces dest).area.usedList ++
          [{ newBlock with dataptr := some newmap }] := by
    rw [target, setDataptr]
    exact smaListAdd_last isLast
  have placedLayout : SmaBlock.layout { newBlock with dataptr := some newmap } =
        block.layout := by
    simp [SmaBlock.layout, isMapping, fixed.start, fixed.size, sameFlags,
      sameOffset]
  obtain ⟨blockBefore, ascending⟩ := List.pairwise_cons.mp loop.ascending
  refine ⟨?_, ?_, ?_, ?_, ascending, ?_, held⟩
  · rw [source]
    simp
  · rw [target]
    exact mapped.setDataptr loop.mapped.sound.usedSorted added
  · rw [used]
    simp [loop.copied, placedLayout, sameLayout]
  · intro other member later isLater
    rw [used] at member
    rcases List.mem_append.mp member with old | isNew
    · exact loop.behind other old later (List.mem_cons_of_mem _ isLater)
    · obtain rfl := List.mem_singleton.mp isNew
      have ordered := blockBefore later isLater
      simp only [fixed.start, fixed.size]
      exact ordered
  · exact fun later isLater =>
      loop.inside later (List.mem_cons_of_mem _ isLater)

theorem LayoutLoop.allocates (memoryStart : memory.start ≠ 0)
    (memoryEnds : memory.start.toNat + memory.size.toNat < 2 ^ w)
    (loop : LayoutLoop memory state src dest front (block :: behind)) :
    ∃ newBlock area,
      smaAlloc (state.spaces dest).area block.start block.size
          smaAllocFixed = some (newBlock, area) ∧
        Mapped memory area ∧
        area.usedList =
          smaListAdd newBlock (state.spaces dest).area.usedList := by
  have nonempty := (loop.inside block List.mem_cons_self).1
  obtain ⟨found, split, room, allocated⟩ :=
    smaAlloc_of_freshIn loop.mapped.sound loop.mapped.separated
      (by rw [loop.mapped.start]; exact memoryStart)
      (by rw [loop.mapped.start, loop.mapped.size]; exact memoryEnds)
      nonempty loop.freshIn smaAllocFixed
  exact ⟨_, _, allocated, loop.mapped.carve split nonempty room,
    (smaCarve_carved _ found block.start block.size).used⟩

/-- One turn of the loop succeeds. -/
theorem LayoutLoop.advance (memoryStart : memory.start ≠ 0)
    (memoryEnds : memory.start.toNat + memory.size.toNat < 2 ^ w)
    (different : dest ≠ src)
    (loop : LayoutLoop memory state src dest front (block :: behind)) :
    ∃ next kept,
      vmClone state src dest front block behind = some (next, .ok kept) ∧
        kept.layout = block.layout ∧
        LayoutLoop memory next src dest (front ++ [kept]) behind := by
  obtain ⟨mapping, region, isMapping, live⟩ :=
    loop.held.live block List.mem_cons_self
  obtain ⟨newBlock, area, allocated, mapped, added⟩ :=
    loop.allocates memoryStart memoryEnds
  have fixed := smaAlloc_fixed allocated
  cases shares : sharesRegion mapping region with
  | true =>
    refine ⟨shareMapping state dest mapping newBlock area, block,
      by simp [vmClone, isMapping, allocated, live, shares, shareMapping], rfl,
      loop.place isMapping rfl rfl fixed mapped added rfl ?_ ?_ ?_⟩
    · simp [shareMapping, VmState.holdRegion, Ne.symm different, loop.source]
    · simp [shareMapping]
    · refine loop.held.rest isMapping ?_
      intro pointer cell isCell
      by_cases same : pointer = mapping.region
      · subst same
        simp [VmState.bareRegion, shareMapping, VmState.holdRegion,
          isCell, RegionKept, VmRegion.bare]
      · simp [VmState.bareRegion, shareMapping, VmState.holdRegion,
          Heap.cells_modify_of_ne same, isCell, RegionKept,
          VmRegion.bare]
  | false =>
    refine ⟨splitMapping state src dest front block behind mapping region
        newBlock area, keptBlock state block mapping,
      by simp [vmClone, isMapping, allocated, live, shares,
        splitMapping, keptBlock, childMapping],
      by simp [SmaBlock.layout, keptBlock, isMapping],
      loop.place isMapping
        (rfl : (childMapping state mapping).flags = mapping.flags) rfl
        fixed mapped added
        (by simp [SmaBlock.layout, keptBlock, isMapping]) ?_ ?_ ?_⟩
    · simp [splitMapping, Ne.symm different]
    · simp [splitMapping]
    · refine loop.held.rest isMapping ?_
      intro pointer cell isCell
      have bare :
          (splitMapping state src dest front block behind mapping region
              newBlock area).bareRegion pointer =
            (splitRegion state src block mapping.region
              region).bareRegion pointer :=
        rfl
      have below := Heap.lt_next isCell
      have belowAlloc :
          pointer < (state.allocRegion region.fresh).regions.next :=
        Nat.lt_succ_of_lt below
      rw [bare, bareRegion_splitRegion live,
        VmState.bareRegion_allocRegion belowAlloc,
        VmState.bareRegion_allocRegion below]
      by_cases same : pointer = mapping.region
      · subst same
        rw [live, Option.some.injEq] at isCell
        subst isCell
        by_cases last : region.refs - 1 = 0
        · simp [last, RegionKept]
        · simp [last, RegionKept]
      · simp [same, VmState.bareRegion, isCell, RegionKept, VmRegion.bare]

theorem LayoutLoop.run (memoryStart : memory.start ≠ 0)
    (memoryEnds : memory.start.toNat + memory.size.toNat < 2 ^ w)
    (different : dest ≠ src)
    (loop : LayoutLoop memory state src dest front pending) :
    ∃ next,
      cloneBlocks src dest front pending state = some (next, .ok ()) ∧
        (next.spaces dest).area.usedList.map SmaBlock.layout =
          (state.spaces src).area.usedList.map SmaBlock.layout ∧
        (next.spaces src).area.usedList.map SmaBlock.layout =
          (state.spaces src).area.usedList.map SmaBlock.layout ∧
        Mapped memory (next.spaces dest).area := by
  induction pending generalizing state front with
  | nil =>
    refine ⟨state, rfl, ?_, rfl, loop.mapped⟩
    rw [loop.copied, loop.source, List.append_nil]
  | cons block behind ih =>
    obtain ⟨middle, kept, cloned, sameLayout, advanced⟩ :=
      loop.advance memoryStart memoryEnds different
    obtain ⟨next, rest, destLayout, srcLayout, mapped⟩ := ih advanced
    have same : (middle.spaces src).area.usedList.map SmaBlock.layout =
          (state.spaces src).area.usedList.map SmaBlock.layout := by
      rw [advanced.source, loop.source]
      simp [sameLayout]
    refine ⟨next, ?_, destLayout.trans same, srcLayout.trans same, mapped⟩
    rw [cloneBlocks, cloned]
    exact rest

end Loop

theorem layoutLoop_fresh
    {memory : UserMemory w} {state : VmState w Vnode} {src dest : Nat}
    (fresh : state.spaces dest = vmSpaceCreate memory)
    (partition : Partition (state.spaces src).area)
    (areaStart : (state.spaces src).area.start = memory.start)
    (areaSize : (state.spaces src).area.size = memory.size)
    (nonempty : ∀ block ∈ (state.spaces src).area.usedList, block.size ≠ 0)
    (held : RegionsHeld state (state.spaces src).area.usedList) :
    LayoutLoop memory state src dest [] (state.spaces src).area.usedList where
  source := rfl
  mapped := by
    rw [fresh]
    exact mapped_fresh memory
  copied := by
    rw [fresh]
    rfl
  behind := by
    intro other member
    rw [fresh] at member
    simp [vmSpaceCreate, vmSpaceArea, smaAreaCreate] at member
  ascending := partition.ascending nonempty
  inside := by
    intro block member
    have covers :=
      fun address (here : block.Covers address) =>
        (partition.tiles.exact address).mp
          ⟨block, List.mem_append_left _ member, here⟩
    have first := SmaBlock.covers_start (nonempty block member)
    have last : block.Covers (block.ends - 1) := by
      simp only [SmaBlock.Covers] at first ⊢
      omega
    have firstInside := covers _ first
    have lastInside := covers _ last
    simp only [SmaArea.Covers, areaStart, areaSize] at firstInside lastInside
    exact ⟨nonempty block member, firstInside.1, by omega⟩
  held := held

/--
Cloning into a fresh address space succeeds.  The destination gets the used
blocks of the source, each with the flags and the offset of its mapping, and
is partitioned again.
-/
theorem vmSpaceClone_reproduces_layout
    {memory : UserMemory w} {state : VmState w Vnode} {dest src : Nat}
    (memoryStart : memory.start ≠ 0)
    (memoryEnds : memory.start.toNat + memory.size.toNat < 2 ^ w)
    (fresh : state.spaces dest = vmSpaceCreate memory)
    (partition : Partition (state.spaces src).area)
    (areaStart : (state.spaces src).area.start = memory.start)
    (areaSize : (state.spaces src).area.size = memory.size)
    (nonempty : ∀ block ∈ (state.spaces src).area.usedList, block.size ≠ 0)
    (held : RegionsHeld state (state.spaces src).area.usedList) :
    ∃ next,
      vmSpaceClone state dest src = some (next, .ok ()) ∧
        (next.spaces dest).area.usedList.map SmaBlock.layout =
          (state.spaces src).area.usedList.map SmaBlock.layout ∧
        Partition (next.spaces dest).area := by
  have loop := layoutLoop_fresh fresh partition areaStart areaSize nonempty held
  by_cases different : dest = src
  · subst different
    have nothing : (state.spaces dest).area.usedList = [] := by
      rw [fresh]
      rfl
    exact ⟨state, by simp [vmSpaceClone, nothing, cloneBlocks], rfl, partition⟩
  · obtain ⟨next, returns, sameLayout, -, mapped⟩ :=
      loop.run memoryStart memoryEnds different
    exact ⟨next, returns, sameLayout, mapped.sound.toPartition⟩

theorem mappedSpace_mapped :
    Mapped userMemory32 ((mappedSpace 0x1000).spaces 0).area := by
  have stays : MmapStaysInBlock
        ((VmState.boot userMemory32 fun _ => zeroPage).mmapState 0)
        (mapFromStart 0x1000) :=
    boot_staysInBlock (by decide)
  exact (mapped_fresh userMemory32).vmMmap stays

/-- Address space 1 gets the page that is mapped in address space 0. -/
theorem mappedSpace_reproduced :
    ∃ next,
      vmSpaceClone (mappedSpace 0x1000) 1 0 = some (next, .ok ()) ∧
        (next.spaces 1).area.usedList.map SmaBlock.layout =
          ((mappedSpace 0x1000).spaces 0).area.usedList.map SmaBlock.layout ∧
        Partition (next.spaces 1).area := by
  refine vmSpaceClone_reproduces_layout (by decide) (by decide) rfl
    mappedSpace_mapped.sound.toPartition rfl rfl (by decide) ⟨?_, ?_⟩
  · intro block member
    obtain rfl := List.mem_singleton.mp member
    exact ⟨_, _, rfl, rfl⟩
  · intro pointer region isRegion
    by_cases first : pointer = 0
    · subst first
      obtain rfl := Option.some.inj isRegion
      decide
    · have nothing : (mappedSpace 0x1000).regions.cells pointer = none :=
        if_neg first
      rw [nothing] at isRegion
      simp at isRegion

end Idylla.Mm
