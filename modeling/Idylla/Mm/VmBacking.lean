import Idylla.Lib.Counting
import Idylla.Mm.VmCalls
import Idylla.Mm.VmMapped

namespace Idylla.Mm

open Idylla.Lib

/-!
# The regions behind mappings

Every call on address spaces keeps a live region of its size behind each used
block, and the number of mappings of each region in its `refs`.  Nothing is
assumed of where `sma_alloc` puts its blocks, nor of the pages of a region.
-/

variable {w : Nat} {Vnode : Type}

/-- What an allocation that succeeds returns and leaves. -/
structure Taken
    (area after : SmaArea w VmMapping) (size : BitVec w)
    (block : SmaBlock w VmMapping) : Prop where
  size : block.size = size
  used : block.flags &&& smaFlagsUsed = smaFlagsUsed
  free : ∀ piece ∈ after.freeList,
      piece.flags = 0 ∨ ∃ old ∈ area.freeList, piece.flags = old.flags

section Taken

variable {area : SmaArea w VmMapping} {found : Found (SmaBlock w VmMapping)}

section

variable (split : area.freeList = found.passed ++ found.item :: found.rest)

include split

theorem flags_shrunk {shrunk : SmaBlock w VmMapping}
    (sameFlags : shrunk.flags = found.item.flags) {piece : SmaBlock w VmMapping}
    (member : piece ∈ found.passed ++ shrunk :: found.rest) :
    ∃ old ∈ area.freeList, piece.flags = old.flags := by
  rw [split]
  simp only [List.mem_append, List.mem_cons] at member ⊢
  rcases member with passed | rfl | rest
  · exact ⟨piece, .inl passed, rfl⟩
  · exact ⟨found.item, .inr (.inl rfl), sameFlags⟩
  · exact ⟨piece, .inr (.inr rest), rfl⟩

theorem smaTakeFront_taken (size : BitVec w) :
    Taken area (smaTakeFront area found size).2 size
      (smaTakeFront area found size).1 := by
  unfold smaTakeFront
  by_cases whole : found.item.size = size
  · simp only [whole, ↓reduceIte]
    refine ⟨rfl, flags_or_used _, ?_⟩
    intro piece member
    refine .inr ⟨piece, ?_, rfl⟩
    rw [split]
    simp only [List.mem_append, List.mem_cons] at member ⊢
    exact member.imp_right .inr
  · simp only [whole, ↓reduceIte]
    exact ⟨rfl, BitVec.and_self,
      fun piece member => .inr (flags_shrunk split (by rfl) member)⟩

theorem smaTakeMiddle_taken (addr size : BitVec w) :
    Taken area (smaTakeMiddle area found addr size).2 size
      (smaTakeMiddle area found addr size).1 := by
  refine ⟨rfl, BitVec.and_self, ?_⟩
  intro piece member
  simp only [smaTakeMiddle] at member
  split at member
  · exact .inr (flags_shrunk split (by rfl) member)
  · rcases mem_smaListAdd.mp member with rfl | old
    · exact .inl rfl
    · exact .inr (flags_shrunk split (by rfl) old)

end

theorem smaFind_taken {addr size : BitVec w} {flags : BitVec 32}
    (isFound : smaFind area addr size flags = some found) :
    Taken area (smaCarve area found addr size).2 size
      (smaCarve area found addr size).1 := by
  have split : area.freeList = found.passed ++ found.item :: found.rest := by
    rcases Option.or_eq_some_iff.mp isFound with hinted | ⟨-, firstFit⟩
    · obtain ⟨-, isFirst, -⟩ := smaHinted_some hinted
      exact (firstFound_some isFirst).1
    · unfold smaFirstFit at firstFit
      split at firstFit
      · cases firstFit
      · exact (firstFound_some firstFit).1
  unfold smaCarve
  generalize (if found.item.hits addr = true then addr else 0) = hint
  dsimp only
  split
  · exact smaTakeFront_taken split size
  · exact smaTakeMiddle_taken split hint size

end Taken

variable {block : SmaBlock w VmMapping}

theorem smaAlloc_taken {area after : SmaArea w VmMapping} {addr size : BitVec w}
    {flags : BitVec 32}
    (allocated : smaAlloc area addr size flags = some (block, after)) :
    Taken area after size block := by
  obtain ⟨found, isFound, carved⟩ := Option.map_eq_some_iff.mp allocated
  have taken := smaFind_taken isFound
  rwa [carved] at taken

/-- The block has a mapping of the region. -/
def SmaBlock.pointsTo (region : Nat) (block : SmaBlock w VmMapping) : Bool :=
  block.dataptr.any fun mapping => mapping.region == region

/-- The number of mappings of a region in the spaces below a bound. -/
def VmState.mappings (state : VmState w Vnode) (created region : Nat) : Nat :=
  total
    (fun space =>
      (state.spaces space).area.usedList.countP (SmaBlock.pointsTo region))
    created

variable {space created : Nat}

theorem mappings_setArea (state : VmState w Vnode) (below : space < created)
    (area : SmaArea w VmMapping) (region : Nat) :
    (state.setArea space area).mappings created region +
        (state.spaces space).area.usedList.countP (SmaBlock.pointsTo region) =
      state.mappings created region +
        area.usedList.countP (SmaBlock.pointsTo region) := by
  have change := @total_change
    (fun other =>
      (state.spaces other).area.usedList.countP (SmaBlock.pointsTo region))
    (fun other =>
      ((state.setArea space area).spaces other).area.usedList.countP
        (SmaBlock.pointsTo region))
    created space below ?_
  · simpa [VmState.mappings] using change
  · intro other different
    simp [different]

theorem mappings_congr {state after : VmState w Vnode} {created : Nat}
    (sameAreas :
      ∀ space, space < created →
        (after.spaces space).area = (state.spaces space).area) (region : Nat) :
    after.mappings created region = state.mappings created region :=
  total_congr fun space below => by rw [sameAreas space below]

theorem countP_setDataptr
    (before area : SmaArea w VmMapping) (block : SmaBlock w VmMapping)
    (mapping : VmMapping) (region : Nat) :
    (setDataptr before block mapping area).usedList.countP
        (SmaBlock.pointsTo region) =
      before.usedList.countP (SmaBlock.pointsTo region) +
        if mapping.region = region then 1 else 0 := by
  unfold setDataptr
  rw [(smaListAdd_perm _ _).countP_eq, List.countP_cons]
  simp [SmaBlock.pointsTo]

theorem mappings_setDataptr (state : VmState w Vnode) (below : space < created)
    (block : SmaBlock w VmMapping) (mapping : VmMapping)
    (area : SmaArea w VmMapping) (pointer : Nat) :
    (state.setArea space
        (setDataptr (state.spaces space).area block mapping
          area)).mappings created pointer =
      state.mappings created pointer +
        if mapping.region = pointer then 1 else 0 := by
  have change := mappings_setArea state below
    (setDataptr (state.spaces space).area block mapping area) pointer
  rw [countP_setDataptr] at change
  omega

theorem mappings_succ (state : VmState w Vnode) (created pointer : Nat) :
    state.mappings (created + 1) pointer =
      state.mappings created pointer +
        (state.spaces created).area.usedList.countP
          (SmaBlock.pointsTo pointer) :=
  rfl

theorem Taken.free_unused {area after : SmaArea w VmMapping} {size : BitVec w}
    (taken : Taken area after size block)
    (unused :
      ∀ piece ∈ area.freeList, piece.flags &&& smaFlagsUsed ≠ smaFlagsUsed) :
    ∀ piece ∈ after.freeList, piece.flags &&& smaFlagsUsed ≠ smaFlagsUsed := by
  intro piece member
  rcases taken.free piece member with isZero | ⟨old, isOld, same⟩
  · rw [isZero]
    decide
  · rw [same]
    exact unused old isOld

/-- One space has one more used block, with a mapping. -/
def AddsBlock
    (state next : VmState w Vnode) (space : Nat) (block : SmaBlock w VmMapping)
    (mapping : VmMapping) (area : SmaArea w VmMapping) : Prop :=
  ∀ other,
    (next.spaces other).area =
      if other = space then
        setDataptr (state.spaces space).area block mapping area
      else (state.spaces other).area

section Areas

variable {state next : VmState w Vnode} {space other : Nat}
  {block newBlock piece : SmaBlock w VmMapping} {mapping : VmMapping}
  {area : SmaArea w VmMapping}

theorem AddsBlock.used (adds : AddsBlock state next space block mapping area)
    (member : piece ∈ (next.spaces other).area.usedList) :
    piece ∈ (state.spaces other).area.usedList ∨
      piece = { block with dataptr := some mapping } := by
  rw [adds] at member
  split at member
  next here =>
    subst here
    exact (mem_smaListAdd.mp member).symm
  next elsewhere => exact .inl member

theorem AddsBlock.free (adds : AddsBlock state next space block mapping area)
    {size : BitVec w} (taken : Taken (state.spaces space).area area size block)
    (unused :
      ∀ piece ∈ (state.spaces other).area.freeList,
        piece.flags &&& smaFlagsUsed ≠ smaFlagsUsed) :
    ∀ piece ∈ (next.spaces other).area.freeList,
      piece.flags &&& smaFlagsUsed ≠ smaFlagsUsed := by
  rw [adds]
  split
  next here =>
    subst here
    exact taken.free_unused unused
  next elsewhere => exact unused

theorem AddsBlock.mappings
    (adds : AddsBlock state next space block mapping area) {created : Nat}
    (below : space < created) (pointer : Nat) :
    next.mappings created pointer =
      state.mappings created pointer +
        if mapping.region = pointer then 1 else 0 := by
  rw [← mappings_setDataptr state below block mapping area]
  refine mappings_congr (fun other _ => ?_) pointer
  rw [adds, VmState.setArea_area]

section Split

variable {src dest : Nat} {front behind : List (SmaBlock w VmMapping)}
  {region : VmRegion w Vnode}

/-- The area of the source while a mapping of it is split. -/
def keptArea (state : VmState w Vnode) (src : Nat)
    (front behind : List (SmaBlock w VmMapping)) (block : SmaBlock w VmMapping)
    (mapping : VmMapping) : SmaArea w VmMapping :=
  { (state.spaces src).area with
    usedList := front ++ keptBlock state block mapping :: behind }

theorem splitMapping_adds
    (live : state.regions.cells mapping.region = some region)
    (different : dest ≠ src) :
    AddsBlock (state.setArea src (keptArea state src front behind block
        mapping))
      (splitMapping state src dest front block behind mapping region newBlock
        area)
      dest newBlock (childMapping state mapping) area := by
  have sameAreas := area_splitRegion live src block
  intro other
  rw [VmState.setArea_area, VmState.setArea_area, if_neg different]
  unfold splitMapping keptArea
  simp only [VmState.setArea_area, sameAreas]

theorem used_keptArea
    (isList : (state.spaces src).area.usedList = front ++ block :: behind)
    (member :
      piece ∈
        ((state.setArea src (keptArea state src front behind block
          mapping)).spaces other).area.usedList) :
    piece ∈ (state.spaces other).area.usedList ∨
      piece = keptBlock state block mapping := by
  rw [VmState.setArea_area] at member
  split at member
  next here =>
    subst here
    rw [isList]
    rcases List.mem_append.mp member with inFront | inRest
    · exact .inl (List.mem_append_left _ inFront)
    · rcases List.mem_cons.mp inRest with isKept | inBehind
      · exact .inr isKept
      · exact .inl (List.mem_append_right _ (List.mem_cons_of_mem _ inBehind))
  next elsewhere => exact .inl member

theorem free_keptArea :
    ((state.setArea src (keptArea state src front behind block
      mapping)).spaces other).area.freeList =
      (state.spaces other).area.freeList := by
  rw [VmState.setArea_area]
  split
  next here =>
    rw [here]
    rfl
  next elsewhere => rfl

theorem mappings_keptArea {created : Nat} (below : src < created)
    (isList : (state.spaces src).area.usedList = front ++ block :: behind)
    (isMapping : block.dataptr = some mapping) (pointer : Nat) :
    (state.setArea src (keptArea state src front behind block
          mapping)).mappings created pointer +
        (if mapping.region = pointer then 1 else 0) =
      state.mappings created pointer +
        (if state.regions.next = pointer then 1 else 0) := by
  have change := mappings_setArea state below
    (keptArea state src front behind block mapping) pointer
  have keptCount : SmaBlock.pointsTo pointer (keptBlock state block mapping) =
        decide (state.regions.next = pointer) := by
    rfl
  have blockCount :
      SmaBlock.pointsTo pointer block = decide (mapping.region = pointer) := by
    simp [SmaBlock.pointsTo, isMapping]
    rfl
  simp only [keptArea, isList, List.countP_append, List.countP_cons,
    keptCount, blockCount, decide_eq_true_eq] at change ⊢
  omega

theorem mappings_splitMapping {created : Nat} (srcBelow : src < created)
    (destBelow : dest < created) (different : dest ≠ src)
    (isList : (state.spaces src).area.usedList = front ++ block :: behind)
    (isMapping : block.dataptr = some mapping)
    (live : state.regions.cells mapping.region = some region) (pointer : Nat) :
    (splitMapping state src dest front block behind mapping region newBlock
          area).mappings created pointer +
        (if mapping.region = pointer then 1 else 0) =
      state.mappings created pointer +
        (if state.regions.next = pointer then 1 else 0) +
        (if state.regions.next + 1 = pointer then 1 else 0) := by
  have inSrc := mappings_keptArea srcBelow isList isMapping pointer
  have inDest :=
    (@splitMapping_adds _ _ state block newBlock mapping area src dest front
      behind region live different).mappings destBelow pointer
  have childRegion :
      (childMapping state mapping).region = state.regions.next + 1 :=
    rfl
  rw [childRegion] at inDest
  omega

end Split

theorem mappings_removeBlock {created : Nat} (below : space < created)
    {rest : List (SmaBlock w VmMapping)}
    (isList : (state.spaces space).area.usedList = block :: rest)
    (isMapping : block.dataptr = some mapping)
    (sameAreas : ∀ other, (next.spaces other).area = (state.spaces other).area)
    (pointer : Nat) :
    (next.setUsedList space rest).mappings created pointer +
        (if mapping.region = pointer then 1 else 0) =
      state.mappings created pointer := by
  have change : (next.setUsedList space rest).mappings created pointer +
          (next.spaces space).area.usedList.countP (SmaBlock.pointsTo pointer) =
        next.mappings created pointer +
          rest.countP (SmaBlock.pointsTo pointer) :=
    mappings_setArea next below _ pointer
  have sameMappings := @mappings_congr _ _ state next created
    (fun other _ => sameAreas other) pointer
  rw [sameMappings, sameAreas, isList, List.countP_cons] at change
  have blockCount :
      SmaBlock.pointsTo pointer block = decide (mapping.region = pointer) := by
    simp [SmaBlock.pointsTo, isMapping]
    rfl
  simp only [blockCount, decide_eq_true_eq] at change
  omega

theorem used_removeBlock {rest : List (SmaBlock w VmMapping)}
    (isList : (state.spaces space).area.usedList = block :: rest)
    (sameAreas : ∀ other, (next.spaces other).area = (state.spaces other).area)
    (member :
      piece ∈ ((next.setUsedList space rest).spaces other).area.usedList) :
    piece ∈ (state.spaces other).area.usedList := by
  rw [VmState.setUsedList, VmState.setArea_area, sameAreas, sameAreas] at member
  split at member
  next here =>
    subst here
    rw [isList]
    exact List.mem_cons_of_mem _ member
  next elsewhere => exact member

theorem free_removeBlock {rest : List (SmaBlock w VmMapping)}
    (sameAreas :
      ∀ other, (next.spaces other).area = (state.spaces other).area) :
    ((next.setUsedList space rest).spaces other).area.freeList =
      (state.spaces other).area.freeList := by
  rw [VmState.setUsedList, VmState.setArea_area, sameAreas, sameAreas]
  split
  next here => rw [here]
  next elsewhere => rfl

end Areas

section Regions

variable {state : VmState w Vnode}

theorem bareRegion_next (state : VmState w Vnode) {pointer : Nat}
    (above : state.regions.next ≤ pointer) :
    state.bareRegion pointer = none := by
  rw [VmState.bareRegion, state.regions.unallocated pointer above]
  rfl

theorem bareRegion_below {pointer : Nat} {region : VmRegion w Vnode}
    (live : state.bareRegion pointer = some region) :
    pointer < state.regions.next := by
  apply Nat.lt_of_not_le
  intro above
  rw [bareRegion_next state above] at live
  cases live

theorem bareRegion_mapRegion
    {space : Nat} {flags : BitVec 16} {region : VmRegion w Vnode}
    {block : SmaBlock w VmMapping} {area : SmaArea w VmMapping}
    (pointer : Nat) :
    (mapRegion state space flags region block area).bareRegion pointer =
      if pointer = state.regions.next then some region.bare
      else state.bareRegion pointer := by
  rw [VmState.bareRegion, cells_mapRegion]
  split
  · rfl
  · rfl

theorem bareRegion_allocTwice
    (state : VmState w Vnode) (region : VmRegion w Vnode) (pointer : Nat) :
    ((state.allocRegion region).allocRegion region).bareRegion pointer =
      if pointer = state.regions.next ∨ pointer = state.regions.next + 1 then
        some region.bare
      else state.bareRegion pointer := by
  by_cases isChild : pointer = state.regions.next + 1
  · simp [VmState.bareRegion, VmState.allocRegion, Heap.alloc, isChild]
  · by_cases isParent : pointer = state.regions.next
    · simp [VmState.bareRegion, VmState.allocRegion, Heap.alloc, isParent]
    · simp [VmState.bareRegion, VmState.allocRegion, Heap.alloc, isChild,
        isParent]

theorem bareRegion_splitMapping
    {src dest : Nat} {front behind : List (SmaBlock w VmMapping)}
    {area : SmaArea w VmMapping} {block newBlock : SmaBlock w VmMapping}
    {mapping : VmMapping} {region : VmRegion w Vnode}
    (live : state.regions.cells mapping.region = some region) (pointer : Nat) :
    (splitMapping state src dest front block behind mapping region newBlock
        area).bareRegion pointer =
      if pointer = mapping.region then
        if region.refs - 1 = 0 then none
        else some { region.bare with refs := region.refs - 1 }
      else if pointer = state.regions.next ∨
          pointer = state.regions.next + 1 then
        some region.fresh.bare
      else state.bareRegion pointer := by
  rw [← bareRegion_allocTwice, ← bareRegion_splitRegion live src block]
  rfl

theorem unmapPages_frame
    (state : VmState w Vnode) (space : Nat) (start : BitVec w) (count : Nat) :
    (unmapPages state space start count).regions = state.regions ∧
      (unmapPages state space start count).pages = state.pages ∧
      ∀ other,
        ((unmapPages state space start count).spaces other).area =
          (state.spaces other).area := by
  induction count with
  | zero =>
    exact ⟨rfl, rfl, fun _ => rfl⟩
  | succ count ih =>
    obtain ⟨sameRegions, samePages, sameAreas⟩ := ih
    refine ⟨sameRegions, samePages, fun other => ?_⟩
    rw [unmapPages, VmState.unmapPage_area]
    exact sameAreas other

end Regions

/-- A used block of whole pages with a live region of its size. -/
structure Supported
    (state : VmState w Vnode)
    (block : SmaBlock w VmMapping) : Prop where
  used : block.flags &&& smaFlagsUsed = smaFlagsUsed
  whole : WholePages block.size
  live : ∃ mapping region,
      block.dataptr = some mapping ∧
        state.bareRegion mapping.region = some region ∧
        region.size = block.size

/--
The used blocks are supported, and the regions count their mappings and are of
a kind that does not change.
-/
structure RegionsCounted
    (Kind : VmOps → Option Vnode → Prop)
    (state : VmState w Vnode)
    (created : Nat) : Prop where
  supported : ∀ space, space < created →
      ∀ block ∈ (state.spaces space).area.usedList, Supported state block
  free_unused : ∀ space, space < created →
      ∀ block ∈ (state.spaces space).area.freeList,
        block.flags &&& smaFlagsUsed ≠ smaFlagsUsed
  refs : ∀ pointer region, state.bareRegion pointer = some region →
      region.refs = state.mappings created pointer
  kind : ∀ pointer region, state.bareRegion pointer = some region →
      Kind region.ops region.vnode

theorem mappings_pos {state : VmState w Vnode} (below : space < created)
    (member : block ∈ (state.spaces space).area.usedList) {mapping : VmMapping}
    (isMapping : block.dataptr = some mapping) :
    0 < state.mappings created mapping.region := by
  have inSpace : 0 < (state.spaces space).area.usedList.countP
        (SmaBlock.pointsTo mapping.region) :=
    List.countP_pos_iff.mpr
      ⟨block, member, by simp [SmaBlock.pointsTo, isMapping]⟩
  have inAll := @le_total
    (fun other =>
      (state.spaces other).area.usedList.countP
        (SmaBlock.pointsTo mapping.region))
    created space below
  exact Nat.lt_of_lt_of_le inSpace inAll

namespace RegionsCounted

variable {Kind : VmOps → Option Vnode → Prop} {state next : VmState w Vnode}
  {created space : Nat}

theorem mappings_dead (counted : RegionsCounted Kind state created)
    {pointer : Nat} (dead : state.bareRegion pointer = none) :
    state.mappings created pointer = 0 := by
  refine total_eq_zero fun space below => ?_
  rw [List.countP_eq_zero]
  intro block member
  obtain ⟨mapping, region, isMapping, live, -⟩ :=
    (counted.supported space below block member).live
  simp only [SmaBlock.pointsTo, isMapping, Option.any_some, beq_iff_eq]
  rintro rfl
  rw [dead] at live
  cases live

theorem change (counted : RegionsCounted Kind state created)
    (used :
      ∀ other, other < created →
        ∀ block ∈ (next.spaces other).area.usedList,
          block ∈ (state.spaces other).area.usedList ∨ Supported next block)
    (free :
      ∀ other, other < created →
        ∀ block ∈ (next.spaces other).area.freeList,
          block.flags &&& smaFlagsUsed ≠ smaFlagsUsed)
    (keeps :
      ∀ pointer region, state.bareRegion pointer = some region →
        0 < next.mappings created pointer →
        ∃ after,
          next.bareRegion pointer = some after ∧ after.size = region.size)
    (regions :
      ∀ pointer region, next.bareRegion pointer = some region →
        region.refs = next.mappings created pointer ∧
          Kind region.ops region.vnode) : RegionsCounted Kind next created := by
  refine ⟨?_, free, fun pointer region live => (regions pointer region live).1,
    fun pointer region live => (regions pointer region live).2⟩
  intro other below block member
  rcases used other below block member with old | new
  · obtain ⟨isUsed, whole, mapping, region, isMapping, live, sameSize⟩ :=
      counted.supported other below block old
    obtain ⟨after, isAfter, keepsSize⟩ :=
      keeps mapping.region region live (mappings_pos below member isMapping)
    exact ⟨isUsed, whole, mapping, after, isMapping, isAfter,
      keepsSize.trans sameSize⟩
  · exact new

theorem congr (counted : RegionsCounted Kind state created)
    (sameAreas :
      ∀ other, other < created →
        (next.spaces other).area = (state.spaces other).area)
    (sameRegions : next.bareRegion = state.bareRegion) :
    RegionsCounted Kind next created := by
  refine counted.change ?_ ?_ ?_ ?_
  · intro other below block member
    rw [sameAreas other below] at member
    exact .inl member
  · intro other below
    rw [sameAreas other below]
    exact counted.free_unused other below
  · intro pointer region live _
    rw [sameRegions]
    exact ⟨region, live, rfl⟩
  · intro pointer region live
    rw [sameRegions] at live
    rw [mappings_congr sameAreas]
    exact ⟨counted.refs pointer region live, counted.kind pointer region live⟩

theorem mapRegion (counted : RegionsCounted Kind state created)
    (below : space < created) {area : SmaArea w VmMapping} {size : BitVec w}
    {block : SmaBlock w VmMapping} {flags : BitVec 16}
    {region : VmRegion w Vnode}
    (taken : Taken (state.spaces space).area area size block)
    (whole : WholePages size) (single : region.refs = 1)
    (sameSize : region.size = block.size)
    (isKind : Kind region.ops region.vnode) :
    RegionsCounted Kind (Mm.mapRegion state space flags region block area)
      created := by
  have isFresh := @bareRegion_mapRegion _ _ state space flags region block
    area state.regions.next
  rw [if_pos rfl] at isFresh
  have adds :
      AddsBlock state (Mm.mapRegion state space flags region block area) space
        block { flags := flags, region := state.regions.next, offset := 0 }
        area :=
    area_mapRegion
  refine counted.change ?_ ?_ ?_ ?_
  · intro other inRange piece member
    refine (adds.used member).imp_right ?_
    rintro rfl
    exact ⟨taken.used, taken.size ▸ whole, _, _, rfl, isFresh, sameSize⟩
  · intro other inRange
    exact adds.free taken (counted.free_unused other inRange)
  · intro pointer cell live _
    rw [bareRegion_mapRegion, if_neg (Nat.ne_of_lt (bareRegion_below live))]
    exact ⟨cell, live, rfl⟩
  · intro pointer cell live
    rw [adds.mappings below]
    rw [bareRegion_mapRegion] at live
    split at live
    next isNew =>
      cases live
      have dead := counted.mappings_dead
        (bareRegion_next state (Nat.le_of_eq isNew.symm))
      rw [if_pos isNew.symm, dead]
      exact ⟨single, isKind⟩
    next isOld =>
      rw [if_neg (Ne.symm isOld)]
      exact ⟨counted.refs pointer cell live, counted.kind pointer cell live⟩

theorem mmap (wide : 32 ≤ w) (counted : RegionsCounted Kind state created)
    (below : space < created) {call : MmapCall w Vnode}
    (isKind :
      ∀ file block, mmapFile call.filedes call.request = .ok file →
        Kind (mmapRegion file call.request block).ops
          (mmapRegion file call.request block).vnode) :
    RegionsCounted Kind (vmSpaceMmap state space call) created := by
  cases passes : mmapFile call.filedes call.request with
  | error errno =>
    rw [vmSpaceMmap_of_error passes]
    exact counted
  | ok file =>
    cases allocated : smaAlloc (state.spaces space).area call.request.start
          call.request.length (mmapAllocFlags call.request) with
    | none =>
      rw [vmSpaceMmap_of_refused allocated]
      exact counted
    | some placed =>
      obtain ⟨block, area⟩ := placed
      have whole := wholePages_of_umod wide (mmapFile_ok passes).2.1
      rw [vmSpaceMmap_of_alloc passes allocated]
      exact counted.mapRegion below (smaAlloc_taken allocated) whole rfl
        rfl (isKind file block passes)

theorem shareMapping (counted : RegionsCounted Kind state created) {dest : Nat}
    (below : dest < created) {area : SmaArea w VmMapping} {size : BitVec w}
    {newBlock : SmaBlock w VmMapping} {mapping : VmMapping}
    {region : VmRegion w Vnode}
    (taken : Taken (state.spaces dest).area area size newBlock)
    (whole : WholePages size)
    (live : state.bareRegion mapping.region = some region)
    (sameSize : region.size = size) :
    RegionsCounted Kind (Mm.shareMapping state dest mapping newBlock area)
      created := by
  have isHeld (pointer : Nat) :
      (Mm.shareMapping state dest mapping newBlock area).bareRegion pointer =
        if pointer = mapping.region then
          some { region with refs := region.refs + 1 }
        else state.bareRegion pointer := by
    split
    next same =>
      subst same
      obtain ⟨cell, isCell, rfl⟩ := Option.map_eq_some_iff.mp live
      simp [VmState.bareRegion, Mm.shareMapping, VmState.holdRegion, isCell,
        VmRegion.bare]
    next other =>
      simp [VmState.bareRegion, Mm.shareMapping, VmState.holdRegion,
        Heap.cells_modify_of_ne other]
  have adds :
      AddsBlock state (Mm.shareMapping state dest mapping newBlock area) dest
        newBlock mapping area :=
    fun _ => VmState.setArea_area ..
  refine counted.change ?_ ?_ ?_ ?_
  · intro other inRange piece member
    refine (adds.used member).imp_right ?_
    rintro rfl
    exact ⟨taken.used, taken.size ▸ whole, _, _, rfl,
      (isHeld _).trans (if_pos rfl), sameSize.trans taken.size.symm⟩
  · intro other inRange
    exact adds.free taken (counted.free_unused other inRange)
  · intro pointer cell isCell _
    rw [isHeld]
    split
    next same =>
      rw [same, live, Option.some.injEq] at isCell
      subst isCell
      exact ⟨_, rfl, rfl⟩
    next other => exact ⟨cell, isCell, rfl⟩
  · intro pointer cell isCell
    rw [isHeld] at isCell
    rw [adds.mappings below]
    split at isCell
    next same =>
      cases isCell
      rw [if_pos same.symm, same]
      exact ⟨congrArg (· + 1) (counted.refs _ region live),
        counted.kind _ region live⟩
    next other =>
      rw [if_neg (Ne.symm other)]
      exact ⟨counted.refs pointer cell isCell, counted.kind pointer cell isCell⟩

theorem splitMapping (counted : RegionsCounted Kind state created)
    {src dest : Nat} (srcBelow : src < created) (destBelow : dest < created)
    (different : dest ≠ src)
    {front behind : List (SmaBlock w VmMapping)} {area : SmaArea w VmMapping}
    {block newBlock : SmaBlock w VmMapping} {mapping : VmMapping}
    {region : VmRegion w Vnode}
    (isList : (state.spaces src).area.usedList = front ++ block :: behind)
    (isMapping : block.dataptr = some mapping)
    (taken : Taken (state.spaces dest).area area block.size newBlock)
    (live : state.regions.cells mapping.region = some region)
    (sameSize : region.size = block.size) :
    RegionsCounted Kind
      (Mm.splitMapping state src dest front block behind mapping region
        newBlock area)
      created := by
  have adds := @splitMapping_adds _ _ state block newBlock mapping area src
    dest front behind region live different
  have counts := @mappings_splitMapping _ _ state block newBlock mapping area
    src dest front behind region created srcBelow destBelow different isList
    isMapping live
  have isBare := @bareRegion_splitMapping _ _ state src dest front behind area
    block newBlock mapping region live
  have inSrc : block ∈ (state.spaces src).area.usedList := by
    rw [isList]
    exact List.mem_append_right front List.mem_cons_self
  have supported := counted.supported src srcBelow block inSrc
  have liveBare : state.bareRegion mapping.region = some region.bare := by
    rw [VmState.bareRegion, live]
    rfl
  have isKind := counted.kind _ _ liveBare
  have oldRefs : region.refs = state.mappings created mapping.region :=
    counted.refs _ region.bare liveBare
  have oldBelow := Heap.lt_next live
  have parentDead := counted.mappings_dead
    (bareRegion_next state (Nat.le_refl state.regions.next))
  have childDead : state.mappings created (state.regions.next + 1) = 0 :=
    counted.mappings_dead
      (bareRegion_next state (Nat.le_succ state.regions.next))
  generalize
    Mm.splitMapping state src dest front block behind mapping region
      newBlock area = next at adds counts isBare ⊢
  have newLive {pointer : Nat}
      (isNew :
        pointer = state.regions.next ∨ pointer = state.regions.next + 1) :
      next.bareRegion pointer = some region.fresh.bare := by
    rw [isBare, if_neg (by omega), if_pos isNew]
  refine counted.change ?_ ?_ ?_ ?_
  · intro other inRange piece member
    rcases adds.used member with inSource | rfl
    · refine (used_keptArea isList inSource).imp_right ?_
      rintro rfl
      exact ⟨supported.used, supported.whole, _, _, rfl, newLive (.inl rfl),
        sameSize⟩
    · exact .inr ⟨taken.used, taken.size ▸ supported.whole, _, _, rfl,
        newLive (.inr rfl), sameSize.trans taken.size.symm⟩
  · intro other inRange
    refine @AddsBlock.free _ _ _ _ _ other _ _ _ adds block.size ?_ ?_
    · rw [VmState.setArea_area, if_neg different]
      exact taken
    · rw [free_keptArea]
      exact counted.free_unused other inRange
  · intro pointer cell isCell mapped
    have below := bareRegion_below isCell
    have count := counts pointer
    rw [if_neg (Nat.ne_of_gt below),
      if_neg (Nat.ne_of_gt (Nat.lt_succ_of_lt below))] at count
    rw [isBare]
    split
    next same =>
      rw [same, liveBare, Option.some.injEq] at isCell
      subst isCell
      rw [if_pos same.symm, same] at count
      rw [same] at mapped
      rw [if_neg (by omega)]
      exact ⟨_, rfl, rfl⟩
    next other =>
      rw [if_neg (by omega)]
      exact ⟨cell, isCell, rfl⟩
  · intro pointer cell isCell
    have count := counts pointer
    rw [isBare] at isCell
    split at isCell
    next same =>
      rw [if_pos same.symm, if_neg (by omega), if_neg (by omega)] at count
      split at isCell
      next last => cases isCell
      next more =>
        cases isCell
        rw [same] at count ⊢
        refine ⟨?_, isKind⟩
        dsimp only
        omega
    next other =>
      rw [if_neg (Ne.symm other)] at count
      split at isCell
      next isNew =>
        cases isCell
        refine ⟨?_, isKind⟩
        show 1 = _
        rcases isNew with rfl | rfl
        · rw [if_pos rfl, if_neg (by omega)] at count
          omega
        · rw [if_neg (by omega), if_pos rfl] at count
          omega
      next isOld =>
        have below := bareRegion_below isCell
        rw [if_neg (Nat.ne_of_gt below),
          if_neg (Nat.ne_of_gt (Nat.lt_succ_of_lt below))] at count
        have refs := counted.refs pointer cell isCell
        exact ⟨by omega, counted.kind pointer cell isCell⟩

section Loops

variable {src dest : Nat} {front behind : List (SmaBlock w VmMapping)}

theorem vmClone (counted : RegionsCounted Kind state created)
    (srcBelow : src < created) (destBelow : dest < created)
    (different : dest ≠ src) {block : SmaBlock w VmMapping}
    (isList : (state.spaces src).area.usedList = front ++ block :: behind) :
    ∃ next result,
      Mm.vmClone state src dest front block behind = some (next, result) ∧
        RegionsCounted Kind next created ∧
        ∀ kept, result = .ok kept →
          (next.spaces src).area.usedList = front ++ kept :: behind := by
  have inSrc : block ∈ (state.spaces src).area.usedList := by
    rw [isList]
    exact List.mem_append_right front List.mem_cons_self
  have supported := counted.supported src srcBelow block inSrc
  obtain ⟨mapping, bare, isMapping, liveBare, sameSize⟩ := supported.live
  obtain ⟨region, live, rfl⟩ := Option.map_eq_some_iff.mp liveBare
  unfold Mm.vmClone
  simp only [isMapping, live]
  cases allocated : smaAlloc (state.spaces dest).area block.start block.size
        smaAllocFixed with
  | none =>
    exact ⟨_, _, rfl, counted, fun kept isOk => by cases isOk⟩
  | some placed =>
    have taken := smaAlloc_taken allocated
    dsimp only
    by_cases shares : sharesRegion mapping region = true
    · rw [if_pos shares]
      refine ⟨_, _, rfl,
        counted.shareMapping destBelow taken supported.whole liveBare
          sameSize, ?_⟩
      intro kept isKept
      cases isKept
      rw [VmState.setArea_area, if_neg (Ne.symm different)]
      exact isList
    · rw [if_neg shares]
      refine ⟨_, _, rfl,
        counted.splitMapping srcBelow destBelow different isList isMapping
          taken live sameSize, ?_⟩
      intro kept isKept
      cases isKept
      rw [VmState.setArea_area, if_neg (Ne.symm different),
        VmState.setArea_area, if_pos rfl]

theorem cloneBlocks (counted : RegionsCounted Kind state created)
    (srcBelow : src < created) (destBelow : dest < created)
    (different : dest ≠ src)
    (isList : (state.spaces src).area.usedList = front ++ behind) :
    ∃ next result,
      Mm.cloneBlocks src dest front behind state = some (next, result) ∧
        RegionsCounted Kind next created := by
  induction behind generalizing front state with
  | nil =>
    exact ⟨state, _, rfl, counted⟩
  | cons block behind ih =>
    obtain ⟨cloned, result, returns, clonedCounted, keeps⟩ :=
      counted.vmClone srcBelow destBelow different isList
    unfold Mm.cloneBlocks
    rw [returns]
    cases result with
    | error err =>
      exact ⟨_, _, rfl, clonedCounted⟩
    | ok kept =>
      have isKept := keeps kept rfl
      rw [List.append_cons] at isKept
      exact ih clonedCounted isKept

end Loops

section

variable (counted : RegionsCounted Kind state created) (below : space < created)

include counted below

theorem removeBlock
    {block : SmaBlock w VmMapping} {rest : List (SmaBlock w VmMapping)}
    {mapping : VmMapping} {region : VmRegion w Vnode}
    (isList : (state.spaces space).area.usedList = block :: rest)
    (isMapping : block.dataptr = some mapping)
    (live : state.bareRegion mapping.region = some region)
    (sameAreas : ∀ other, (next.spaces other).area = (state.spaces other).area)
    (isBare :
      ∀ pointer,
        next.bareRegion pointer =
          if pointer = mapping.region then
            if region.refs - 1 = 0 then none
            else some { region with refs := region.refs - 1 }
          else state.bareRegion pointer) :
    RegionsCounted Kind (next.setUsedList space rest) created := by
  have counts :=
    @mappings_removeBlock _ _ state next space block mapping created below
      rest isList isMapping sameAreas
  have oldRefs := counted.refs _ region live
  refine counted.change ?_ ?_ ?_ ?_
  · intro other inRange piece member
    exact .inl (used_removeBlock isList sameAreas member)
  · intro other inRange
    rw [free_removeBlock sameAreas]
    exact counted.free_unused other inRange
  · intro pointer cell isCell mapped
    have count := counts pointer
    have isNow : (next.setUsedList space rest).bareRegion pointer =
          next.bareRegion pointer :=
      rfl
    rw [isNow, isBare]
    split
    next same =>
      rw [same, live, Option.some.injEq] at isCell
      subst isCell
      rw [if_pos same.symm] at count
      rw [same] at count mapped
      rw [if_neg (by omega)]
      exact ⟨_, rfl, rfl⟩
    next other => exact ⟨cell, isCell, rfl⟩
  · intro pointer cell isCell
    have count := counts pointer
    have isNow : next.bareRegion pointer = some cell := isCell
    rw [isBare] at isNow
    split at isNow
    next same =>
      rw [if_pos same.symm] at count
      split at isNow
      next last => cases isNow
      next more =>
        cases isNow
        rw [same] at count ⊢
        refine ⟨?_, counted.kind _ region live⟩
        dsimp only
        omega
    next other =>
      rw [if_neg (Ne.symm other)] at count
      have refs := counted.refs pointer cell isNow
      exact ⟨by omega, counted.kind pointer cell isNow⟩

theorem vmDestroy
    {block : SmaBlock w VmMapping} {rest : List (SmaBlock w VmMapping)}
    (isList : (state.spaces space).area.usedList = block :: rest) :
    ∃ destroyed events,
      Mm.vmDestroy state space block = some (destroyed, events) ∧
        RegionsCounted Kind (destroyed.setUsedList space rest) created := by
  have member : block ∈ (state.spaces space).area.usedList := by
    rw [isList]
    exact List.mem_cons_self
  obtain ⟨mapping, bare, isMapping, liveBare, -⟩ :=
    (counted.supported space below block member).live
  obtain ⟨region, live, rfl⟩ := Option.map_eq_some_iff.mp liveBare
  obtain ⟨sameRegions, -, sameAreas⟩ :=
    unmapPages_frame state space block.start (pageCount block.size)
  unfold Mm.vmDestroy
  simp only [isMapping, live]
  generalize
    unmapPages state space block.start (pageCount block.size) = unmapped
      at sameRegions sameAreas ⊢
  have sameBare := VmState.bareRegion_congr sameRegions
  have dropped (pointer : Nat) :
      (unmapped.dropRegion mapping.region).bareRegion pointer =
        if pointer = mapping.region then
          some { region.bare with refs := region.bare.refs - 1 }
        else state.bareRegion pointer := by
    rw [VmState.bareRegion_dropRegion, sameBare]
    split
    next same =>
      rw [same, liveBare]
      rfl
    next other => rfl
  have sameRefs : region.bare.refs = region.refs := rfl
  by_cases last : region.refs - 1 = 0
  · refine ⟨_, _, if_pos last,
      counted.removeBlock below isList isMapping liveBare ?_ ?_⟩
    · intro other
      refine Eq.trans ?_ (sameAreas other)
      have sameSpaces :=
        (@releaseSlots_bare _ _ (unmapped.dropRegion mapping.region)
          mapping.region (pageCount region.size)).2
      exact congrArg (fun spaces : Nat → VmSpace w => (spaces other).area)
        sameSpaces
    · intro pointer
      rw [vmDestroyRegion_bare, dropped, sameRefs, if_pos last]
      split <;> rfl
  · refine ⟨_, _, if_neg last,
      counted.removeBlock below isList isMapping liveBare sameAreas ?_⟩
    intro pointer
    rw [dropped, sameRefs, if_neg last]

theorem destroyBlocks {blocks : List (SmaBlock w VmMapping)}
    (isList : (state.spaces space).area.usedList = blocks) :
    ∃ after events,
      Mm.destroyBlocks space blocks state = some (after, events) ∧
        (after.spaces space).area.usedList = [] ∧
        RegionsCounted Kind after created := by
  induction blocks generalizing state with
  | nil =>
    exact ⟨state, [], rfl, isList, counted⟩
  | cons block rest ih =>
    obtain ⟨destroyed, events, destroys, destroyedCounted⟩ :=
      counted.vmDestroy below isList
    have isRest :
        ((destroyed.setUsedList space rest).spaces
          space).area.usedList = rest := by
      rw [VmState.setUsedList, VmState.setArea_area, if_pos rfl]
    obtain ⟨after, later, loops, isEmpty, afterCounted⟩ :=
      ih destroyedCounted isRest
    refine ⟨after, events ++ later, ?_, isEmpty, afterCounted⟩
    rw [Mm.destroyBlocks, destroys]
    dsimp only
    rw [loops]

theorem emptyArea {area : SmaArea w VmMapping}
    (isEmpty : (state.spaces space).area.usedList = [])
    (noUsed : area.usedList = []) (noFree : area.freeList = []) :
    RegionsCounted Kind (state.setArea space area) created := by
  have counts (pointer : Nat) :
      (state.setArea space area).mappings created pointer =
        state.mappings created pointer := by
    have change := mappings_setArea state below area pointer
    rw [isEmpty, noUsed, List.countP_nil] at change
    omega
  refine counted.change ?_ ?_ ?_ ?_
  · intro other inRange block member
    rw [VmState.setArea_area] at member
    split at member
    · rw [noUsed] at member
      cases member
    · exact .inl member
  · intro other inRange block member
    rw [VmState.setArea_area] at member
    split at member
    · rw [noFree] at member
      cases member
    · exact counted.free_unused other inRange block member
  · intro pointer cell isCell _
    exact ⟨cell, isCell, rfl⟩
  · intro pointer cell isCell
    rw [counts]
    exact ⟨counted.refs pointer cell isCell, counted.kind pointer cell isCell⟩

theorem smaAreaDestroy :
    ∃ after events,
      Mm.smaAreaDestroy state space = some (after, events) ∧
        RegionsCounted Kind after created := by
  obtain ⟨after, events, loops, isEmpty, afterCounted⟩ :=
    counted.destroyBlocks below rfl
  refine ⟨after.setArea space
      { (after.spaces space).area with usedList := [], freeList := [] },
    events, by rw [Mm.smaAreaDestroy, loops],
    afterCounted.emptyArea below isEmpty rfl rfl⟩

end

theorem vmSpaceArea_unused (memory : UserMemory w) :
    ∀ block ∈ (vmSpaceArea memory).freeList,
      block.flags &&& smaFlagsUsed ≠ smaFlagsUsed := by
  intro block member
  rw [List.mem_singleton.mp member]
  exact (by decide : (0 : BitVec 32) &&& smaFlagsUsed ≠ smaFlagsUsed)

theorem create {spaces : VmSpaces w Vnode}
    (counted : RegionsCounted Kind spaces.vm spaces.created)
    (memory : UserMemory w) :
    RegionsCounted Kind (spaces.vmSpaceCreate memory).vm
      (spaces.created + 1) := by
  have isArea := spaces.area_vmSpaceCreate memory
  have isOld {other : Nat}
      (below : other < spaces.created) :
      ((spaces.vmSpaceCreate memory).vm.spaces other).area =
        (spaces.vm.spaces other).area := by
    rw [isArea, if_neg (Nat.ne_of_lt below)]
  have isNew : ((spaces.vmSpaceCreate memory).vm.spaces spaces.created).area =
        vmSpaceArea memory := by
    rw [isArea, if_pos rfl]
  have old := counted.congr (fun _ below => isOld below)
    (VmState.bareRegion_congr rfl)
  refine ⟨?_, ?_, ?_, old.kind⟩
  · intro other below block member
    rcases Nat.lt_succ_iff_lt_or_eq.mp below with before | rfl
    · exact old.supported other before block member
    · rw [isNew] at member
      cases member
  · intro other below block member
    rcases Nat.lt_succ_iff_lt_or_eq.mp below with before | rfl
    · exact old.free_unused other before block member
    · rw [isNew] at member
      exact vmSpaceArea_unused memory block member
  · intro pointer region live
    rw [mappings_succ, isNew]
    exact old.refs pointer region live

end RegionsCounted

/-- What changes neither areas nor regions, pages aside. -/
structure KeepsRegions (state next : VmState w Vnode) : Prop where
  areas : ∀ other, (next.spaces other).area = (state.spaces other).area
  regions : next.bareRegion = state.bareRegion

namespace KeepsRegions

variable {state middle next : VmState w Vnode} {space : Nat} {virt : BitVec w}

theorem refl (state : VmState w Vnode) : KeepsRegions state state :=
  ⟨fun _ => rfl, rfl⟩

theorem trans (first : KeepsRegions state middle)
    (second : KeepsRegions middle next) : KeepsRegions state next :=
  ⟨fun other => (second.areas other).trans (first.areas other),
    second.regions.trans first.regions⟩

theorem mapPage (pte : Pte) :
    KeepsRegions state (state.mapPage space virt pte) :=
  ⟨fun _ => VmState.mapPage_area .., VmState.bareRegion_congr rfl⟩

theorem unmapPage : KeepsRegions state (state.unmapPage space virt) :=
  ⟨fun _ => VmState.unmapPage_area .., VmState.bareRegion_congr rfl⟩

theorem setSlot {region index : Nat} {page : Option Nat} :
    KeepsRegions state (state.setSlot region index page) :=
  ⟨fun _ => rfl, funext (VmState.bareRegion_setSlot region index page)⟩

theorem copyPage {old frame : Nat} :
    KeepsRegions state (vmCopyPage state space virt old frame) :=
  ⟨fun _ => VmState.mapPage_area .., VmState.bareRegion_congr rfl⟩

variable {read : VnodeRead Vnode} {frame : Nat}

theorem getpage {region : VmRegion w Vnode} {offset : Int} {page : Option Nat}
    (returns :
      region.getpage state space virt offset read frame = some (next, page)) :
    KeepsRegions state next := by
  unfold VmRegion.getpage at returns
  split at returns
  · cases returns
    exact ⟨fun _ => VmState.mapPage_area .., VmState.bareRegion_congr rfl⟩
  · split at returns
    · cases returns
    · unfold vmMmapVfsGetpage at returns
      split at returns
      · cases returns
        exact unmapPage
      · cases returns
        exact ⟨fun _ => VmState.mapPage_area .., VmState.bareRegion_congr rfl⟩

theorem vmGetpage
    {start : BitVec w} {mapping : VmMapping} {offset : BitVec 32} {rw : Bool}
    {result : Int}
    (returns :
      Mm.vmGetpage state space start mapping offset rw read frame =
        some (next, result)) : KeepsRegions state next := by
  unfold Mm.vmGetpage at returns
  split at returns
  · cases returns
    exact .refl state
  · split at returns
    · cases returns
    · dsimp only at returns
      split at returns
      · cases returns
      · split at returns
        · split at returns
          · cases returns
            exact (copyPage.trans setSlot).trans (mapPage _)
          · cases returns
            exact mapPage _
        · split at returns
          · cases returns
          next fetched isFetched =>
            cases returns
            exact (getpage isFetched).trans setSlot
          next fetched page isFetched =>
            cases returns
            exact ((getpage isFetched).trans setSlot).trans (mapPage _)

theorem vmPagefault {address : BitVec w} {rw : Bool} {result : Int}
    (returns :
      Mm.vmPagefault state space address rw read frame = some (next, result)) :
    KeepsRegions state next := by
  unfold Mm.vmPagefault at returns
  split at returns
  · cases returns
    exact .refl state
  · split at returns
    · cases returns
      exact .refl state
    · split at returns
      · cases returns
      · exact vmGetpage returns

end KeepsRegions

end Idylla.Mm
