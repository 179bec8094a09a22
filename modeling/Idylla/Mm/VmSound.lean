import Idylla.Mm.SmaPartition
import Idylla.Mm.VmPages

namespace Idylla.Mm

open Idylla.Lib

/-!
# Well-formed address spaces

What page faults, clones and user writes keep true of all address spaces:
the blocks of a space are apart, every block has a mapping with a live region
of its size, and a region that a clone would split belongs to one mapping.
-/

variable {w : Nat} {Vnode : Type}

/-- No address lies in both blocks. -/
def Apart (first second : SmaBlock w VmMapping) : Prop :=
  ∀ address, ¬ (first.Covers address ∧ second.Covers address)

/-- A used block of whole pages that ends inside the address space. -/
structure Shaped (block : SmaBlock w VmMapping) : Prop where
  nonempty : block.size ≠ 0
  start_aligned : block.start.toNat % PAGE_SIZE = 0
  size_aligned : block.size.toNat % PAGE_SIZE = 0
  fits : block.ends < 2 ^ w
  used : block.flags &&& smaFlagsUsed = smaFlagsUsed

/-- The used blocks of an address space. -/
structure Layout (blocks : List (SmaBlock w VmMapping)) : Prop where
  shaped : ∀ block ∈ blocks, Shaped block
  apart : blocks.Pairwise Apart

namespace Layout

variable {blocks : List (SmaBlock w VmMapping)}

theorem unique (layout : Layout blocks) {first second : SmaBlock w VmMapping}
    (firstMember : first ∈ blocks) (secondMember : second ∈ blocks)
    {address : Nat} (inFirst : first.Covers address)
    (inSecond : second.Covers address) : first = second := by
  have apart := layout.apart
  clear layout
  induction blocks with
  | nil =>
    simp at firstMember
  | cons block rest ih =>
    obtain ⟨headApart, restApart⟩ := List.pairwise_cons.mp apart
    rcases List.mem_cons.mp firstMember with rfl | firstRest
    · rcases List.mem_cons.mp secondMember with rfl | secondRest
      · rfl
      · exact absurd ⟨inFirst, inSecond⟩ (headApart second secondRest address)
    · rcases List.mem_cons.mp secondMember with rfl | secondRest
      · exact absurd ⟨inSecond, inFirst⟩ (headApart first firstRest address)
      · exact ih firstRest secondRest restApart

theorem smaListAdd (layout : Layout blocks) {block : SmaBlock w VmMapping}
    (shaped : Shaped block) (apart : ∀ other ∈ blocks, Apart block other) :
    Layout (Mm.smaListAdd block blocks) := by
  have permuted := smaListAdd_perm block blocks
  constructor
  · intro other member
    rcases List.mem_cons.mp (permuted.mem_iff.mp member) with
      rfl | inBlocks
    · exact shaped
    · exact layout.shaped other inBlocks
  · refine permuted.symm.pairwise
      (List.pairwise_cons.mpr ⟨apart, layout.apart⟩) ?_
    intro first second notBoth address both
    exact notBoth address ⟨both.2, both.1⟩

end Layout

namespace Shaped

variable {block : SmaBlock w VmMapping}

theorem pageAddress_toNat (shaped : Shaped block) {index : Nat}
    (bounded : index < pageCount block.size) :
    (pageAddress block.start index).toNat =
      block.start.toNat + index * PAGE_SIZE := by
  have fits := shaped.fits
  simp only [SmaBlock.ends] at fits
  have inside : index * PAGE_SIZE + PAGE_SIZE ≤ block.size.toNat := by
    simp only [pageCount, PAGE_SIZE] at bounded ⊢
    omega
  have small : (BitVec.ofNat w (index * PAGE_SIZE)).toNat =
      index * PAGE_SIZE := by
    rw [BitVec.toNat_ofNat, Nat.mod_eq_of_lt]
    omega
  rw [pageAddress, BitVec.toNat_add_of_lt (by
    omega), small]

theorem covers_pageAddress (shaped : Shaped block) {index : Nat}
    (bounded : index < pageCount block.size) :
    block.Covers (pageAddress block.start index).toNat := by
  rw [shaped.pageAddress_toNat bounded]
  simp only [SmaBlock.Covers, SmaBlock.ends, pageCount, PAGE_SIZE] at bounded ⊢
  omega

end Shaped

variable {block : SmaBlock w VmMapping}

theorem Shaped.congr {other : SmaBlock w VmMapping} (shaped : Shaped block)
    (sameStart : other.start = block.start) (sameSize : other.size = block.size)
    (used : other.flags &&& smaFlagsUsed = smaFlagsUsed) :
    Shaped other where
  nonempty := by rw [sameSize]; exact shaped.nonempty
  start_aligned := by rw [sameStart]; exact shaped.start_aligned
  size_aligned := by rw [sameSize]; exact shaped.size_aligned
  fits := by
    rw [SmaBlock.ends, sameStart, sameSize]
    exact shaped.fits
  used := used

variable {first second : SmaBlock w VmMapping}

theorem Apart.congr {other : SmaBlock w VmMapping} (apart : Apart first second)
    (sameStart : other.start = first.start)
    (sameSize : other.size = first.size) : Apart other second := by
  intro address both
  refine apart address ⟨?_, both.2⟩
  have inOther := both.1
  rw [SmaBlock.Covers, SmaBlock.ends, sameStart, sameSize] at inOther
  exact inOther

theorem Apart.symm (apart : Apart first second) : Apart second first :=
  fun address both => apart address ⟨both.2, both.1⟩

namespace Layout

variable {front behind : List (SmaBlock w VmMapping)}
  {block kept : SmaBlock w VmMapping}

theorem apart_others (layout : Layout (front ++ block :: behind))
    {other : SmaBlock w VmMapping} (member : other ∈ front ++ behind) :
    Apart block other := by
  obtain ⟨-, restApart, across⟩ := List.pairwise_append.mp layout.apart
  rcases List.mem_append.mp member with inFront | isBehind
  · exact (across other inFront block List.mem_cons_self).symm
  · exact (List.pairwise_cons.mp restApart).1 other isBehind

theorem not_mem_others (layout : Layout (front ++ block :: behind)) :
    block ∉ front ++ behind := by
  intro member
  have shaped := layout.shaped block (by simp)
  have start := SmaBlock.covers_start shaped.nonempty
  exact layout.apart_others member _ ⟨start, start⟩

theorem replace (layout : Layout (front ++ block :: behind))
    (sameStart : kept.start = block.start) (sameSize : kept.size = block.size)
    (sameFlags : kept.flags = block.flags) :
    Layout (front ++ kept :: behind) := by
  have shaped := layout.shaped
  have keptApart : ∀ other ∈ front ++ behind, Apart kept other :=
    fun other member => (layout.apart_others member).congr sameStart sameSize
  obtain ⟨frontApart, restApart, across⟩ := List.pairwise_append.mp layout.apart
  constructor
  · intro other member
    rcases List.mem_append.mp member with inFront | inRest
    · exact shaped other (List.mem_append_left _ inFront)
    · rcases List.mem_cons.mp inRest with rfl | isBehind
      · have blockShaped := shaped block (by simp)
        exact blockShaped.congr sameStart sameSize
          (by rw [sameFlags]; exact blockShaped.used)
      · exact shaped other (by simp [isBehind])
  · refine List.pairwise_append.mpr
      ⟨frontApart, List.pairwise_cons.mpr ⟨?_, ?_⟩, ?_⟩
    · exact fun other isBehind =>
        keptApart other (List.mem_append_right _ isBehind)
    · exact (List.pairwise_cons.mp restApart).2
    · intro first inFront second inRest
      rcases List.mem_cons.mp inRest with rfl | isBehind
      · exact (keptApart first (List.mem_append_left _ inFront)).symm
      · exact across first inFront second (List.mem_cons_of_mem _ isBehind)

end Layout

variable {blocks : List (SmaBlock w VmMapping)} {index : Nat}

theorem Layout.pageAddress_unique (layout : Layout blocks)
    (firstMember : first ∈ blocks) (secondMember : second ∈ blocks)
    {other : Nat} (firstBounded : index < pageCount first.size)
    (secondBounded : other < pageCount second.size)
    (same : pageAddress first.start index = pageAddress second.start other) :
    first = second ∧ index = other := by
  have firstShaped := layout.shaped first firstMember
  have secondShaped := layout.shaped second secondMember
  have isSame : first = second := by
    refine layout.unique firstMember secondMember
      (firstShaped.covers_pageAddress firstBounded) ?_
    rw [same]
    exact secondShaped.covers_pageAddress secondBounded
  subst isSame
  have numbers := congrArg BitVec.toNat same
  rw [firstShaped.pageAddress_toNat firstBounded,
    firstShaped.pageAddress_toNat secondBounded] at numbers
  simp only [PAGE_SIZE] at numbers
  exact ⟨rfl, by omega⟩

/-- What a successful fixed allocation returns and leaves. -/
structure FixedAlloc
    (area after : SmaArea w VmMapping) (addr size : BitVec w)
    (block : SmaBlock w VmMapping) : Prop where
  start : block.start = addr
  size : block.size = size
  used : block.flags &&& smaFlagsUsed = smaFlagsUsed
  free : ∀ piece ∈ after.freeList,
      piece.flags = 0 ∨ ∃ old ∈ area.freeList, piece.flags = old.flags

variable {area : SmaArea w VmMapping}

theorem smaAlloc_fixed {after : SmaArea w VmMapping} {addr size : BitVec w}
    (allocated : smaAlloc area addr size smaAllocFixed = some (block, after)) :
    FixedAlloc area after addr size block := by
  obtain ⟨found, isFound, carved⟩ := Option.map_eq_some_iff.mp allocated
  have noFirstFit : smaFirstFit area size smaAllocFixed = none := by
    simp [smaFirstFit, smaAllocFixed]
  have hinted : smaHinted area addr size = some found := by
    simpa [smaFind, noFirstFit] using isFound
  obtain ⟨hint, isFirst, -⟩ := smaHinted_some hinted
  obtain ⟨split, hits, -⟩ := firstFound_some isFirst
  have member : found.item ∈ area.freeList := by
    rw [split]
    simp
  have kept : ∀ piece ∈ found.passed ++ found.rest, piece ∈ area.freeList := by
    intro piece inPieces
    rw [split]
    simp only [List.mem_append, List.mem_cons] at inPieces ⊢
    exact inPieces.imp_right .inr
  have oldFlags {shrunk : SmaBlock w VmMapping}
      (sameFlags : shrunk.flags = found.item.flags) :
      ∀ piece ∈ found.passed ++ shrunk :: found.rest,
        piece.flags = 0 ∨ ∃ old ∈ area.freeList, piece.flags = old.flags := by
    intro piece inPieces
    rcases List.mem_append.mp inPieces with passed | shrunkOrRest
    · exact .inr ⟨piece, kept piece (List.mem_append_left _ passed), rfl⟩
    · rcases List.mem_cons.mp shrunkOrRest with rfl | rest
      · exact .inr ⟨found.item, member, sameFlags⟩
      · exact .inr ⟨piece, kept piece (List.mem_append_right _ rest), rfl⟩
  by_cases atStart : found.item.start = addr
  · rw [smaCarve_front (.inr atStart)] at carved
    unfold smaTakeFront at carved
    by_cases whole : found.item.size = size
    · simp only [whole, ↓reduceIte, Prod.mk.injEq] at carved
      obtain ⟨rfl, rfl⟩ := carved
      exact ⟨atStart, rfl, flags_or_used _,
        fun piece inPieces => .inr ⟨piece, kept piece inPieces, rfl⟩⟩
    · simp only [whole, ↓reduceIte, Prod.mk.injEq] at carved
      obtain ⟨rfl, rfl⟩ := carved
      exact ⟨atStart, rfl, BitVec.and_self, oldFlags rfl⟩
  · rw [smaCarve_middle hits hint atStart] at carved
    obtain ⟨rfl, rfl⟩ := carved
    have shrunkFlags :=
      @oldFlags { found.item with size := addr - found.item.start } rfl
    refine ⟨rfl, rfl, BitVec.and_self, ?_⟩
    intro piece inPieces
    split at inPieces
    · exact shrunkFlags piece inPieces
    · rcases List.mem_cons.mp
        ((smaListAdd_perm _ _).mem_iff.mp inPieces) with rfl | old
      · exact .inl rfl
      · exact shrunkFlags piece old

/-- A used block of an address space with its mapping. -/
def VmState.Uses
    (state : VmState w Vnode) (space : Nat) (block : SmaBlock w VmMapping)
    (mapping : VmMapping) : Prop :=
  block ∈ (state.spaces space).area.usedList ∧ block.dataptr = some mapping

/-- What the operations on address spaces rely on and keep. -/
structure VmSound (state : VmState w Vnode) : Prop where
  layout : ∀ space, Layout (state.spaces space).area.usedList
  free_unused : ∀ space, ∀ block ∈ (state.spaces space).area.freeList,
      block.flags &&& smaFlagsUsed ≠ smaFlagsUsed
  mapped : ∀ space, ∀ block ∈ (state.spaces space).area.usedList,
      ∃ mapping, block.dataptr = some mapping
  live : ∀ space block mapping, state.Uses space block mapping →
      ∃ region,
        state.regions.cells mapping.region = some region ∧
          region.size = block.size ∧
          (region.ops = .vfs → region.vnode ≠ none)
  within : ∀ pointer region, state.regions.cells pointer = some region →
      ∀ index, pageCount region.size ≤ index → region.pages index = none
  same_start : ∀ space block mapping otherSpace other otherMapping,
      state.Uses space block mapping →
      state.Uses otherSpace other otherMapping →
      mapping.region = otherMapping.region →
      block.start = other.start
  alone : ∀ space block mapping otherSpace other otherMapping region,
      state.Uses space block mapping →
      state.Uses otherSpace other otherMapping →
      mapping.region = otherMapping.region →
      state.regions.cells mapping.region = some region →
      sharesRegion mapping region = false →
      space = otherSpace ∧ block = other
  single : ∀ space block mapping region, state.Uses space block mapping →
      state.regions.cells mapping.region = some region →
      sharesRegion mapping region = false →
      region.refs = 1
  counted : Counted state

/-- A region without its pages. -/
def VmRegion.bare (region : VmRegion w Vnode) : VmRegion w Vnode :=
  { region with pages := fun _ => none }

namespace VmSound

variable {state after : VmState w Vnode}

/--
Well-formedness depends on the areas, on the regions without their pages, on
the extent of these pages and on the counts.
-/
theorem transport (sound : VmSound state)
    (sameAreas : ∀ space, (after.spaces space).area = (state.spaces space).area)
    (sameRegions :
      ∀ pointer,
        (after.regions.cells pointer).map VmRegion.bare =
          (state.regions.cells pointer).map VmRegion.bare)
    (within :
      ∀ pointer region, after.regions.cells pointer = some region →
        ∀ index, pageCount region.size ≤ index → region.pages index = none)
    (counted : Counted after) : VmSound after := by
  have uses : ∀ space block mapping,
        after.Uses space block mapping ↔ state.Uses space block mapping := by
    intro space block mapping
    rw [VmState.Uses, VmState.Uses, sameAreas]
  have before : ∀ pointer region, after.regions.cells pointer = some region →
        ∃ old,
          state.regions.cells pointer = some old ∧ old.bare = region.bare := by
    intro pointer region isRegion
    have same := sameRegions pointer
    rw [isRegion, Option.map_some] at same
    exact Option.map_eq_some_iff.mp same.symm
  have fields : ∀ {first second : VmRegion w Vnode}, first.bare = second.bare →
        first.refs = second.refs ∧ first.ops = second.ops ∧
          first.size = second.size ∧ first.vnode = second.vnode := by
    intro first second same
    simp only [VmRegion.bare, VmRegion.mk.injEq] at same
    exact ⟨same.1, same.2.1, same.2.2.2.1, same.2.2.2.2.1⟩
  have splits : ∀ {first second : VmRegion w Vnode} {mapping : VmMapping},
        first.bare = second.bare →
        sharesRegion mapping second = false →
        sharesRegion mapping first = false := by
    intro first second mapping same apart
    unfold sharesRegion at apart ⊢
    rw [(fields same).2.2.2]
    exact apart
  refine ⟨?_, ?_, ?_, ?_, within, ?_, ?_, ?_, counted⟩
  · intro space
    rw [sameAreas]
    exact sound.layout space
  · intro space
    rw [sameAreas]
    exact sound.free_unused space
  · intro space
    rw [sameAreas]
    exact sound.mapped space
  · intro space block mapping used
    obtain ⟨old, isOld, sameSize, hasVnode⟩ :=
      sound.live space block mapping ((uses ..).mp used)
    have same := sameRegions mapping.region
    rw [isOld, Option.map_some] at same
    obtain ⟨region, isRegion, isBare⟩ := Option.map_eq_some_iff.mp same
    obtain ⟨-, sameOps, regionSize, sameVnode⟩ := fields isBare
    refine ⟨region, isRegion, regionSize.trans sameSize, ?_⟩
    rw [sameOps, sameVnode]
    exact hasVnode
  · intro space block mapping otherSpace other otherMapping used otherUsed
    exact sound.same_start _ _ _ _ _ _ ((uses ..).mp used)
      ((uses ..).mp otherUsed)
  · intro space block mapping otherSpace other otherMapping region used
      otherUsed sameRegion isRegion splitting
    obtain ⟨old, isOld, isBare⟩ := before _ region isRegion
    exact sound.alone _ _ _ _ _ _ old ((uses ..).mp used)
      ((uses ..).mp otherUsed) sameRegion isOld (splits isBare splitting)
  · intro space block mapping region used isRegion splitting
    obtain ⟨old, isOld, isBare⟩ := before _ region isRegion
    rw [← (fields isBare).1]
    exact sound.single _ _ _ old ((uses ..).mp used) isOld
      (splits isBare splitting)

theorem congr (sound : VmSound state)
    (sameAreas : ∀ space, (after.spaces space).area = (state.spaces space).area)
    (sameRegions : after.regions = state.regions)
    (samePages : after.pages = state.pages) : VmSound after :=
  sound.transport sameAreas (by simp [sameRegions])
    (by rw [sameRegions]; exact sound.within)
    (sound.counted.congr samePages (VmState.slot_congr sameRegions))

theorem setSlot (sound : VmSound state)
    {middle : VmState w Vnode} {pointer index : Nat} {region : VmRegion w Vnode}
    {page : Option Nat} (isRegion : state.regions.cells pointer = some region)
    (bounded : index < pageCount region.size)
    (sameAreas :
      ∀ space, (middle.spaces space).area = (state.spaces space).area)
    (sameRegions : middle.regions = state.regions)
    (counted : Counted (middle.setSlot pointer index page)) :
    VmSound (middle.setSlot pointer index page) := by
  have middleRegion : middle.regions.cells pointer = some region := by
    rw [sameRegions]
    exact isRegion
  have cell := VmState.setSlot_cells_same middleRegion index page
  refine sound.transport ?_ ?_ ?_ counted
  · intro space
    exact sameAreas space
  · intro other
    by_cases same : other = pointer
    · rw [same, cell, isRegion]
      rfl
    · rw [VmState.setSlot_cells_other same, sameRegions]
  · intro other changed isChanged position outside
    by_cases same : other = pointer
    · rw [same, cell, Option.some.injEq] at isChanged
      subst isChanged
      have elsewhere : position ≠ index := by
        rintro rfl
        exact absurd bounded (Nat.not_lt.mpr outside)
      simpa [elsewhere] using
        sound.within pointer region isRegion position outside
    · rw [VmState.setSlot_cells_other same, sameRegions] at isChanged
      exact sound.within other changed isChanged position outside

end VmSound

/-- What `getpage` of a region fills a page with, at an offset. -/
def pageSource (ops : VmOps) (vnode : Option Vnode) (offset : Int)
    (read : VnodeRead Vnode) : Option (Except Errno PageBytes) :=
  match ops with
  | .anon => some (.ok zeroPage)
  | .vfs => vnode.map fun file => (read file offset).map filePage

/-- The page of a region at an index, as `getpage` fills it. -/
def VmRegion.source (region : VmRegion w Vnode) (index : Nat)
    (read : VnodeRead Vnode) : Option (Except Errno PageBytes) :=
  pageSource region.ops region.vnode
    (region.offset + (index * PAGE_SIZE : Nat)) read

/-- The outcomes of `vm_getpage` for one page of a mapping. -/
inductive Served
    (state : VmState w Vnode) (space : Nat) (start : BitVec w)
    (mapping : VmMapping) (region : VmRegion w Vnode) (index : Nat) (rw : Bool)
    (read : VnodeRead Vnode)
    (frame : Nat) : VmState w Vnode → Int → Prop where
  | refused (readOnly : mapping.has protWrite = false)
      (write : rw = true) :
      Served state space start mapping region index rw read frame state (-1)
  | shows {page : Nat} (holds : region.pages index = some page)
      (isPrivate : mapping.has mapShared = false)
      (reads : rw = false) :
      Served state space start mapping region index rw read frame
        (state.mapPage space (pageAddress start index)
          { frame := page, user := true, rw := false }) 0
  | copies {page : Nat} (holds : region.pages index = some page)
      (isPrivate : mapping.has mapShared = false)
      (writes : rw = true) :
      Served state space start mapping region index rw read frame
        (((vmCopyPage state space (pageAddress start index) page
          frame).setSlot mapping.region index (some frame)).mapPage space
          (pageAddress start index)
          { frame := frame, user := true, rw := true }) 0
  | fetches {content : PageBytes}
      (missing : region.pages index = none ∨ mapping.has mapShared = true)
      (isContent : region.source index read = some (.ok content)) :
      Served state space start mapping region index rw read frame
        ((((state.newPage frame content).mapPage space (pageAddress start index)
          { frame := frame, user := false, rw := true }).setSlot
          mapping.region index (some frame)).mapPage space
          (pageAddress start index)
          { frame := frame, user := true, rw := true }) 0
  | fails {err : Errno}
      (missing : region.pages index = none ∨ mapping.has mapShared = true)
      (isError : region.source index read = some (.error err)) :
      Served state space start mapping region index rw read frame
        ((state.unmapPage space (pageAddress start index)).setSlot
          mapping.region index none) (-1)

section Faults

variable {state next : VmState w Vnode} {space index frame : Nat}
  {start : BitVec w} {mapping : VmMapping} {region : VmRegion w Vnode}
  {offset : BitVec 32} {rw : Bool} {read : VnodeRead Vnode} {result : Int}

theorem pageidx_of_offset (atPage : offset.toInt = (index * PAGE_SIZE : Nat)) :
    offset.toInt.tdiv PAGE_SIZE = index := by
  rw [atPage, Int.natCast_mul]
  exact Int.mul_tdiv_cancel _ (by decide)

theorem getpage_eq (virt : BitVec w) :
    region.getpage state space virt (index * PAGE_SIZE : Nat) read frame =
      (region.source index read).map fun source =>
        match source with
        | .error _ => (state.unmapPage space virt, none)
        | .ok content =>
          ((state.newPage frame content).mapPage space virt
            { frame := frame, user := false, rw := true },
            some frame) := by
  unfold VmRegion.getpage VmRegion.source pageSource
  cases region.ops with
  | anon =>
    rfl
  | vfs =>
    cases region.vnode with
    | none =>
      rfl
    | some vnode =>
      simp only [vmMmapVfsGetpage, Option.map_some]
      cases read vnode (region.offset + (index * PAGE_SIZE : Nat)) <;> rfl

theorem vmGetpage_served
    (live : state.regions.cells mapping.region = some region)
    (atPage : offset.toInt = (index * PAGE_SIZE : Nat))
    (bounded : index < pageCount region.size)
    (returns :
      vmGetpage state space start mapping offset rw read frame =
        some (next, result)) :
    Served state space start mapping region index rw read frame next
      result := by
  have pageidx := pageidx_of_offset atPage
  have virt :
      start + BitVec.ofInt w offset.toInt = pageAddress start index := by
    rw [atPage, BitVec.ofInt_natCast, pageAddress]
  unfold vmGetpage at returns
  by_cases refused : ¬ mapping.has protWrite ∧ rw
  · rw [if_pos refused, Option.some.injEq, Prod.mk.injEq] at returns
    obtain ⟨rfl, rfl⟩ := returns
    exact .refused (by simpa using refused.1) refused.2
  · rw [if_neg refused] at returns
    simp only [live, pageidx, virt, Int.toNat_natCast] at returns
    rw [if_neg (by omega)] at returns
    have fetched : (region.pages index = none ∨ mapping.has mapShared = true) →
        ((region.getpage state space (pageAddress start index)
          offset.toInt read frame).bind fun got =>
            got.2.elim
              (some (got.1.setSlot mapping.region index none, (-1 : Int)))
              fun page =>
                some
                  ((got.1.setSlot mapping.region index
                    (some page)).mapPage space (pageAddress start index)
                    { frame := page, user := true, rw := true }, 0)) =
            some (next, result) →
        Served state space start mapping region index rw read frame next
          result := by
      intro missing isFetched
      rw [atPage, getpage_eq] at isFetched
      cases source : region.source index read with
      | none =>
        simp [source] at isFetched
      | some content =>
        cases content with
        | error err =>
          rw [source, Option.map_some, Option.bind_some] at isFetched
          cases isFetched
          exact .fails missing source
        | ok content =>
          rw [source, Option.map_some, Option.bind_some] at isFetched
          cases isFetched
          exact .fetches missing source
    cases holds : region.pages index with
    | none =>
      rw [holds] at returns
      refine fetched (.inl holds) ?_
      dsimp only at returns
      split at returns
      next isGot => cases returns
      next isGot => rw [isGot]; exact returns
      next isGot => rw [isGot]; exact returns
    | some page =>
      rw [holds] at returns
      cases shared : mapping.has mapShared with
      | true =>
        rw [shared] at returns
        refine fetched (.inr shared) ?_
        dsimp only at returns
        split at returns
        next isGot => cases returns
        next isGot => rw [isGot]; exact returns
        next isGot => rw [isGot]; exact returns
      | false =>
        rw [shared] at returns
        dsimp only at returns
        by_cases writes : rw = true
        · rw [if_pos writes, Option.some.injEq, Prod.mk.injEq] at returns
          obtain ⟨rfl, rfl⟩ := returns
          exact .copies holds shared writes
        · rw [if_neg writes, Option.some.injEq, Prod.mk.injEq] at returns
          obtain ⟨rfl, rfl⟩ := returns
          exact .shows holds shared (by simpa using writes)

theorem vmGetpage_defined
    (live : state.regions.cells mapping.region = some region)
    (hasVnode : region.ops = .vfs → region.vnode ≠ none)
    (atPage : offset.toInt = (index * PAGE_SIZE : Nat))
    (bounded : index < pageCount region.size) :
    ∃ next result,
      vmGetpage state space start mapping offset rw read frame =
        some (next, result) := by
  have pageidx := pageidx_of_offset atPage
  have hasSource : ∃ source, region.source index read = some source := by
    unfold VmRegion.source pageSource
    cases ops : region.ops with
    | anon =>
      exact ⟨_, rfl⟩
    | vfs =>
      obtain ⟨vnode, isVnode⟩ := Option.ne_none_iff_exists'.mp (hasVnode ops)
      simp [isVnode]
  obtain ⟨source, isSource⟩ := hasSource
  have fetches :=
    @getpage_eq _ _ state space index frame region read
      (start + BitVec.ofInt w offset.toInt)
  rw [isSource, Option.map_some, ← atPage] at fetches
  unfold vmGetpage
  by_cases refused : ¬ mapping.has protWrite ∧ rw
  · exact ⟨_, _, if_pos refused⟩
  · rw [if_neg refused]
    simp only [live, pageidx, Int.toNat_natCast]
    rw [if_neg (by omega), fetches]
    cases region.pages index with
    | none =>
      cases source <;> exact ⟨_, _, rfl⟩
    | some page =>
      cases mapping.has mapShared with
      | true =>
        cases source <;> exact ⟨_, _, rfl⟩
      | false =>
        cases rw <;> exact ⟨_, _, rfl⟩

theorem vmGetpage_outside
    (live : state.regions.cells mapping.region = some region)
    (outside :
      offset.toInt.tdiv PAGE_SIZE < 0 ∨
        pageCount region.size ≤ (offset.toInt.tdiv PAGE_SIZE).toNat)
    (returns :
      vmGetpage state space start mapping offset rw read frame =
        some (next, result)) : next = state ∧ result ≠ 0 := by
  unfold vmGetpage at returns
  by_cases refused : ¬ mapping.has protWrite ∧ rw
  · rw [if_pos refused, Option.some.injEq, Prod.mk.injEq] at returns
    exact ⟨returns.1.symm, by omega⟩
  · rw [if_neg refused] at returns
    simp only [live] at returns
    rw [if_pos outside] at returns
    simp at returns

end Faults

variable {address : BitVec w}

theorem smaGetblock_some (isFound : smaGetblock area address = some block) :
    (block ∈ area.usedList ∨ block ∈ area.freeList) ∧
      block.hits address = true := by
  obtain ⟨found, isFirst, rfl⟩ := Option.map_eq_some_iff.mp isFound
  rcases Option.or_eq_some_iff.mp isFirst with inUsed | ⟨-, inFree⟩
  · exact ⟨.inl (firstFound_mem inUsed), (firstFound_some inUsed).2.1⟩
  · exact ⟨.inr (firstFound_mem inFree), (firstFound_some inFree).2.1⟩

theorem pageSize_toNat (wide : 32 ≤ w) : (pageSize w).toNat = PAGE_SIZE := by
  have large : 2 ^ 32 ≤ 2 ^ w := Nat.pow_le_pow_right (by omega) wide
  rw [pageSize, BitVec.toNat_ofNat, Nat.mod_eq_of_lt (by omega)]
  rfl

theorem pageRoundDown_toNat (wide : 32 ≤ w) (address : BitVec w) :
    (pageRoundDown address).toNat = address.toNat / PAGE_SIZE * PAGE_SIZE := by
  have part : (address % pageSize w).toNat = address.toNat % PAGE_SIZE := by
    rw [BitVec.toNat_umod, pageSize_toNat wide]
  rw [pageRoundDown, BitVec.toNat_sub_of_le, part]
  · simp only [PAGE_SIZE]
    omega
  · exact Nat.mod_le _ _

theorem pageOffset_cases (wide : 32 ≤ w) (distance : BitVec w) :
    (∃ index : Nat,
      ((pageRoundDown distance).setWidth 32).toInt = (index * PAGE_SIZE : Nat) ∧
        (distance.toNat < 2 ^ 31 → index = distance.toNat / PAGE_SIZE)) ∨
      (2 ^ 31 ≤ distance.toNat ∧
        ((pageRoundDown distance).setWidth 32).toInt.tdiv PAGE_SIZE < 0) := by
  have cut : ((pageRoundDown distance).setWidth 32).toNat =
        distance.toNat / PAGE_SIZE * PAGE_SIZE % 2 ^ 32 := by
    rw [BitVec.toNat_setWidth, pageRoundDown_toNat wide]
  generalize (pageRoundDown distance).setWidth 32 = offset at cut ⊢
  rw [BitVec.toInt_eq_toNat_cond]
  by_cases small : 2 * offset.toNat < 2 ^ 32
  · refine .inl ⟨offset.toNat / PAGE_SIZE, ?_, ?_⟩
    · simp only [PAGE_SIZE] at cut ⊢
      omega
    · simp only [PAGE_SIZE] at cut ⊢
      omega
  · have far : 2 ^ 31 ≤ distance.toNat := by
      simp only [PAGE_SIZE] at cut
      omega
    rw [if_neg small]
    have negative : ((offset.toNat : Int) - (2 ^ 32 : Nat)) =
          -(((2 ^ 32 - offset.toNat : Nat) : Int)) := by
      omega
    have wholePages : PAGE_SIZE ≤ 2 ^ 32 - offset.toNat := by
      simp only [PAGE_SIZE] at cut ⊢
      omega
    have quotient : 0 < (2 ^ 32 - offset.toNat) / PAGE_SIZE :=
      Nat.div_pos wholePages (by decide)
    rw [negative, Int.neg_tdiv, ← Int.ofNat_tdiv]
    omega

theorem Layout.page_of_hits (wide : 32 ≤ w) (layout : Layout blocks)
    (member : block ∈ blocks) (hits : block.hits address = true) :
    (address.toNat - block.start.toNat) / PAGE_SIZE < pageCount block.size ∧
      pageAddress block.start
          ((address.toNat - block.start.toNat) / PAGE_SIZE) =
        pageRoundDown address := by
  have shaped := layout.shaped block member
  obtain ⟨lower, upper⟩ :=
    (SmaBlock.hits_iff_covers (Nat.le_of_lt shaped.fits)).mp hits |>.1
  have aligned := shaped.start_aligned
  have sizeAligned := shaped.size_aligned
  have bounded : (address.toNat - block.start.toNat) / PAGE_SIZE <
        pageCount block.size := by
    simp only [SmaBlock.ends, pageCount, PAGE_SIZE] at *
    omega
  refine ⟨bounded, ?_⟩
  apply BitVec.eq_of_toNat_eq
  rw [shaped.pageAddress_toNat bounded, pageRoundDown_toNat wide]
  simp only [PAGE_SIZE] at *
  omega

theorem Layout.pageAddress_of_hits (wide : 32 ≤ w) (layout : Layout blocks)
    (member : block ∈ blocks) (hits : block.hits address = true)
    (near : address.toNat - block.start.toNat < 2 ^ 31)
    (isIndex :
      (address - block.start).toNat < 2 ^ 31 →
      index = (address - block.start).toNat / PAGE_SIZE) :
    pageAddress block.start index = pageRoundDown address := by
  have shaped := layout.shaped block member
  have lower :=
    ((SmaBlock.hits_iff_covers (Nat.le_of_lt shaped.fits)).mp hits).1.1
  have distance :
      (address - block.start).toNat = address.toNat - block.start.toNat :=
    BitVec.toNat_sub_of_le lower
  rw [distance] at isIndex
  rw [isIndex near]
  exact (layout.page_of_hits wide member hits).2

/-- The page index of a fault, from the offset that is cut to 32 bits. -/
def faultIndex (start address : BitVec w) : Nat :=
  (((pageRoundDown (address - start)).setWidth 32).toInt.tdiv PAGE_SIZE).toNat

variable {state next : VmState w Vnode} {space : Nat} {read : VnodeRead Vnode}

/--
A page fault either changes nothing or serves one page of the mapping that
holds the address; less than two gigabytes into the mapping it is the page of
the address.
-/
theorem VmSound.vmPagefault_served (wide : 32 ≤ w) (sound : VmSound state)
    {frame : Nat} {rw : Bool} {result : Int}
    (returns :
      vmPagefault state space address rw read frame = some (next, result)) :
    (next = state ∧ result ≠ 0) ∨
      ∃ block mapping region index,
        state.Uses space block mapping ∧ block.hits address = true ∧
          state.regions.cells mapping.region = some region ∧
          index < pageCount region.size ∧
          index = faultIndex block.start address ∧
          Served state space block.start mapping region index rw read
            frame next result ∧
          (address.toNat - block.start.toNat < 2 ^ 31 →
            pageAddress block.start index = pageRoundDown address) := by
  unfold vmPagefault at returns
  cases isFound : smaGetblock (state.spaces space).area address with
  | none =>
    simp only [isFound, Option.some.injEq, Prod.mk.injEq] at returns
    exact .inl ⟨returns.1.symm, by omega⟩
  | some block =>
    obtain ⟨onList, hits⟩ := smaGetblock_some isFound
    simp only [isFound] at returns
    by_cases unused : block.flags &&& smaFlagsUsed ≠ smaFlagsUsed
    · rw [if_pos unused, Option.some.injEq, Prod.mk.injEq] at returns
      exact .inl ⟨returns.1.symm, by omega⟩
    rw [if_neg unused] at returns
    have isUsed : block ∈ (state.spaces space).area.usedList :=
      onList.resolve_right fun inFree =>
        unused (sound.free_unused space block inFree)
    obtain ⟨mapping, isMapping⟩ := sound.mapped space block isUsed
    simp only [isMapping] at returns
    have uses : state.Uses space block mapping := ⟨isUsed, isMapping⟩
    obtain ⟨region, live, sameSize, hasVnode⟩ :=
      sound.live space block mapping uses
    rcases pageOffset_cases wide (address - block.start) with
      ⟨index, atPage, isIndex⟩ | ⟨-, negative⟩
    · by_cases bounded : index < pageCount region.size
      · refine .inr ⟨block, mapping, region, index, uses, hits, live,
          bounded, ?_, vmGetpage_served live atPage bounded returns, ?_⟩
        · rw [faultIndex, pageidx_of_offset atPage, Int.toNat_natCast]
        intro near
        exact (sound.layout space).pageAddress_of_hits wide isUsed hits
          near isIndex
      · exact .inl (vmGetpage_outside live
          (.inr (by rw [pageidx_of_offset atPage]; omega)) returns)
    · exact .inl (vmGetpage_outside live (.inl negative) returns)

theorem Layout.firstFound_hits (layout : Layout blocks)
    (member : block ∈ blocks) (hits : block.hits address = true) :
    ∃ found,
      firstFound (fun other => other.hits address) blocks = some found ∧
        found.item = block := by
  have covers : ∀ {other}, other ∈ blocks → other.hits address = true →
        other.Covers address.toNat :=
    fun isMember isHit =>
      ((SmaBlock.hits_iff_covers
        (Nat.le_of_lt (layout.shaped _ isMember).fits)).mp isHit).1
  cases isFound : firstFound (fun other => other.hits address) blocks with
  | none =>
    have misses := firstFound_eq_none_iff.mp isFound block member
    rw [hits] at misses
    simp at misses
  | some found =>
    obtain ⟨-, foundHits, -⟩ := firstFound_some isFound
    exact ⟨found, rfl,
      layout.unique (firstFound_mem isFound) member
        (covers (firstFound_mem isFound) foundHits) (covers member hits)⟩

theorem Layout.smaGetblock_eq (layout : Layout area.usedList)
    (member : block ∈ area.usedList) (hits : block.hits address = true) :
    smaGetblock area address = some block := by
  obtain ⟨found, isFound, isBlock⟩ := layout.firstFound_hits member hits
  rw [smaGetblock, isFound, Option.some_or, Option.map_some, isBlock]

variable {region : VmRegion w Vnode}

/--
A page fault less than two gigabytes into a mapping serves the page of the
address.
-/
theorem VmSound.vmPagefault_near (wide : 32 ≤ w) (sound : VmSound state)
    {mapping : VmMapping} (uses : state.Uses space block mapping)
    (hits : block.hits address = true)
    (live : state.regions.cells mapping.region = some region)
    (near : address.toNat - block.start.toNat < 2 ^ 31)
    (rw : Bool) (read : VnodeRead Vnode) (frame : Nat) :
    ∃ next result,
      vmPagefault state space address rw read frame = some (next, result) ∧
        (address.toNat - block.start.toNat) / PAGE_SIZE <
          pageCount region.size ∧
        pageAddress block.start
            ((address.toNat - block.start.toNat) / PAGE_SIZE) =
          pageRoundDown address ∧
        Served state space block.start mapping region
          ((address.toNat - block.start.toNat) / PAGE_SIZE) rw read frame
          next result := by
  have layout := sound.layout space
  obtain ⟨member, isMapping⟩ := uses
  have shaped := layout.shaped block member
  obtain ⟨cell, isCell, sameSize, hasVnode⟩ :=
    sound.live _ _ _ ⟨member, isMapping⟩
  rw [live, Option.some.injEq] at isCell
  subst isCell
  have distance :
      (address - block.start).toNat = address.toNat - block.start.toNat :=
    BitVec.toNat_sub_of_le
      ((SmaBlock.hits_iff_covers (Nat.le_of_lt shaped.fits)).mp hits).1.1
  have bounded : (address.toNat - block.start.toNat) / PAGE_SIZE <
        pageCount region.size := by
    rw [sameSize]
    exact (layout.page_of_hits wide member hits).1
  rcases pageOffset_cases wide (address - block.start) with
    ⟨index, atPage, isIndex⟩ | ⟨far, -⟩
  · rw [distance] at isIndex
    obtain rfl := isIndex near
    obtain ⟨next, result, getpage⟩ :=
      vmGetpage_defined live hasVnode atPage bounded
    refine ⟨next, result, ?_, bounded, ?_,
      vmGetpage_served live atPage bounded getpage⟩
    · unfold vmPagefault
      rw [layout.smaGetblock_eq member hits]
      simp only [shaped.used, isMapping, ne_eq, not_true_eq_false, ↓reduceIte]
      exact getpage
    · exact (layout.page_of_hits wide member hits).2
  · omega

theorem VmRegion.source_readable
    (readable : ∀ file offset, ∃ data, read file offset = .ok data)
    {err : Errno} : region.source index read ≠ some (.error err) := by
  unfold VmRegion.source pageSource
  cases region.ops with
  | anon =>
    simp
  | vfs =>
    cases region.vnode with
    | none =>
      simp
    | some vnode =>
      obtain ⟨data, isData⟩ := readable vnode
        (region.offset + (index * PAGE_SIZE : Nat))
      rw [Option.map_some, isData]
      simp [Except.map]

theorem VmSound.served (sound : VmSound state)
    {frame : Nat} {start : BitVec w} {mapping : VmMapping} {rw : Bool}
    {result : Int} (live : state.regions.cells mapping.region = some region)
    (bounded : index < pageCount region.size)
    (unused : state.pages frame = none)
    (served :
      Served state space start mapping region index rw read frame next result) :
    VmSound next := by
  have mapped : ∀ {middle : VmState w Vnode} (virt : BitVec w) (pte : Pte),
        VmSound middle → VmSound (middle.mapPage space virt pte) :=
    fun virt pte middleSound =>
      middleSound.congr (fun _ => VmState.mapPage_area ..) rfl rfl
  cases served with
  | refused readOnly write =>
    exact sound
  | shows holds isPrivate reads =>
    exact mapped _ _ sound
  | copies holds isPrivate writes =>
    refine mapped _ _ (sound.setSlot live bounded ?_ rfl ?_)
    · simp [vmCopyPage]
    · exact sound.counted.copySlot live
        ((VmState.slot_of_live live index).trans holds) unused space _
  | @fetches content missing isContent =>
    refine mapped _ _ (sound.setSlot live bounded ?_ rfl ?_)
    · simp
    · exact (sound.counted.newSlot live unused content index).congr rfl
        (VmState.slot_congr rfl)
  | fails missing isError =>
    refine sound.setSlot live bounded ?_ rfl ?_
    · simp
    · exact (sound.counted.clearSlot live index).congr rfl
        (VmState.slot_congr rfl)

theorem VmState.store_some {byte : BitVec 8}
    (writes : state.store space address byte = some next) :
    ∃ pte,
      state.translate space address = some pte ∧ pte.rw = true ∧
        next.regions = state.regions ∧ next.pages = state.pages ∧
        next.spaces = state.spaces ∧
        ∀ frame offset,
          next.bytes frame offset =
            if frame = pte.frame ∧ offset = pageOffset address then byte
            else state.bytes frame offset := by
  unfold VmState.store at writes
  cases translated : state.translate space address with
  | none =>
    simp [translated] at writes
  | some pte =>
    simp only [translated] at writes
    split at writes
    next allowed =>
      rw [Option.some.injEq] at writes
      subst writes
      refine ⟨pte, rfl, allowed.2, rfl, rfl, rfl, ?_⟩
      intro frame offset
      by_cases here : frame = pte.frame <;> simp [here]
    · simp at writes

theorem VmSound.store (sound : VmSound state) {byte : BitVec 8}
    (writes : state.store space address byte = some next) : VmSound next := by
  obtain ⟨pte, -, -, sameRegions, samePages, sameSpaces, -⟩ :=
    VmState.store_some writes
  exact sound.congr (fun _ => by rw [sameSpaces]) sameRegions samePages

end Idylla.Mm
