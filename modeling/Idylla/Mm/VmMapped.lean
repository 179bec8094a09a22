import Idylla.Mm.VmSpaceClone

namespace Idylla.Mm

open Idylla.Lib

/-!
# Mapping memory into a running address space

`vm_mmap` at a fixed address that is free gives the space a block with a fresh
region and leaves all address spaces well formed.
-/

variable {w : Nat} {Vnode : Type}

/-- A well-formed state and a space whose area is a partition into pages. -/
structure SpaceReady
    (memory : UserMemory w) (state : VmState w Vnode)
    (space : Nat) : Prop where
  sound : VmSound state
  mapped : Mapped memory (state.spaces space).area
  aligned : PageAligned (state.spaces space).area

section Ready

variable {memory : UserMemory w} {state : VmState w Vnode} {space : Nat}
  {flags : BitVec 16} {region : VmRegion w Vnode} {block : SmaBlock w VmMapping}
  {area : SmaArea w VmMapping}

theorem Mapped.free_iff {area : SmaArea w VmMapping}
    (mapped : Mapped memory area) (address : Nat) :
    (∃ block ∈ area.freeList, block.Covers address) ↔
      area.Covers address ∧
        ¬ ∃ block ∈ area.usedList, block.Covers address := by
  constructor
  · rintro ⟨block, member, covers⟩
    refine ⟨(mapped.sound.tiles.exact _).mp
      ⟨block, List.mem_append_right _ member, covers⟩, ?_⟩
    rintro ⟨other, isUsed, otherCovers⟩
    have same := mapped.sound.covers_unique
      (List.mem_append_left _ isUsed) (List.mem_append_right _ member)
      otherCovers covers
    apply mapped.sound.used other isUsed
    rw [same]
    exact mapped.sound.free block member
  · rintro ⟨inArea, unused⟩
    obtain ⟨block, member, covers⟩ := (mapped.sound.tiles.exact _).mpr inArea
    rcases List.mem_append.mp member with isUsed | isFree
    · exact absurd ⟨block, isUsed, covers⟩ unused
    · exact ⟨block, isFree, covers⟩

theorem cells_mapRegion (pointer : Nat) :
    (mapRegion state space flags region block area).regions.cells pointer =
      if pointer = state.regions.next then some region
      else state.regions.cells pointer :=
  rfl

theorem area_mapRegion (other : Nat) :
    ((mapRegion state space flags region block area).spaces other).area =
      if other = space then
        setDataptr (state.spaces space).area block
          { flags := flags, region := state.regions.next, offset := 0 } area
      else (state.spaces other).area :=
  VmState.setArea_area ..

theorem VmSound.mapRegion (sound : VmSound state)
    (layout :
      ∀ mapping,
        Layout
          (setDataptr (state.spaces space).area block mapping area).usedList)
    (unused :
      ∀ piece ∈ area.freeList, piece.flags &&& smaFlagsUsed ≠ smaFlagsUsed)
    (isFresh : region.refs = 1 ∧ ∀ index, region.pages index = none)
    (sameSize : region.size = block.size)
    (hasVnode : region.ops = .vfs → region.vnode ≠ none) :
    VmSound (Mm.mapRegion state space flags region block area) := by
  have below {other : Nat} {otherBlock : SmaBlock w VmMapping}
      {otherMapping : VmMapping}
      (uses : state.Uses other otherBlock otherMapping) :
      otherMapping.region < state.regions.next := by
    obtain ⟨cell, isCell, -⟩ := sound.live _ _ _ uses
    exact Heap.lt_next isCell
  -- An old mapping has an old region.
  have oldCell {other : Nat} {otherBlock : SmaBlock w VmMapping}
      {otherMapping : VmMapping}
      (uses : state.Uses other otherBlock otherMapping) :
      (Mm.mapRegion state space flags region block area).regions.cells
          otherMapping.region =
        state.regions.cells otherMapping.region := by
    rw [cells_mapRegion, if_neg (Nat.ne_of_lt (below uses))]
  have newCell :
      (Mm.mapRegion state space flags region block area).regions.cells
          state.regions.next = some region := by
    rw [cells_mapRegion, if_pos rfl]
  refine ⟨?_, ?_, ?_, ?_, ?_, ?_, ?_, ?_, ?_⟩
  · intro other
    rw [area_mapRegion]
    split
    · exact layout _
    · exact sound.layout other
  · intro other
    rw [area_mapRegion]
    split
    · exact unused
    · exact sound.free_unused other
  · intro other otherBlock member
    rw [area_mapRegion] at member
    split at member
    · rw [setDataptr, mem_smaListAdd] at member
      rcases member with rfl | old
      · exact ⟨_, rfl⟩
      · exact sound.mapped space otherBlock old
    · exact sound.mapped other otherBlock member
  · intro other otherBlock otherMapping used
    rcases uses_mapRegion.mp used with ⟨-, rfl, rfl⟩ | old
    · exact ⟨region, newCell, sameSize, hasVnode⟩
    · rw [oldCell old]
      exact sound.live _ _ _ old
  · intro pointer cell isCell index outside
    rw [cells_mapRegion] at isCell
    split at isCell
    · rw [← Option.some.inj isCell]
      exact isFresh.2 index
    · exact sound.within pointer cell isCell index outside
  · intro other otherBlock otherMapping other' otherBlock' otherMapping'
      used used' same
    rcases uses_mapRegion.mp used with ⟨-, rfl, rfl⟩ | old <;>
      rcases uses_mapRegion.mp used' with ⟨-, rfl, rfl⟩ | old'
    · rfl
    · exact absurd same (Nat.ne_of_gt (below old'))
    · exact absurd same (Nat.ne_of_lt (below old))
    · exact sound.same_start _ _ _ _ _ _ old old' same
  · intro other otherBlock otherMapping other' otherBlock' otherMapping'
      cell used used' same isCell splits
    rcases uses_mapRegion.mp used with ⟨rfl, rfl, rfl⟩ | old <;>
      rcases uses_mapRegion.mp used' with ⟨rfl, rfl, rfl⟩ | old'
    · exact ⟨rfl, rfl⟩
    · exact absurd same (Nat.ne_of_gt (below old'))
    · exact absurd same (Nat.ne_of_lt (below old))
    · rw [oldCell old] at isCell
      exact sound.alone _ _ _ _ _ _ cell old old' same isCell splits
  · intro other otherBlock otherMapping cell used isCell splits
    rcases uses_mapRegion.mp used with ⟨-, rfl, rfl⟩ | old
    · rw [newCell] at isCell
      rw [← Option.some.inj isCell]
      exact isFresh.1
    · rw [oldCell old] at isCell
      exact sound.single _ _ _ cell old isCell splits
  · exact (sound.counted.allocRegion isFresh.2).congr rfl
      (VmState.slot_congr rfl)

/-- The addresses from `start` on are free in the area. -/
def FreeRange (area : SmaArea w VmMapping) (start length : BitVec w) : Prop :=
  ∀ address, start.toNat ≤ address → address < start.toNat + length.toNat →
    area.Covers address ∧ ∀ block ∈ area.usedList, ¬ block.Covers address

/-- What a fixed mapping of a free range leaves. -/
structure MapsRange
    (memory : UserMemory w) (state : VmState w Vnode) (space : Nat)
    (call : MmapCall w Vnode) (file : Option (File Vnode))
    (block : SmaBlock w VmMapping)
    (area : SmaArea w VmMapping) : Prop where
  fixed : FixedAlloc (state.spaces space).area area call.request.start
      call.request.length block
  after : vmSpaceMmap state space call =
      mapRegion state space call.request.flags
        (mmapRegion file call.request block) block area
  ready : SpaceReady memory (vmSpaceMmap state space call) space

theorem SpaceReady.mmap (wide : 32 ≤ w)
    (below : memory.start.toNat + memory.size.toNat < 2 ^ w)
    (above : memory.start ≠ 0) (ready : SpaceReady memory state space)
    {call : MmapCall w Vnode} {file : Option (File Vnode)}
    (passes : mmapFile call.filedes call.request = .ok file)
    (isFixed : mmapAllocFlags call.request = smaAllocFixed)
    (hasVnode :
      call.request.flags &&& mapAnonymous ≠ mapAnonymous →
        ∀ openFile, call.filedes call.request.fd = some openFile →
          openFile.vnode ≠ none)
    (free :
      FreeRange (state.spaces space).area call.request.start
        call.request.length) :
    ∃ block area, MapsRange memory state space call file block area := by
  have mapped := ready.mapped
  obtain ⟨startAligned, lengthAligned, opens⟩ := mmapFile_ok passes
  have positive := mmapFile_length passes
  obtain ⟨found, split, room, allocated⟩ :=
    @smaAlloc_of_freshIn _ _ (state.spaces space).area
      { flags := 0
        start := call.request.start
        size := call.request.length
        dataptr := none }
      mapped.sound mapped.separated (by rw [mapped.start]; exact above)
      (by rw [mapped.start, mapped.size]; exact below) positive
      (fun address covers => free address covers.1 covers.2) smaAllocFixed
  have carved :=
    smaCarve_carved (state.spaces space).area found call.request.start
      call.request.length
  obtain ⟨blockStart, freeAligned⟩ :=
    ready.aligned.carve mapped.sound split room
      (wholePages_of_umod wide startAligned)
      (wholePages_of_umod wide lengthAligned)
  have carvedArea := mapped.carve split positive room
  rcases isCarved : smaCarve (state.spaces space).area found call.request.start
        call.request.length with ⟨block, area⟩
  rw [isCarved] at carved blockStart freeAligned carvedArea allocated
  have fixed := smaAlloc_fixed allocated
  have after : vmSpaceMmap state space call =
        mapRegion state space call.request.flags
          (mmapRegion file call.request block) block area :=
    vmSpaceMmap_of_alloc passes (by rw [isFixed]; exact allocated)
  have afterMapped (mapping : VmMapping) :
      Mapped memory (setDataptr (state.spaces space).area block mapping area) :=
    carvedArea.setDataptr mapped.sound.usedSorted carved.used
  have afterAligned (mapping : VmMapping) :
      PageAligned (setDataptr (state.spaces space).area block mapping area) :=
    ready.aligned.setDataptr blockStart
      (by
        rw [fixed.size]
        exact wholePages_of_umod wide lengthAligned)
      freeAligned mapping
  refine ⟨block, area, fixed, after, ?_⟩
  rw [after]
  refine ⟨?_, ?_, ?_⟩
  · refine ready.sound.mapRegion
      (fun mapping => (afterMapped mapping).layout below (afterAligned mapping))
      carvedArea.free_unused ⟨rfl, fun _ => rfl⟩ rfl ?_
    intro isVfs
    have notAnonymous : call.request.flags &&& mapAnonymous ≠ mapAnonymous := by
      intro anonymous
      rw [mmapRegion, anonymous, if_pos (by decide)] at isVfs
      cases isVfs
    obtain ⟨openFile, rfl, isOpen⟩ := opens notAnonymous
    exact hasVnode notAnonymous openFile isOpen
  · rw [area_mapRegion, if_pos rfl]
    exact afterMapped _
  · rw [area_mapRegion, if_pos rfl]
    exact afterAligned _

end Ready

end Idylla.Mm
