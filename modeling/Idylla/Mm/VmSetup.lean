import Idylla.Mm.VmMmapBounds
import Idylla.Mm.VmSound

namespace Idylla.Mm

open Idylla.Lib

/-!
# Address spaces before they run

Fresh address spaces into which `vm_mmap` has mapped memory are well formed
and have no page in them, as long as every call stays in its free block.
-/

variable {w : Nat} {Vnode : Type}

/-- All address spaces fresh, nothing mapped, no page in use. -/
def VmState.boot (memory : UserMemory w)
    (bytes : Nat → PageBytes) : VmState w Vnode where
  regions := .empty
  pages := fun _ => none
  bytes := bytes
  spaces := fun _ => vmSpaceCreate memory

/-- A call of `vm_mmap` for one of the address spaces. -/
structure SpaceMmap (w : Nat) (Vnode : Type) where
  space : Nat
  call : MmapCall w Vnode

/-- What `vm_mmap` sees of an address space. -/
def VmState.mmapState (state : VmState w Vnode)
    (space : Nat) : MmapState w Vnode where
  regions := state.regions
  area := (state.spaces space).area

/-- `vm_mmap` in one of the address spaces. -/
def vmSpaceMmap (state : VmState w Vnode) (space : Nat)
    (call : MmapCall w Vnode) : VmState w Vnode :=
  let mapped :=
    (vmMmap call.filedes call.request (state.mmapState space)).1
  { state with regions := mapped.regions }.setArea space mapped.area

/-- `vm_mmap` in one of the address spaces as a transition. -/
def SetUpStep (state : VmState w Vnode) (label : SpaceMmap w Vnode)
    (after : VmState w Vnode) : Prop :=
  after = vmSpaceMmap state label.space label.call

/-- The call stays in its block, and open descriptors have a vnode. -/
def SetUpStays (state : VmState w Vnode) (label : SpaceMmap w Vnode) : Prop :=
  MmapStaysInBlock (state.mmapState label.space) label.call ∧
    ∀ fd file, label.call.filedes fd = some file → file.vnode ≠ none

/-- A number of bytes that is a number of whole pages. -/
def WholePages (size : BitVec w) : Prop :=
  size.toNat % PAGE_SIZE = 0

theorem wholePages_of_umod (wide : 32 ≤ w) {size : BitVec w}
    (aligned : size % pageSize w = 0) : WholePages size := by
  have isZero := congrArg BitVec.toNat aligned
  rw [BitVec.toNat_umod, pageSize_toNat wide] at isZero
  exact isZero

/-- All blocks of an area start and end between pages. -/
def PageAligned (area : SmaArea w VmMapping) : Prop :=
  ∀ block ∈ area.usedList ++ area.freeList,
    WholePages block.start ∧ WholePages block.size

theorem PageAligned.carve
    {area : SmaArea w VmMapping} {found : Found (SmaBlock w VmMapping)}
    {addr size : BitVec w} (aligned : PageAligned area) (sound : Sound area)
    (split : area.freeList = found.passed ++ found.item :: found.rest)
    (room : Room found.item addr size) (addrAligned : WholePages addr)
    (sizeAligned : WholePages size) :
    WholePages (smaCarve area found addr size).1.start ∧
      ∀ piece ∈ (smaCarve area found addr size).2.freeList,
        WholePages piece.start ∧ WholePages piece.size := by
  have itemFree : found.item ∈ area.freeList := by
    simp [split]
  obtain ⟨itemStart, itemSize⟩ :=
    aligned found.item (List.mem_append_right _ itemFree)
  have takenSize := (smaCarve_carved area found addr size).size
  have takenStart : WholePages (smaCarve area found addr size).1.start := by
    rcases smaCarve_cases area found room with
      ⟨same, -⟩ | ⟨same, -⟩
    · rw [same]
      unfold smaTakeFront
      by_cases whole : found.item.size = size
      · simp only [whole, ↓reduceIte]
        exact itemStart
      · simp only [whole, ↓reduceIte]
        exact itemStart
    · rw [same]
      exact addrAligned
  refine ⟨takenStart, ?_⟩
  intro piece member
  rcases smaCarve_remainder sound split room member with old | remainder
  · refine aligned piece (List.mem_append_right _ ?_)
    rw [split]
    simp only [List.mem_append, List.mem_cons] at old ⊢
    exact old.imp_right .inr
  · have starts := remainder.starts
    have stops := remainder.stops
    simp only [SmaBlock.ends, takenSize] at starts stops
    simp only [WholePages, PAGE_SIZE] at *
    constructor <;> omega

theorem PageAligned.setDataptr
    {before area : SmaArea w VmMapping} {block : SmaBlock w VmMapping}
    (aligned : PageAligned before) (start : WholePages block.start)
    (size : WholePages block.size)
    (free :
      ∀ piece ∈ area.freeList, WholePages piece.start ∧ WholePages piece.size)
    (mapping : VmMapping) :
    PageAligned (setDataptr before block mapping area) := by
  intro other member
  rcases List.mem_append.mp member with inUsed | inFree
  · rcases mem_smaListAdd.mp inUsed with rfl | old
    · exact ⟨start, size⟩
    · exact aligned other (List.mem_append_left _ old)
  · exact free other inFree

/-- What a run of mappings keeps true of all address spaces. -/
structure SetUp
    (memory : UserMemory w)
    (state : VmState w Vnode) : Prop where
  areas : ∀ space, Mapped memory (state.spaces space).area
  aligned : ∀ space, PageAligned (state.spaces space).area
  mapped : ∀ space, ∀ block ∈ (state.spaces space).area.usedList,
      ∃ mapping, block.dataptr = some mapping
  live : ∀ space block mapping, state.Uses space block mapping →
      ∃ region,
        state.regions.cells mapping.region = some region ∧
          region.size = block.size ∧
          (region.ops = .vfs → region.vnode ≠ none)
  unshared : ∀ pointer region, state.regions.cells pointer = some region →
      region.refs = 1 ∧ ∀ index, region.pages index = none
  alone : ∀ space block mapping otherSpace other otherMapping,
      state.Uses space block mapping →
      state.Uses otherSpace other otherMapping →
      mapping.region = otherMapping.region →
      space = otherSpace ∧ block = other
  no_pages : ∀ frame, state.pages frame = none
  no_entries : ∀ space address, (state.spaces space).pageTable address = none

theorem vmMmap_cases (filedes : Int → Option (File Vnode))
    (request : MmapRequest w) (state : MmapState w Vnode) :
    (vmMmap filedes request state).1 = state ∨
      ∃ file found,
        mmapFile filedes request = .ok file ∧
          smaFind state.area request.start request.length
            (mmapAllocFlags request) = some found ∧
          (vmMmap filedes request state).1 =
            { regions :=
                state.regions.alloc
                  (mmapRegion file request
                    (smaCarve state.area found request.start request.length).1)
              area :=
                setDataptr state.area
                  (smaCarve state.area found request.start request.length).1
                  { flags := request.flags
                    region := state.regions.next
                    offset := 0 }
                  (smaCarve state.area found request.start
                    request.length).2 } := by
  unfold vmMmap
  cases passes : mmapFile filedes request with
  | error errno =>
    exact .inl rfl
  | ok file =>
    cases isFound : smaFind state.area request.start request.length
          (mmapAllocFlags request) with
    | none =>
      simp [smaAlloc, isFound]
    | some found =>
      simp [smaAlloc, isFound]

variable {filedes : Int → Option (File Vnode)}

theorem mmapFile_ok {request : MmapRequest w} {file : Option (File Vnode)}
    (passes : mmapFile filedes request = .ok file) :
    request.start % pageSize w = 0 ∧ request.length % pageSize w = 0 ∧
      (request.flags &&& mapAnonymous ≠ mapAnonymous →
        ∃ openFile,
          file = some openFile ∧ filedes request.fd = some openFile) := by
  unfold mmapFile at passes
  split at passes
  · simp at passes
  next checked =>
    split at passes
    · simp at passes
    · simp only [not_or, Decidable.not_not] at checked
      refine ⟨checked.1, checked.2.2, ?_⟩
      intro notAnonymous
      rw [if_pos notAnonymous] at passes
      split at passes
      · simp at passes
      · cases isOpen : filedes request.fd with
        | none =>
          simp [isOpen] at passes
        | some openFile =>
          simp only [isOpen, Except.ok.injEq] at passes
          exact ⟨openFile, passes.symm, rfl⟩

theorem mmapRegion_vnode {request : MmapRequest w}
    {file : Option (File Vnode)} (passes : mmapFile filedes request = .ok file)
    (hasVnode : ∀ fd openFile,
      filedes fd = some openFile → openFile.vnode ≠ none)
    (block : SmaBlock w VmMapping) :
    (mmapRegion file request block).ops = .vfs →
      (mmapRegion file request block).vnode ≠ none := by
  intro isVfs
  have notAnonymous : request.flags &&& mapAnonymous ≠ mapAnonymous := by
    intro anonymous
    rw [mmapRegion, anonymous, if_pos (by decide)] at isVfs
    simp at isVfs
  obtain ⟨openFile, rfl, isOpen⟩ := (mmapFile_ok passes).2.2 notAnonymous
  exact hasVnode request.fd openFile isOpen

theorem setUp_boot (wide : 32 ≤ w) (memory : UserMemory w)
    (bytes : Nat → PageBytes) :
    SetUp memory (VmState.boot memory bytes : VmState w Vnode) where
  areas := fun _ => mapped_fresh memory
  aligned := by
    intro space block member
    have start : pageRoundDown memory.start = memory.start := by
      simp [pageRoundDown, memory.startAligned]
    have size : pageRoundUp memory.size = memory.size := by
      simp [pageRoundUp, memory.sizeAligned]
    have isAll : block =
          { flags := 0
            start := memory.start
            size := memory.size
            dataptr := none } := by
      simpa [VmState.boot, vmSpaceCreate, vmSpaceArea, smaAreaCreate, start,
        size] using member
    rw [isAll]
    exact ⟨wholePages_of_umod wide memory.startAligned,
      wholePages_of_umod wide memory.sizeAligned⟩
  mapped := by
    intro space block member
    simp [VmState.boot, vmSpaceCreate, vmSpaceArea, smaAreaCreate] at member
  live := by
    rintro space block mapping ⟨member, -⟩
    simp [VmState.boot, vmSpaceCreate, vmSpaceArea, smaAreaCreate] at member
  unshared := by
    intro pointer region isRegion
    simp [VmState.boot, Heap.empty] at isRegion
  alone := by
    rintro space block mapping otherSpace other otherMapping ⟨member, -⟩
    simp [VmState.boot, vmSpaceCreate, vmSpaceArea, smaAreaCreate] at member
  no_pages := fun _ => rfl
  no_entries := fun _ _ => rfl

section Mmap

variable {memory : UserMemory w} {state : VmState w Vnode} {space : Nat}
  {request : MmapRequest w} {block : SmaBlock w VmMapping}
  {area : SmaArea w VmMapping}

/-- The state after a mapping of a fresh region in a block. -/
def mapRegion (state : VmState w Vnode) (space : Nat) (flags : BitVec 16)
    (region : VmRegion w Vnode) (block : SmaBlock w VmMapping)
    (area : SmaArea w VmMapping) : VmState w Vnode :=
  (state.allocRegion region).setArea space
    (setDataptr (state.spaces space).area block
      { flags := flags, region := state.regions.next, offset := 0 } area)

theorem uses_mapRegion
    {flags : BitVec 16} {region : VmRegion w Vnode} {otherSpace : Nat}
    {other : SmaBlock w VmMapping} {otherMapping : VmMapping} :
    (mapRegion state space flags region block area).Uses otherSpace other
        otherMapping ↔
      (otherSpace = space ∧
          otherMapping =
            { flags := flags, region := state.regions.next, offset := 0 } ∧
          other = { block with dataptr := some otherMapping }) ∨
        state.Uses otherSpace other otherMapping := by
  have area_eq :
      ((mapRegion state space flags region block area).spaces otherSpace).area =
        if otherSpace = space then
          setDataptr (state.spaces space).area block
            { flags := flags, region := state.regions.next, offset := 0 } area
        else (state.spaces otherSpace).area :=
    VmState.setArea_area ..
  rw [VmState.Uses, VmState.Uses, area_eq]
  by_cases here : otherSpace = space
  · subst here
    rw [if_pos rfl, setDataptr, mem_smaListAdd]
    constructor
    · rintro ⟨rfl | old, isMapping⟩
      · obtain rfl := Option.some.inj isMapping
        exact .inl ⟨rfl, rfl, rfl⟩
      · exact .inr ⟨old, isMapping⟩
    · rintro (⟨-, rfl, rfl⟩ | ⟨old, isMapping⟩)
      · exact ⟨.inl rfl, rfl⟩
      · exact ⟨.inr old, isMapping⟩
  · simp [here]

theorem SetUp.mapRegion (setUp : SetUp memory state)
    {flags : BitVec 16} {region : VmRegion w Vnode}
    (mapped :
      ∀ mapping,
        Mapped memory (setDataptr (state.spaces space).area block mapping area))
    (aligned :
      ∀ mapping,
        PageAligned (setDataptr (state.spaces space).area block mapping area))
    (isFresh : region.refs = 1 ∧ ∀ index, region.pages index = none)
    (sameSize : region.size = block.size)
    (hasVnode : region.ops = .vfs → region.vnode ≠ none) :
    SetUp memory (mapRegion state space flags region block area) := by
  have area_eq : ∀ other,
        ((Mm.mapRegion state space flags region block area).spaces other).area =
          if other = space then
            setDataptr (state.spaces space).area block
              { flags := flags, region := state.regions.next, offset := 0 } area
          else (state.spaces other).area :=
    fun _ => VmState.setArea_area ..
  have below : ∀ {other otherBlock otherMapping},
        state.Uses other otherBlock otherMapping →
        otherMapping.region < state.regions.next := by
    intro other otherBlock otherMapping uses
    obtain ⟨cell, isCell, -⟩ := setUp.live _ _ _ uses
    exact Heap.lt_next isCell
  refine ⟨?_, ?_, ?_, ?_, ?_, ?_, setUp.no_pages, ?_⟩
  · intro other
    rw [area_eq]
    split
    · exact mapped _
    · exact setUp.areas other
  · intro other
    rw [area_eq]
    split
    · exact aligned _
    · exact setUp.aligned other
  · intro other otherBlock member
    rw [area_eq] at member
    split at member
    · rw [setDataptr, mem_smaListAdd] at member
      rcases member with rfl | old
      · exact ⟨_, rfl⟩
      · exact setUp.mapped space otherBlock old
    · exact setUp.mapped other otherBlock member
  · intro other otherBlock otherMapping used
    rcases uses_mapRegion.mp used with ⟨-, rfl, rfl⟩ | old
    · exact ⟨region, Heap.cells_alloc_next, sameSize, hasVnode⟩
    · obtain ⟨cell, isCell, rest⟩ := setUp.live _ _ _ old
      exact ⟨cell, Heap.cells_alloc_of_some isCell, rest⟩
  · intro pointer cell isCell
    by_cases isNew : pointer = state.regions.next
    · rw [isNew] at isCell
      obtain rfl := Option.some.inj (Heap.cells_alloc_next.symm.trans isCell)
      exact isFresh
    · refine setUp.unshared pointer cell ?_
      simpa [Mm.mapRegion, VmState.allocRegion, Heap.alloc, isNew] using isCell
  · intro other otherBlock otherMapping other' otherBlock' otherMapping'
      used used' same
    rcases uses_mapRegion.mp used with ⟨rfl, rfl, rfl⟩ | old <;>
      rcases uses_mapRegion.mp used' with ⟨rfl, rfl, rfl⟩ | old'
    · exact ⟨rfl, rfl⟩
    · exact absurd same (Nat.ne_of_gt (below old'))
    · exact absurd same (Nat.ne_of_lt (below old))
    · exact setUp.alone _ _ _ _ _ _ old old' same
  · intro other address
    exact (congrFun (VmState.setArea_pageTable ..) address).trans
      (setUp.no_entries other address)

theorem vmSpaceMmap_cases (state : VmState w Vnode) (space : Nat)
    (call : MmapCall w Vnode) :
    vmSpaceMmap state space call = state ∨
      ∃ file found,
        mmapFile call.filedes call.request = .ok file ∧
          smaFind (state.spaces space).area call.request.start
            call.request.length (mmapAllocFlags call.request) =
            some found ∧
          vmSpaceMmap state space call =
            mapRegion state space call.request.flags
              (mmapRegion file call.request
                (smaCarve (state.spaces space).area found
                  call.request.start call.request.length).1)
              (smaCarve (state.spaces space).area found
                call.request.start call.request.length).1
              (smaCarve (state.spaces space).area found
                call.request.start call.request.length).2 := by
  rcases vmMmap_cases call.filedes call.request (state.mmapState space) with
    unchanged | ⟨file, found, passes, isFound, changed⟩
  · have sameSpaces : (state.setArea space (state.spaces space).area).spaces =
          state.spaces := by
      funext other
      by_cases here : other = space <;> simp [VmState.setArea, here]
    refine .inl ?_
    unfold vmSpaceMmap
    rw [unchanged]
    exact congrArg (fun spaces => { state with spaces := spaces }) sameSpaces
  · refine .inr ⟨file, found, passes, isFound, ?_⟩
    unfold vmSpaceMmap
    rw [changed]
    rfl

variable {call : MmapCall w Vnode}

theorem vmSpaceMmap_of_alloc {file : Option (File Vnode)}
    (passes : mmapFile call.filedes call.request = .ok file)
    (allocated :
      smaAlloc (state.spaces space).area call.request.start
        call.request.length (mmapAllocFlags call.request) =
        some (block, area)) :
    vmSpaceMmap state space call =
      mapRegion state space call.request.flags
        (mmapRegion file call.request block) block area := by
  unfold vmSpaceMmap vmMmap
  rw [passes]
  dsimp only [VmState.mmapState]
  rw [allocated]
  simp only [VmOps.init_ok]
  rfl

theorem vmSpaceMmap_of_refused
    (refused :
      smaAlloc (state.spaces space).area call.request.start
        call.request.length (mmapAllocFlags call.request) = none) :
    vmSpaceMmap state space call = state := by
  rcases vmSpaceMmap_cases state space call with
    same | ⟨file, found, -, isFound, -⟩
  · exact same
  · rw [smaAlloc, isFound] at refused
    cases refused

theorem vmSpaceMmap_of_error {errno : Errno}
    (refused : mmapFile call.filedes call.request = .error errno) :
    vmSpaceMmap state space call = state := by
  rcases vmSpaceMmap_cases state space call with
    same | ⟨file, found, passes, -, -⟩
  · exact same
  · rw [refused] at passes
    cases passes

theorem SetUp.vmSpaceMmap (wide : 32 ≤ w) (setUp : SetUp memory state)
    {label : SpaceMmap w Vnode} (stays : SetUpStays state label) :
    SetUp memory (vmSpaceMmap state label.space label.call) := by
  obtain ⟨space, call⟩ := label
  obtain ⟨inBlock, hasVnode⟩ := stays
  have mapped := setUp.areas space
  rcases vmSpaceMmap_cases state space call with
    unchanged | ⟨file, found, passes, isFound, isMapped⟩
  · rw [unchanged]
    exact setUp
  · obtain ⟨startAligned, lengthAligned, -⟩ := mmapFile_ok passes
    have split := smaFind_split isFound
    have room := room_of_not_overruns isFound (inBlock ⟨file, passes⟩)
    have carved :=
      smaCarve_carved (state.spaces space).area found call.request.start
        call.request.length
    obtain ⟨blockStart, freeAligned⟩ :=
      (setUp.aligned space).carve mapped.sound split room
        (wholePages_of_umod wide startAligned)
        (wholePages_of_umod wide lengthAligned)
    have blockSize : WholePages
          (smaCarve (state.spaces space).area found
            call.request.start call.request.length).1.size := by
      rw [carved.size]
      exact wholePages_of_umod wide lengthAligned
    rw [isMapped]
    refine setUp.mapRegion ?_ ?_ ⟨rfl, fun _ => rfl⟩ rfl
      (mmapRegion_vnode passes hasVnode _)
    · intro mapping
      exact (mapped.carve split (mmapFile_length passes) room).setDataptr
        mapped.sound.usedSorted carved.used
    · exact (setUp.aligned space).setDataptr blockStart blockSize freeAligned

theorem uses_vmSpaceMmap
    {otherSpace : Nat} {other : SmaBlock w VmMapping} {mapping : VmMapping}
    (used : (vmSpaceMmap state space call).Uses otherSpace other mapping) :
    mapping.flags = call.request.flags ∨
      state.Uses otherSpace other mapping := by
  rcases vmSpaceMmap_cases state space call with
    unchanged | ⟨file, found, -, -, isMapped⟩
  · exact .inr (unchanged ▸ used)
  · rw [isMapped] at used
    rcases uses_mapRegion.mp used with ⟨-, rfl, -⟩ | old
    · exact .inl rfl
    · exact .inr old

theorem Mapped.layout {area : SmaArea w VmMapping} (mapped : Mapped memory area)
    (below : memory.start.toNat + memory.size.toNat < 2 ^ w)
    (aligned : PageAligned area) : Layout area.usedList := by
  have tiles := mapped.sound.tiles
  refine ⟨?_, (List.pairwise_append.mp tiles.disjoint).1⟩
  intro block member
  have inArea : block ∈ area.usedList ++ area.freeList :=
    List.mem_append_left _ member
  obtain ⟨start, size⟩ := aligned block inArea
  have nonempty : block.size ≠ 0 := fun empty =>
    mapped.areaNonempty (mapped.sound.nonempty block inArea empty)
  refine ⟨nonempty, start, size, ?_, ?_⟩
  · have last : block.Covers (block.ends - 1) := by
      have first := SmaBlock.covers_start nonempty
      simp only [SmaBlock.Covers] at first ⊢
      omega
    have inMemory := (tiles.exact _).mp ⟨block, inArea, last⟩
    rw [SmaArea.Covers, mapped.start, mapped.size] at inMemory
    omega
  · exact flags_eq_used (mapped.sound.used block member)

theorem Mapped.free_unused {area : SmaArea w VmMapping}
    (mapped : Mapped memory area) (block : SmaBlock w VmMapping)
    (member : block ∈ area.freeList) :
    block.flags &&& smaFlagsUsed ≠ smaFlagsUsed := by
  rw [mapped.sound.free block member]
  decide

theorem SetUp.sound (below : memory.start.toNat + memory.size.toNat < 2 ^ w)
    (setUp : SetUp memory state) :
    VmSound state where
  layout := by
    intro space
    exact (setUp.areas space).layout below (setUp.aligned space)
  free_unused := by
    intro space
    exact (setUp.areas space).free_unused
  mapped := setUp.mapped
  live := setUp.live
  within := fun pointer region isRegion index _ =>
    (setUp.unshared pointer region isRegion).2 index
  same_start := by
    intro space block mapping otherSpace other otherMapping used otherUsed same
    obtain ⟨-, rfl⟩ := setUp.alone _ _ _ _ _ _ used otherUsed same
    rfl
  alone := fun _ _ _ _ _ _ _ used otherUsed same _ _ =>
    setUp.alone _ _ _ _ _ _ used otherUsed same
  single := fun _ _ _ region _ isRegion _ =>
    (setUp.unshared _ region isRegion).1
  counted := by
    intro frame
    refine ⟨[], Nat.zero_le _, ?_⟩
    intro pointer index holds
    unfold VmState.slot at holds
    cases isCell : state.regions.cells pointer with
    | none =>
      simp [isCell] at holds
    | some region =>
      rw [isCell, Option.bind_some,
        (setUp.unshared pointer region isCell).2] at holds
      simp at holds

end Mmap

theorem boot_staysInBlock
    {bytes : Nat → PageBytes} {space : Nat} {call : MmapCall 32 Vnode}
    (fits : call.request.start.toNat + call.request.length.toNat ≤ 0xC0000000) :
    MmapStaysInBlock ((VmState.boot userMemory32 bytes).mmapState space)
      call := by
  rintro _ ⟨_, block, member, _, short, _⟩
  obtain rfl := List.mem_singleton.mp member
  have overrun :
      0xC0000000 < call.request.start.toNat + call.request.length.toNat :=
    short
  omega

end Idylla.Mm
