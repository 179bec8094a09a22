import Idylla.Mm.SmaPartition
import Idylla.Mm.VmMmap

namespace Idylla.Mm

open Idylla.Lib

/-!
# Where mapped blocks can lie

`vm_mmap` relies on the region allocator for the bounds of a block.  As long as
memory is only mapped, two free blocks never touch, so a block that reaches
past the free block it is cut from meets a used block or leaves user memory.
-/

section Separation

variable {w : Nat} {Data : Type}

/-- No free block starts where another free block ends. -/
def Separated (area : SmaArea w Data) : Prop :=
  ∀ first ∈ area.freeList, ∀ second ∈ area.freeList,
    first.ends ≠ second.start.toNat

/-- A free piece that is left of `block` when `taken` is cut out of it. -/
structure Remainder
    (block taken piece : SmaBlock w Data) : Prop where
  lower : block.start.toNat ≤ piece.start.toNat
  upper : piece.ends ≤ block.ends
  starts :
    piece.start.toNat = block.start.toNat ∨ piece.start.toNat = taken.ends
  stops : piece.ends = taken.start.toNat ∨ piece.ends = block.ends

variable {piece : SmaBlock w Data}

variable {area : SmaArea w Data} {found : Found (SmaBlock w Data)}
  {size : BitVec w}

theorem smaTakeFront_remainder (fits : found.item.ends ≤ 2 ^ w)
    (room : size ≤ found.item.size)
    (member : piece ∈ (smaTakeFront area found size).2.freeList) :
    piece ∈ found.passed ++ found.rest ∨
      Remainder found.item (smaTakeFront area found size).1 piece := by
  unfold smaTakeFront at member ⊢
  by_cases whole : found.item.size = size
  · simp only [whole, ↓reduceIte] at member
    exact .inl member
  · simp only [whole, ↓reduceIte] at member ⊢
    have smaller : size.toNat < found.item.size.toNat := by
      have different : found.item.size.toNat ≠ size.toNat := by
        simpa [BitVec.toNat_eq] using whole
      rw [BitVec.le_def] at room
      omega
    obtain ⟨newSize, newStart⟩ := SmaBlock.cutFront_toNat fits smaller
    simp only [List.mem_append, List.mem_cons] at member ⊢
    rcases member with inPassed | rfl | inRest
    · exact .inl (.inl inPassed)
    · right
      constructor <;> simp only [SmaBlock.ends, newSize, newStart, or_true] <;>
        omega
    · exact .inl (.inr inRest)

variable {addr : BitVec w}

theorem smaTakeMiddle_remainder (fits : found.item.ends ≤ 2 ^ w)
    (inside : found.item.hits addr = true)
    (room : addr.toNat + size.toNat ≤ found.item.ends)
    (member : piece ∈ (smaTakeMiddle area found addr size).2.freeList) :
    piece ∈ found.passed ++ found.rest ∨
      Remainder found.item (smaTakeMiddle area found addr size).1 piece := by
  obtain ⟨covers, noWrap⟩ := (SmaBlock.hits_iff_covers fits).mp inside
  obtain ⟨newSize, newEnd, lastSize⟩ :=
    SmaBlock.cutMiddle_toNat covers noWrap room
  have shrunk : Remainder found.item (smaTakeMiddle area found addr size).1
        { found.item with size := addr - found.item.start } := by
    simp only [SmaBlock.Covers, SmaBlock.ends] at covers room
    constructor <;>
      simp only [smaTakeMiddle, SmaBlock.ends, newSize, true_or] <;>
      omega
  have behind : Remainder found.item (smaTakeMiddle area found addr size).1
        { flags := 0
          start := addr + size
          size := found.item.stop - (addr + size)
          dataptr := none } := by
    simp only [SmaBlock.Covers, SmaBlock.ends] at covers room lastSize
    constructor <;>
      simp only [smaTakeMiddle, SmaBlock.ends, newEnd, lastSize, or_true] <;>
      omega
  have pieces : piece ∈ found.passed ∨
        piece = { found.item with size := addr - found.item.start } ∨
        piece ∈ found.rest ∨
        piece =
          { flags := 0
            start := addr + size
            size := found.item.stop - (addr + size)
            dataptr := none } := by
    simp only [smaTakeMiddle] at member
    split at member
    · rcases List.mem_append.mp member with inPassed | inCons
      · exact .inl inPassed
      · rcases List.mem_cons.mp inCons with isShrunk | inRest
        · exact .inr (.inl isShrunk)
        · exact .inr (.inr (.inl inRest))
    · rcases mem_smaListAdd.mp member with isLast | inOld
      · exact .inr (.inr (.inr isLast))
      · rcases List.mem_append.mp inOld with inPassed | inCons
        · exact .inl inPassed
        · rcases List.mem_cons.mp inCons with isShrunk | inRest
          · exact .inr (.inl isShrunk)
          · exact .inr (.inr (.inl inRest))
  rcases pieces with inPassed | rfl | inRest | rfl
  · exact .inl (List.mem_append_left _ inPassed)
  · exact .inr shrunk
  · exact .inl (List.mem_append_right _ inRest)
  · exact .inr behind

theorem smaCarve_remainder (sound : Sound area)
    (split : area.freeList = found.passed ++ found.item :: found.rest)
    (room : Room found.item addr size)
    (member : piece ∈ (smaCarve area found addr size).2.freeList) :
    piece ∈ found.passed ++ found.rest ∨
      Remainder found.item (smaCarve area found addr size).1 piece := by
  have itemMember : found.item ∈ area.usedList ++ area.freeList := by
    simp [split]
  have fits := sound.ends_le itemMember
  rcases smaCarve_cases area found room with
    ⟨same, large⟩ | ⟨same, inside, _, short⟩
  · rw [same] at member ⊢
    exact smaTakeFront_remainder fits large member
  · rw [same] at member ⊢
    exact smaTakeMiddle_remainder fits inside short member

/-- Allocation in room keeps free blocks apart. -/
theorem Separated.carve (separated : Separated area) (sound : Sound area)
    (areaNonempty : area.size ≠ 0)
    (split : area.freeList = found.passed ++ found.item :: found.rest)
    (positive : size ≠ 0) (room : Room found.item addr size) :
    Separated (smaCarve area found addr size).2 := by
  have carved := smaCarve_carved area found addr size
  have soundAfter := (sound.carve split positive room).1
  have remainder :=
    fun piece
      (member :
        piece ∈ (smaCarve area found addr size).2.freeList) =>
      smaCarve_remainder sound split room member
  generalize smaCarve area found addr size = result at *
  -- a free block after the call is not empty and shares no address with
  -- the new block
  have takenMember : result.1 ∈ result.2.usedList := by
    simp [carved.used]
  have nonempty : ∀ piece ∈ result.2.freeList, piece.size.toNat ≠ 0 := by
    intro piece member empty
    refine areaNonempty ?_
    rw [← carved.areaSize]
    refine soundAfter.nonempty piece (by simp [member]) ?_
    simpa [BitVec.toNat_eq] using empty
  have takenNonempty : result.1.size.toNat ≠ 0 := by
    rw [carved.size]
    simpa [BitVec.toNat_eq] using positive
  have apart : ∀ piece ∈ result.2.freeList, ∀ address,
        piece.Covers address → ¬ result.1.Covers address := by
    intro piece member address covers takenCovers
    have same :=
      soundAfter.covers_unique (by simp [member])
        (by simp [takenMember]) covers takenCovers
    have free := soundAfter.free piece member
    rw [same] at free
    exact soundAfter.used result.1 takenMember free
  have wasFree :
      ∀ piece ∈ found.passed ++ found.rest, piece ∈ area.freeList := by
    intro piece member
    rw [split]
    rcases List.mem_append.mp member with inPassed | inRest
    · simp [inPassed]
    · simp [inRest]
  have itemFree : found.item ∈ area.freeList := by
    simp [split]
  intro first firstMember second secondMember touch
  have firstNonempty := nonempty first firstMember
  have secondNonempty := nonempty second secondMember
  have firstApart := apart first firstMember (first.ends - 1)
  have secondApart := apart second secondMember second.start.toNat
  simp only [SmaBlock.Covers, SmaBlock.ends] at firstApart secondApart
  rcases remainder first firstMember with firstOld | firstPiece <;>
    rcases remainder second secondMember with secondOld | secondPiece
  · exact separated first (wasFree first firstOld)
      second (wasFree second secondOld) touch
  · have notTouching :=
      separated first (wasFree first firstOld) found.item itemFree
    have starts := secondPiece.starts
    simp only [SmaBlock.ends] at *
    omega
  · have notTouching :=
      separated found.item itemFree second (wasFree second secondOld)
    have stops := firstPiece.stops
    omega
  · have secondUpper := secondPiece.upper
    have stops := firstPiece.stops
    simp only [SmaBlock.ends] at *
    omega

/-- The block lies in the area and overlaps no used block. -/
def FreshIn (area : SmaArea w Data) (block : SmaBlock w Data) : Prop :=
  ∀ address, block.Covers address →
    area.Covers address ∧ ∀ other ∈ area.usedList, ¬ other.Covers address

theorem freshIn_of_room (sound : Sound area)
    (split : area.freeList = found.passed ++ found.item :: found.rest)
    (positive : size ≠ 0) (room : Room found.item addr size) :
    FreshIn area (smaCarve area found addr size).1 := by
  intro address covers
  have itemFree : found.item ∈ area.freeList := by
    simp [split]
  have itemCovers := (sound.carve split positive room).2 address covers
  refine ⟨?_, fun other member otherCovers => ?_⟩
  · exact (sound.tiles.exact _).mp
      ⟨found.item, List.mem_append_right _ itemFree, itemCovers⟩
  · have same :=
      sound.covers_unique (List.mem_append_left _ member)
        (List.mem_append_right _ itemFree) otherCovers itemCovers
    apply sound.used other member
    rw [same]
    exact sound.free found.item itemFree

theorem not_freshIn_of_overrun {item block : SmaBlock w Data}
    (sound : Sound area) (separated : Separated area)
    (areaNonempty : area.size ≠ 0) (itemFree : item ∈ area.freeList)
    (overrun : block.Covers item.ends) : ¬ FreshIn area block := by
  intro fresh
  obtain ⟨inArea, unused⟩ := fresh item.ends overrun
  obtain ⟨piece, member, covers⟩ := (sound.tiles.exact _).mpr inArea
  rcases List.mem_append.mp member with inUsed | inFree
  · exact unused piece inUsed covers
  · -- the free blocks do not touch, so the piece holds the item's last
    -- address too
    have notTouching := separated item itemFree piece inFree
    have itemAny : item ∈ area.usedList ++ area.freeList :=
      List.mem_append_right _ itemFree
    have itemNonempty : item.size ≠ 0 := fun empty =>
      areaNonempty (sound.nonempty item itemAny empty)
    have first := SmaBlock.covers_start itemNonempty
    have itemLast : item.Covers (item.ends - 1) := by
      simp only [SmaBlock.Covers] at *
      omega
    have pieceLast : piece.Covers (item.ends - 1) := by
      simp only [SmaBlock.Covers] at *
      omega
    have same := sound.covers_unique member itemAny pieceLast itemLast
    subst same
    exact Nat.lt_irrefl _ covers.2

end Separation

variable {w : Nat} {Vnode : Type}

/-- One call of `vm_mmap`, with the descriptors of the calling process. -/
structure MmapCall (w : Nat) (Vnode : Type) where
  filedes : Int → Option (File Vnode)
  request : MmapRequest w

/-- `vm_mmap` as a transition. -/
def MmapStep (state : MmapState w Vnode) (call : MmapCall w Vnode)
    (after : MmapState w Vnode) : Prop :=
  after = (vmMmap call.filedes call.request state).1

/-- A fresh address space. -/
def MmapState.fresh
    (memory : UserMemory w) (regions : Heap (VmRegion w Vnode)) :
    MmapState w Vnode where
  regions := regions
  area := vmSpaceArea memory

/--
A failing call leaves the area alone, and the block of a successful call lies
inside user memory and overlaps no used block.
-/
def MmapSafe (memory : UserMemory w) (state : MmapState w Vnode)
    (call : MmapCall w Vnode) : Prop :=
  match vmMmap call.filedes call.request state with
  | (after, .error _) => after.area = state.area
  | (_, .ok addr) =>
    ∀ address, addr.toNat ≤ address →
      address < addr.toNat + call.request.length.toNat →
      (memory.start.toNat ≤ address ∧
          address < memory.start.toNat + memory.size.toNat) ∧
        ∀ block ∈ state.area.usedList, ¬ block.Covers address

/-- A call that passes the checks of `vm_mmap` overruns no free block. -/
def MmapStaysInBlock
    (state : MmapState w Vnode) (call : MmapCall w Vnode) : Prop :=
  (∃ file, mmapFile call.filedes call.request = .ok file) →
    ¬ Overruns state.area call.request.start call.request.length
      (mmapAllocFlags call.request)

/-- What a run of mappings keeps true of an address space. -/
structure Mapped
    (memory : UserMemory w) (area : SmaArea w VmMapping) : Prop where
  sound : Sound area
  separated : Separated area
  start : area.start = memory.start
  size : area.size = memory.size

theorem mmapFile_length
    {filedes : Int → Option (File Vnode)} {request : MmapRequest w}
    {file : Option (File Vnode)}
    (passes : mmapFile filedes request = .ok file) : request.length ≠ 0 := by
  intro empty
  simp [mmapFile, empty] at passes

variable {memory : UserMemory w} {area : SmaArea w VmMapping}

theorem Mapped.setDataptr {before : SmaArea w VmMapping}
    {block : SmaBlock w VmMapping} {mapping : VmMapping}
    (mapped : Mapped memory area) (sorted : Sorted before.usedList)
    (added : area.usedList = smaListAdd block before.usedList) :
    Mapped memory (setDataptr before block mapping area) where
  sound :=
    { tiles := by
        refine mapped.sound.tiles.of_coverCount_eq ?_
        intro address
        simp only [Mm.setDataptr, coverCount_append,
          coverCount_smaListAdd, added]
        rfl
      usedSorted := sorted.smaListAdd _
      freeSorted := mapped.sound.freeSorted
      used := by
        intro other member
        rcases mem_smaListAdd.mp member with rfl | inOld
        · exact mapped.sound.used block (by simp [added])
        · exact mapped.sound.used other (by simp [added, inOld])
      free := mapped.sound.free
      fits := mapped.sound.fits
      nonempty := by
        intro other member empty
        rcases List.mem_append.mp member with inUsed | inFree
        · rcases mem_smaListAdd.mp inUsed with rfl | inOld
          · exact mapped.sound.nonempty block (by simp [added]) empty
          · exact mapped.sound.nonempty other (by simp [added, inOld]) empty
        · exact mapped.sound.nonempty other
            (List.mem_append_right _ inFree) empty }
  separated := mapped.separated
  start := mapped.start
  size := mapped.size

theorem Mapped.areaNonempty (mapped : Mapped memory area) : area.size ≠ 0 := by
  rw [mapped.size]
  exact memory.nonempty

theorem Mapped.carve
    {found : Found (SmaBlock w VmMapping)} {addr size : BitVec w}
    (mapped : Mapped memory area)
    (split : area.freeList = found.passed ++ found.item :: found.rest)
    (positive : size ≠ 0) (room : Room found.item addr size) :
    Mapped memory (smaCarve area found addr size).2 where
  sound := (mapped.sound.carve split positive room).1
  separated :=
    mapped.separated.carve mapped.sound mapped.areaNonempty split positive room
  start := (smaCarve_carved area found addr size).start.trans mapped.start
  size := (smaCarve_carved area found addr size).areaSize.trans mapped.size

theorem Mapped.vmMmap {state : MmapState w Vnode} {call : MmapCall w Vnode}
    (mapped : Mapped memory state.area) (stays : MmapStaysInBlock state call) :
    Mapped memory (vmMmap call.filedes call.request state).1.area := by
  unfold Mm.vmMmap
  cases passes : mmapFile call.filedes call.request with
  | error errno =>
    exact mapped
  | ok file =>
    have positive := mmapFile_length passes
    have inRoom := stays ⟨file, passes⟩
    cases result : smaAlloc state.area call.request.start
        call.request.length (mmapAllocFlags call.request) with
    | none =>
      exact mapped
    | some pair =>
      obtain ⟨found, isFound, isCarved⟩ := Option.map_eq_some_iff.mp result
      have split := smaFind_split isFound
      have room := room_of_not_overruns isFound inRoom
      have carved :=
        smaCarve_carved state.area found call.request.start call.request.length
      have after : Mapped memory
            (Mm.setDataptr state.area pair.1
              { flags := call.request.flags
                region := state.regions.next
                offset := 0 }
              pair.2) := by
        subst isCarved
        exact (mapped.carve split positive room).setDataptr
          mapped.sound.usedSorted carved.used
      simp only
      split
      · exact after
      · exact after

theorem mapped_fresh (memory : UserMemory w) :
    Mapped memory (vmSpaceArea memory) := by
  have start : pageRoundDown memory.start = memory.start := by
    simp [pageRoundDown, memory.startAligned]
  have size : pageRoundUp memory.size = memory.size := by
    simp [pageRoundUp, memory.sizeAligned]
  refine ⟨smaAreaCreate_sound ?_, ?_, start, size⟩
  · rw [start, size]
    exact memory.fits
  · have positive : memory.size.toNat ≠ 0 := by
      simpa [BitVec.toNat_eq] using memory.nonempty
    simp only [Separated, vmSpaceArea, smaAreaCreate, size, start,
      List.mem_singleton, forall_eq, SmaBlock.ends]
    omega

theorem Mapped.safe_iff {state : MmapState w Vnode} {call : MmapCall w Vnode}
    (mapped : Mapped memory state.area) :
    MmapSafe memory state call ↔ MmapStaysInBlock state call := by
  have sound := mapped.sound
  unfold MmapSafe MmapStaysInBlock Mm.vmMmap
  cases passes : mmapFile call.filedes call.request with
  | error errno =>
    simp
  | ok file =>
    cases result : smaAlloc state.area call.request.start
        call.request.length (mmapAllocFlags call.request) with
    | none =>
      simp [not_overruns_of_refused sound result]
    | some pair =>
      have positive := mmapFile_length passes
      obtain ⟨found, isFound, rfl⟩ := Option.map_eq_some_iff.mp result
      have split := smaFind_split isFound
      have carved :=
        smaCarve_carved state.area found call.request.start call.request.length
      have freshIff : FreshIn state.area
              (smaCarve state.area found call.request.start
                call.request.length).1 ↔
            ¬ Overruns state.area call.request.start call.request.length
              (mmapAllocFlags call.request) := by
        constructor
        · intro fresh overruns
          obtain ⟨other, isOther, inside, short⟩ :=
            smaFind_of_overruns sound overruns
          rw [isFound, Option.some.injEq] at isOther
          subst isOther
          exact not_freshIn_of_overrun sound mapped.separated
            mapped.areaNonempty (by simp [split])
            (smaCarve_overrun sound split inside overruns.1 short)
            fresh
        · intro inRoom
          exact freshIn_of_room sound split positive
            (room_of_not_overruns isFound inRoom)
      simp only [VmOps.init_ok, Except.ok.injEq, exists_eq', forall_const]
      rw [← freshIff, FreshIn]
      simp only [SmaBlock.Covers, SmaBlock.ends, carved.size,
        SmaArea.Covers, mapped.start, mapped.size, and_imp]

/--
In every run of mappings that stay in their blocks, the next call is safe
exactly when it stays in its block too.
-/
theorem vmMmap_safe_iff
    {memory : UserMemory w} {regions : Heap (VmRegion w Vnode)}
    {past : List (MmapCall w Vnode)} {state : MmapState w Vnode}
    (run :
      Run (Guarded MmapStaysInBlock MmapStep)
        (MmapState.fresh memory regions) past state) (call : MmapCall w Vnode) :
    MmapSafe memory state call ↔ MmapStaysInBlock state call := by
  have mapped : Mapped memory state.area := by
    refine run.invariant (fun _ reached => Mapped memory reached.area)
      (mapped_fresh memory) ?_
    rintro _ source label _ mapped ⟨stays, rfl⟩
    exact mapped.vmMmap stays
  exact mapped.safe_iff

/-- A fresh 32-bit address space. -/
def freshSpace32 : MmapState 32 Unit :=
  .fresh userMemory32 .empty

/-- Map anonymous memory from the start of user memory on. -/
def mapFromStart (length : BitVec 32) : MmapCall 32 Unit where
  filedes := fun _ => none
  request :=
    { start := 0x00400000
      length := length
      flags := protRead ||| protWrite ||| mapAnonymous
      fd := -1
      offset := 0 }

/-- Mapping one page at the start of user memory is safe. -/
theorem mapFromStart_onePage_safe :
    MmapSafe userMemory32 freshSpace32 (mapFromStart 0x1000) := by
  refine (vmMmap_safe_iff .start (mapFromStart 0x1000)).mpr ?_
  rintro _ ⟨_, block, member, _, short, _⟩
  obtain rfl := List.mem_singleton.mp member
  exact absurd short (by decide)

/--
A length that makes `start + length` wrap around to zero maps a block that
reaches up to the end of the address space.
-/
theorem vmMmap_leaves_user_memory :
    ¬ ∀ {past : List (MmapCall 32 Unit)} {state : MmapState 32 Unit},
      Run MmapStep freshSpace32 past state →
      Partition state.area →
      ∀ call, MmapSafe userMemory32 state call := by
  intro safe
  have inside :=
    safe .start (mapped_fresh userMemory32).sound.toPartition
      (mapFromStart 0xFFC00000)
  have result :
      (vmMmap (mapFromStart 0xFFC00000).filedes
          (mapFromStart 0xFFC00000).request freshSpace32).2 =
        .ok 0x00400000 :=
    rfl
  unfold MmapSafe at inside
  split at inside
  · simp_all
  · rename_i isOk
    rw [isOk, Except.ok.injEq] at result
    subst result
    exact absurd (inside 0xC0000000 (by decide) (by decide)).1.2 (by decide)

end Idylla.Mm
