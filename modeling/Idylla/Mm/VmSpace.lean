import Idylla.Mm.VmMmap

namespace Idylla.Mm

open Idylla.Lib

/-!
# Page faults and cloned address spaces

`vm_pagefault`, `vm_getpage`, `vm_copy_page`, the `getpage` operations and
`vm_space_clone` over all address spaces at once.  `none` stands for what C
leaves undefined: a pointer to a freed region, a page index outside
`region->pages` and a mapped file without a vnode.
-/

/-- The bytes of a page frame; only the offsets below `PAGE_SIZE` matter. -/
abbrev PageBytes := Nat → BitVec 8

/-- A present page-table entry, with `PG_FLAG_USER` and `PG_FLAG_RW`. -/
structure Pte where
  frame : Nat
  user : Bool
  rw : Bool
  deriving Repr, DecidableEq

/-- `struct vm_space`: the area and the page table by page address. -/
structure VmSpace (w : Nat) where
  area : SmaArea w VmMapping
  pageTable : BitVec w → Option Pte

/--
All address spaces.  `pages` holds the reference count of the page that owns
a frame, and nothing for a frame that is not in use.
-/
structure VmState (w : Nat) (Vnode : Type) where
  regions : Heap (VmRegion w Vnode)
  pages : Nat → Option Nat
  bytes : Nat → PageBytes
  spaces : Nat → VmSpace w

/-- What a file delivers at an offset, a page at most. -/
abbrev VnodeRead (Vnode : Type) :=
  Vnode → Int → Except Errno (List (BitVec 8))

/-- The page size as a number. -/
def PAGE_SIZE : Nat := 0x1000

/-- A page of zeros. -/
def zeroPage : PageBytes := fun _ => 0

/-- A page that starts with the bytes of a file and ends in zeros. -/
def filePage (data : List (BitVec 8)) : PageBytes :=
  fun offset => data[offset]?.getD 0

variable {w : Nat} {Vnode : Type}

namespace VmState

/-- `paging_map_page`, which is assumed to succeed. -/
def mapPage (state : VmState w Vnode) (space : Nat) (virt : BitVec w)
    (pte : Pte) : VmState w Vnode :=
  { state with
    spaces := fun other =>
      if other = space then
        { state.spaces space with
          pageTable := fun address =>
            if address = virt then some pte
            else (state.spaces space).pageTable address }
      else
        state.spaces other }

/-- `paging_unmap_page`. -/
def unmapPage (state : VmState w Vnode) (space : Nat)
    (virt : BitVec w) : VmState w Vnode :=
  { state with
    spaces := fun other =>
      if other = space then
        { state.spaces space with
          pageTable := fun address =>
            if address = virt then none
            else (state.spaces space).pageTable address }
      else
        state.spaces other }

/-- The area of an address space replaced. -/
def setArea (state : VmState w Vnode) (space : Nat)
    (area : SmaArea w VmMapping) : VmState w Vnode :=
  { state with
    spaces := fun other =>
      if other = space then { state.spaces space with area := area }
      else state.spaces other }

/-- `region->pages[i]`. -/
def slot (state : VmState w Vnode) (region index : Nat) : Option Nat :=
  (state.regions.cells region).bind fun cell => cell.pages index

/-- `region->pages[i] = page`. -/
def setSlot (state : VmState w Vnode) (region index : Nat)
    (page : Option Nat) : VmState w Vnode :=
  { state with
    regions := state.regions.modify region fun cell =>
      { cell with
        pages := fun other =>
          if other = index then page else cell.pages other } }

/-- `kalloc` of a region. -/
def allocRegion (state : VmState w Vnode)
    (region : VmRegion w Vnode) : VmState w Vnode :=
  { state with regions := state.regions.alloc region }

/-- `atomic_inc(&region->refs)`. -/
def holdRegion (state : VmState w Vnode) (region : Nat) : VmState w Vnode :=
  { state with
    regions := state.regions.modify region fun cell =>
      { cell with refs := cell.refs + 1 } }

/-- `atomic_dec(&region->refs)`. -/
def dropRegion (state : VmState w Vnode) (region : Nat) : VmState w Vnode :=
  { state with
    regions := state.regions.modify region fun cell =>
      { cell with refs := cell.refs - 1 } }

/-- `kalloc` and `phys_alloc` of a page, filled with bytes. -/
def newPage (state : VmState w Vnode) (frame : Nat)
    (bytes : PageBytes) : VmState w Vnode :=
  { state with
    pages := fun other =>
      if other = frame then some 1 else state.pages other
    bytes := fun other =>
      if other = frame then bytes else state.bytes other }

/-- `atomic_inc(&page->refs)`. -/
def holdPage (state : VmState w Vnode) (frame : Nat) : VmState w Vnode :=
  { state with
    pages := fun other =>
      if other = frame then (state.pages frame).map (· + 1)
      else state.pages other }

/-- `atomic_dec(&page->refs)`, and the page freed when nothing is left. -/
def releasePage (state : VmState w Vnode) (frame : Nat) : VmState w Vnode :=
  { state with
    pages := fun other =>
      if other = frame then
        (state.pages frame).bind fun refs =>
          if refs - 1 = 0 then none else some (refs - 1)
      else
        state.pages other }

variable (state : VmState w Vnode) (space other region index frame : Nat)
  (virt address : BitVec w) (pte : Pte) (page : Option Nat)
  (area : SmaArea w VmMapping) (content : PageBytes)

@[simp] theorem mapPage_regions :
    (state.mapPage space virt pte).regions = state.regions := rfl

@[simp] theorem mapPage_pages :
    (state.mapPage space virt pte).pages = state.pages := rfl

@[simp] theorem mapPage_area :
    ((state.mapPage space virt pte).spaces other).area =
      (state.spaces other).area := by
  by_cases same : other = space <;> simp [mapPage, same]

theorem mapPage_pageTable :
    ((state.mapPage space virt pte).spaces other).pageTable address =
      if other = space ∧ address = virt then some pte
      else (state.spaces other).pageTable address := by
  by_cases same : other = space <;> simp [mapPage, same]

@[simp] theorem unmapPage_pages :
    (state.unmapPage space virt).pages = state.pages := rfl

@[simp] theorem unmapPage_area :
    ((state.unmapPage space virt).spaces other).area =
      (state.spaces other).area := by
  by_cases same : other = space <;> simp [unmapPage, same]

theorem unmapPage_pageTable :
    ((state.unmapPage space virt).spaces other).pageTable address =
      if other = space ∧ address = virt then none
      else (state.spaces other).pageTable address := by
  by_cases same : other = space <;> simp [unmapPage, same]

@[simp] theorem setArea_regions :
    (state.setArea space area).regions = state.regions := rfl

@[simp] theorem setArea_area :
    ((state.setArea space area).spaces other).area =
      if other = space then area else (state.spaces other).area := by
  by_cases same : other = space <;> simp [setArea, same]

@[simp] theorem setArea_pageTable :
    ((state.setArea space area).spaces other).pageTable =
      (state.spaces other).pageTable := by
  by_cases same : other = space <;> simp [setArea, same]

@[simp] theorem setSlot_pages :
    (state.setSlot region index page).pages = state.pages := rfl

@[simp] theorem setSlot_spaces :
    (state.setSlot region index page).spaces = state.spaces := rfl

@[simp] theorem newPage_spaces :
    (state.newPage frame content).spaces = state.spaces := rfl

@[simp] theorem holdPage_regions :
    (state.holdPage frame).regions = state.regions := rfl

@[simp] theorem holdPage_spaces :
    (state.holdPage frame).spaces = state.spaces := rfl

@[simp] theorem releasePage_regions :
    (state.releasePage frame).regions = state.regions := rfl

@[simp] theorem releasePage_spaces :
    (state.releasePage frame).spaces = state.spaces := rfl

theorem slot_congr {first second : VmState w Vnode}
    (sameRegions : first.regions = second.regions) :
    first.slot = second.slot := by
  funext region index
  rw [slot, slot, sameRegions]

variable {state}

theorem slot_setSlot {cell : VmRegion w Vnode}
    (live : state.regions.cells region = some cell) (other position : Nat) :
    (state.setSlot region index page).slot other position =
      if other = region ∧ position = index then page
      else state.slot other position := by
  by_cases sameRegion : other = region
  · subst sameRegion
    by_cases sameIndex : position = index <;>
      simp [slot, setSlot, live, sameIndex]
  · simp [slot, setSlot, Heap.cells_modify_of_ne, sameRegion]

end VmState

/-- `sma_getblock`: used blocks first. -/
def smaGetblock {Data : Type} (area : SmaArea w Data)
    (address : BitVec w) : Option (SmaBlock w Data) :=
  ((firstFound (fun block => block.hits address) area.usedList).or
    (firstFound (fun block => block.hits address) area.freeList)).map
    Found.item

/-- `vm_copy_page`: the old page is read through the faulting address. -/
def vmCopyPage (state : VmState w Vnode) (space : Nat) (virt : BitVec w)
    (old frame : Nat) : VmState w Vnode :=
  ((state.newPage frame (state.bytes old)).mapPage space virt
    { frame := old, user := false, rw := false }).releasePage old

/-- `vm_mmap_anon_getpage`. -/
def vmMmapAnonGetpage (state : VmState w Vnode) (space : Nat) (virt : BitVec w)
    (frame : Nat) : VmState w Vnode :=
  (state.newPage frame zeroPage).mapPage space virt
    { frame := frame, user := false, rw := true }

/-- `vm_mmap_vfs_getpage`; `none` in the result is its `NULL`. -/
def vmMmapVfsGetpage (state : VmState w Vnode) (space : Nat) (virt : BitVec w)
    (read : Except Errno (List (BitVec 8)))
    (frame : Nat) : VmState w Vnode × Option Nat :=
  match read with
  | .error _ => (state.unmapPage space virt, none)
  | .ok data =>
    ((state.newPage frame (filePage data)).mapPage space virt
      { frame := frame, user := false, rw := true }, some frame)

/--
`region->ops->getpage`.  The offset is that of a page, so that rounding it
down, as both operations do, changes nothing.
-/
def VmRegion.getpage
    (region : VmRegion w Vnode) (state : VmState w Vnode) (space : Nat)
    (virt : BitVec w) (offset : Int) (read : VnodeRead Vnode)
    (frame : Nat) : Option (VmState w Vnode × Option Nat) :=
  match region.ops with
  | .anon =>
    some (vmMmapAnonGetpage state space virt frame, some frame)
  | .vfs =>
    match region.vnode with
    | none => none
    | some vnode =>
      some (vmMmapVfsGetpage state space virt
        (read vnode (region.offset + offset)) frame)

/-- `mapping->flags & flag`, compared with the flag. -/
def VmMapping.has (mapping : VmMapping) (flag : BitVec 16) : Bool :=
  mapping.flags &&& flag == flag

/-- The number of pages of a block or region. -/
def pageCount (size : BitVec w) : Nat :=
  size.toNat / PAGE_SIZE

/--
`vm_getpage`.  The page index is the signed quotient of a 32-bit offset, and
an index outside the array is undefined.
-/
def vmGetpage (state : VmState w Vnode) (space : Nat) (start : BitVec w)
    (mapping : VmMapping) (offset : BitVec 32) (rw : Bool)
    (read : VnodeRead Vnode) (frame : Nat) : Option (VmState w Vnode × Int) :=
  if ¬ mapping.has protWrite ∧ rw then
    some (state, -1)
  else
    match state.regions.cells mapping.region with
    | none => none
    | some region =>
      let pageidx := offset.toInt.tdiv PAGE_SIZE
      let virt := start + BitVec.ofInt w offset.toInt
      if pageidx < 0 ∨ pageCount region.size ≤ pageidx.toNat then
        none
      else
        match region.pages pageidx.toNat, mapping.has mapShared with
        | some page, false =>
          if rw then
            some
              (((vmCopyPage state space virt page frame).setSlot
                mapping.region pageidx.toNat (some frame)).mapPage
                space virt { frame := frame, user := true, rw := true },
                0)
          else
            some (state.mapPage space virt
              { frame := page, user := true, rw := false }, 0)
        | _, _ =>
          match region.getpage state space virt offset.toInt read frame with
          | none => none
          | some (fetched, none) =>
            some (fetched.setSlot mapping.region pageidx.toNat none, -1)
          | some (fetched, some page) =>
            some
              ((fetched.setSlot mapping.region pageidx.toNat
                (some page)).mapPage space virt
                { frame := page, user := true, rw := true }, 0)

/-- `vm_pagefault` in an address space; the offset is cut to 32 bits. -/
def vmPagefault
    (state : VmState w Vnode) (space : Nat) (address : BitVec w) (rw : Bool)
    (read : VnodeRead Vnode) (frame : Nat) : Option (VmState w Vnode × Int) :=
  match smaGetblock (state.spaces space).area address with
  | none => some (state, -2)
  | some block =>
    if block.flags &&& smaFlagsUsed ≠ smaFlagsUsed then
      some (state, -2)
    else
      match block.dataptr with
      | none => none
      | some mapping =>
        vmGetpage state space block.start mapping
          ((pageRoundDown (address - block.start)).setWidth 32)
          rw read frame

/-- One turn of the loop of `vm_destroy_region`. -/
def releaseSlot (state : VmState w Vnode)
    (region index : Nat) : VmState w Vnode :=
  match state.slot region index with
  | none => state
  | some page => (state.releasePage page).setSlot region index none

/-- The loop of `vm_destroy_region` over the first pages of a region. -/
def releaseSlots (state : VmState w Vnode)
    (region : Nat) : Nat → VmState w Vnode
  | 0 => state
  | count + 1 =>
    releaseSlot (releaseSlots state region count) region count

/-- `vm_destroy_region`. -/
def vmDestroyRegion (state : VmState w Vnode)
    (region count : Nat) : VmState w Vnode :=
  let released := releaseSlots state region count
  { released with regions := released.regions.free region }

/-- One turn of the loop that hands a page to both new regions. -/
def shareSlot (state : VmState w Vnode)
    (old parent child index : Nat) : VmState w Vnode :=
  match state.slot old index with
  | none => state
  | some page =>
    ((((state.holdPage page).setSlot parent index (some page)).holdPage
      page).setSlot child index (some page))

/-- The loop that hands the first pages to both new regions. -/
def shareSlots (state : VmState w Vnode)
    (old parent child : Nat) : Nat → VmState w Vnode
  | 0 => state
  | count + 1 =>
    shareSlot (shareSlots state old parent child count) old parent child count

/-- The address of a page of a block. -/
def pageAddress (start : BitVec w) (index : Nat) : BitVec w :=
  start + BitVec.ofNat w (index * PAGE_SIZE)

/-- The loop that maps the first pages of the source read-only. -/
def protectSlots (state : VmState w Vnode) (src : Nat) (start : BitVec w)
    (region : Nat) : Nat → VmState w Vnode
  | 0 => state
  | count + 1 =>
    let before := protectSlots state src start region count
    match before.slot region count with
    | none => before
    | some page =>
      before.mapPage src (pageAddress start count)
        { frame := page, user := true, rw := false }

/--
The mapping and its clone share the region: it is not writable, or it is a
file mapped with `MAP_SHARED`.
-/
def sharesRegion (mapping : VmMapping) (region : VmRegion w Vnode) : Bool :=
  !mapping.has protWrite ||
    (region.vnode.isSome && mapping.flags &&& mapShared != 0)

/-- The part of `vm_clone` that gives source and clone a region each. -/
def splitRegion
    (state : VmState w Vnode) (src : Nat) (block : SmaBlock w VmMapping)
    (old : Nat) (region : VmRegion w Vnode) : VmState w Vnode :=
  let parent := state.regions.next
  let child := parent + 1
  let fresh := { region with refs := 1, pages := fun _ => none }
  let allocated := (state.allocRegion fresh).allocRegion fresh
  let shared :=
    shareSlots allocated old parent child (pageCount region.size)
  let protectedPages :=
    protectSlots shared src block.start old (pageCount block.size)
  let dropped := protectedPages.dropRegion old
  if region.refs - 1 = 0 then
    vmDestroyRegion dropped old (pageCount region.size)
  else
    dropped

/--
`vm_clone` of one block of the source, which stands between the blocks in
front of it and those behind it on the used list.
-/
def vmClone (state : VmState w Vnode) (src dest : Nat)
    (front : List (SmaBlock w VmMapping)) (block : SmaBlock w VmMapping)
    (behind : List (SmaBlock w VmMapping)) :
    Option (VmState w Vnode × Except Errno (SmaBlock w VmMapping)) :=
  match block.dataptr with
  | none => none
  | some mapping =>
    let destArea := (state.spaces dest).area
    match smaAlloc destArea block.start block.size smaAllocFixed with
    | none => some (state, .error .ENOMEM)
    | some (newBlock, area) =>
      match state.regions.cells mapping.region with
      | none => none
      | some region =>
        if sharesRegion mapping region then
          let newmap := mapping
          let held := state.holdRegion mapping.region
          some
            (held.setArea dest (setDataptr destArea newBlock newmap area),
              .ok block)
        else
          let parent := state.regions.next
          let kept :=
            { block with
              dataptr := some { mapping with region := parent } }
          let newmap := { mapping with region := parent + 1 }
          let split :=
            splitRegion state src block mapping.region region
          let srcArea :=
            { (split.spaces src).area with
              usedList := front ++ kept :: behind }
          some
            ((split.setArea src srcArea).setArea dest
              (setDataptr destArea newBlock newmap area),
              .ok kept)

/-- The loop of `vm_space_clone` over the blocks not cloned yet. -/
def cloneBlocks (src dest : Nat) :
    List (SmaBlock w VmMapping) →
    List (SmaBlock w VmMapping) →
    VmState w Vnode →
    Option (VmState w Vnode × Except Errno Unit)
  | _, [], state => some (state, .ok ())
  | front, block :: behind, state =>
    match vmClone state src dest front block behind with
    | none => none
    | some (cloned, .error err) => some (cloned, .error err)
    | some (cloned, .ok kept) =>
      cloneBlocks src dest (front ++ [kept]) behind cloned

/-- `vm_space_clone`. -/
def vmSpaceClone (state : VmState w Vnode)
    (dest src : Nat) : Option (VmState w Vnode × Except Errno Unit) :=
  cloneBlocks src dest [] (state.spaces src).area.usedList state

/-- The entry that translates an address of an address space. -/
def VmState.translate (state : VmState w Vnode) (space : Nat)
    (address : BitVec w) : Option Pte :=
  (state.spaces space).pageTable (pageRoundDown address)

/-- The offset of an address in its page. -/
def pageOffset (address : BitVec w) : Nat :=
  address.toNat % PAGE_SIZE

/-- The byte an address space observes; nothing where it would fault. -/
def VmState.load (state : VmState w Vnode) (space : Nat)
    (address : BitVec w) : Option (BitVec 8) :=
  match state.translate space address with
  | none => none
  | some pte =>
    if pte.user then some (state.bytes pte.frame (pageOffset address))
    else none

/-- A user write through a writable entry; nothing where it would fault. -/
def VmState.store (state : VmState w Vnode) (space : Nat) (address : BitVec w)
    (byte : BitVec 8) : Option (VmState w Vnode) :=
  match state.translate space address with
  | none => none
  | some pte =>
    if pte.user ∧ pte.rw then
      some
        { state with
          bytes := fun other =>
            if other = pte.frame then
              fun offset =>
                if offset = pageOffset address then byte
                else state.bytes pte.frame offset
            else
              state.bytes other }
    else
      none

/-- An address space without mappings, as `vm_space_create` leaves it. -/
def vmSpaceCreate (memory : UserMemory w) : VmSpace w where
  area := vmSpaceArea memory
  pageTable := fun _ => none

/--
What happens to the address spaces: a successful `vm_space_clone`, a page
fault with its return value, and a user write.  A fault carries what the
files deliver and the frame `phys_alloc` hands out.
-/
inductive VmLabel (w : Nat) (Vnode : Type) where
  | clone (dest src : Nat)
  | fault (space : Nat) (address : BitVec w) (rw : Bool)
      (read : VnodeRead Vnode)
      (frame : Nat)
      (result : Int)
  | store (space : Nat) (address : BitVec w) (byte : BitVec 8)

/-- The steps of the address spaces of one user memory. -/
inductive VmStep (memory : UserMemory w) :
    VmState w Vnode → VmLabel w Vnode → VmState w Vnode → Prop where
  | clone {state next : VmState w Vnode} {dest src : Nat}
      (fresh : state.spaces dest = vmSpaceCreate memory)
      (other : dest ≠ src)
      (returns : vmSpaceClone state dest src = some (next, .ok ())) :
      VmStep memory state (.clone dest src) next
  | fault {state next : VmState w Vnode} {space : Nat} {address : BitVec w}
      {rw : Bool}
      {read : VnodeRead Vnode}
      {frame : Nat}
      {result : Int}
      (unused : state.pages frame = none)
      (returns :
        vmPagefault state space address rw read frame = some (next, result)) :
      VmStep memory state (.fault space address rw read frame result) next
  | store {state next : VmState w Vnode} {space : Nat} {address : BitVec w}
      {byte : BitVec 8}
      (writes : state.store space address byte = some next) :
      VmStep memory state (.store space address byte) next

end Idylla.Mm
