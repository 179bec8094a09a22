import Idylla.Mm.PageDirectories

namespace Idylla.Mm

open Idylla.Lib

/-!
# Page faults whose allocations can fail

`vm_getpage` on a 32-bit machine with every result of `phys_alloc`,
`paging_map_page` and `read`, and with the `struct vm_page` of each page: where
`phys_alloc` returns 0 several of them have the address 0.  What has been asked
for is kept in a log, the last first.
-/

/-- `struct vm_page`, with the frame of its address. -/
structure VmPage where
  refs : Int
  offset : Int
  frame : Nat
  deriving Repr, DecidableEq

/-- What a page fault asks for, with the answer, and the frames it writes. -/
inductive FaultEvent where
  | physAlloc (frame : Option Nat)
  | mapPage (frame : Nat) (done : Bool)
  | read (done : Bool)
  | write (frame : Nat)
  deriving Repr, DecidableEq

/-- The answer is a failure. -/
def FaultEvent.fails : FaultEvent → Bool
  | .physAlloc frame => frame.isNone
  | .mapPage _ done => !done
  | .read done => !done
  | .write _ => false

/--
The answers of `phys_alloc` after what has been asked for, by the frames that
are allocated.
-/
structure FrameSource where
  answer : List FaultEvent → (Nat → Bool) → Option Nat
  fresh : ∀ {log frames frame}, answer log frames = some frame →
      frame ≠ 0 ∧ frames frame = false

/--
The state that `vm_getpage` works on.  The slots of a region hold pointers to
`pages`; `frames` are the frames that are allocated; a directory is that of an
address space or, for `NULL`, that of the kernel, with the entries that have a
page table and the pages they map.
-/
structure FaultState (Vnode : Type) where
  regions : Heap (VmRegion 32 Vnode)
  pages : Heap VmPage
  frames : Nat → Bool
  bytes : Nat → PageBytes
  tables : Option Nat → EntryIndex → Bool
  entries : Option Nat → BitVec 32 → Option Pte
  kmem : SmaArea 32 Unit
  log : List FaultEvent

/--
What a call comes to.  It is stuck where it faults itself, since the nested
page fault waits for the mutex of the address space, and where C leaves it
undefined.
-/
inductive FaultRun (Vnode Result : Type) where
  | returns (result : Result) (state : FaultState Vnode)
  | stuck (state : FaultState Vnode)

namespace FaultState

variable {Vnode : Type} (source : FrameSource) (state : FaultState Vnode)

/-- Something has been asked for or written. -/
def record (event : FaultEvent) : FaultState Vnode :=
  { state with log := event :: state.log }

/-- A frame is allocated or is not any more. -/
def setFrame (frame : Nat) (allocated : Bool) : FaultState Vnode :=
  { state with
    frames := fun other =>
      if other = frame then allocated else state.frames other }

/-- What `phys_alloc` would return; 0 is `none`. -/
def nextFrame : Option Nat :=
  source.answer state.log state.frames

/-- `phys_alloc` of one frame. -/
def physAlloc : FaultState Vnode :=
  match state.nextFrame source with
  | none => state.record (.physAlloc none)
  | some frame => (state.setFrame frame true).record (.physAlloc (some frame))

/-- `phys_free` of one frame. -/
def physFree (frame : Nat) : FaultState Vnode :=
  state.setFrame frame false

/-- `region->pages[i] = page`. -/
def setSlot (region index : Nat) (page : Option Nat) : FaultState Vnode :=
  { state with
    regions := state.regions.modify region fun cell =>
      { cell with
        pages := fun other =>
          if other = index then page else cell.pages other } }

/-- `kalloc` of a page with its fields. -/
def newPage (page : VmPage) : FaultState Vnode :=
  { state with pages := state.pages.alloc page }

/-- `kfree` of a page. -/
def freePage (page : Nat) : FaultState Vnode :=
  { state with pages := state.pages.free page }

/-- One entry of a page table written. -/
def setEntry (dataptr : Option Nat) (virt : BitVec 32)
    (pte : Option Pte) : FaultState Vnode :=
  { state with
    entries := fun other address =>
      if other = dataptr ∧ address = virt then pte
      else state.entries other address }

/-- A page table put into a directory. -/
def setTable (dataptr : Option Nat) (virt : BitVec 32) : FaultState Vnode :=
  { state with
    tables := fun other entry =>
      if other = dataptr ∧ entry = PGDIR_ENTRY virt then true
      else state.tables other entry }

/-- `paging_map_page`, with whether it returns 0. -/
def pagingMapPage (dataptr : Option Nat) (virt : BitVec 32)
    (pte : Pte) : FaultState Vnode × Bool :=
  if state.tables dataptr (PGDIR_ENTRY virt) then
    ((state.setEntry dataptr virt (some pte)).record (.mapPage pte.frame true),
      true)
  else
    match state.nextFrame source with
    | none =>
      ((state.physAlloc source).record (.mapPage pte.frame false), false)
    | some _ =>
      ((((state.physAlloc source).setTable dataptr virt).setEntry dataptr
        virt (some pte)).record (.mapPage pte.frame true), true)

/-- `paging_unmap_page` -/
def pagingUnmapPage (dataptr : Option Nat)
    (virt : BitVec 32) : FaultState Vnode :=
  if state.tables dataptr (PGDIR_ENTRY virt) then
    state.setEntry dataptr virt none
  else
    state

/-- A page written through its entry; `none` is a page fault. -/
def writePage (dataptr : Option Nat) (virt : BitVec 32)
    (content : PageBytes) : Option (FaultState Vnode) :=
  (state.entries dataptr virt).map fun pte =>
    { state with
      bytes := fun other =>
        if other = pte.frame then content else state.bytes other
      log := .write pte.frame :: state.log }

/-- A page read through its entry; `none` is a page fault. -/
def readPage (dataptr : Option Nat) (virt : BitVec 32) : Option PageBytes :=
  (state.entries dataptr virt).map fun pte => state.bytes pte.frame

/-- `kmem_map_page`, which does not look at `paging_map_page`. -/
def kmemMapPage (frame : Nat) : FaultState Vnode × Option (BitVec 32) :=
  match smaAlloc state.kmem 0 (BitVec.ofNat 32 PAGE_SIZE) 0 with
  | none => (state, none)
  | some (block, kmem) =>
    (({ state with kmem := kmem }.pagingMapPage source none block.start
      { frame := frame, user := false, rw := true }).1, some block.start)

/-- `kmem_unmap_page`; `none` is the endless loop of `sma_free`. -/
def kmemUnmapPage (ptr : BitVec 32) : Option (FaultState Vnode) :=
  (smaFree state.kmem ptr (BitVec.ofNat 32 PAGE_SIZE)).map fun freed =>
    { state.pagingUnmapPage none ptr with kmem := freed.1 }

/-- `atomic_dec(&page->refs)`, and the page freed when nothing is left. -/
def releasePage (pointer : Nat) (page : VmPage) : FaultState Vnode :=
  if page.refs - 1 = 0 then
    (state.physFree page.frame).freePage pointer
  else
    { state with
      pages := state.pages.modify pointer fun _ =>
        { page with refs := page.refs - 1 } }

/-- `vm_copy_page`; the old page is read through the faulting address. -/
def vmCopyPage (space : Nat) (virt : BitVec 32)
    (old : Nat) : FaultRun Vnode (Option Nat) :=
  match state.pages.cells old with
  | none => .stuck state
  | some oldpage =>
    match state.nextFrame source with
    | none => .returns none (state.physAlloc source)
    | some frame =>
      let page := state.pages.next
      let allocated :=
        (state.physAlloc source).newPage
          { refs := 1, offset := oldpage.offset, frame := frame }
      let temporary := allocated.kmemMapPage source frame
      let mapped :=
        (temporary.1.pagingMapPage source (some space) virt
          { frame := oldpage.frame, user := false, rw := false }).1
      match temporary.2, mapped.readPage (some space) virt with
      | some buf, some content =>
        match mapped.writePage none buf content with
        | none => .stuck mapped
        | some copied =>
          match copied.kmemUnmapPage buf with
          | none => .stuck copied
          | some unmapped =>
            .returns (some page) (unmapped.releasePage old oldpage)
      | _, _ => .stuck mapped

/--
What both `getpage` operations begin with: a page whose frame is mapped at the
faulting address.  The address that `phys_alloc` returns is not looked at.
-/
def mapNewPage (space : Nat) (virt : BitVec 32)
    (offset : Int) : FaultState Vnode × Bool :=
  let frame := (state.nextFrame source).getD 0
  ((state.physAlloc source).newPage
    { refs := 1, offset := offset, frame := frame }).pagingMapPage source
    (some space) virt { frame := frame, user := false, rw := true }

/-- What both `getpage` operations do with a page that they give up. -/
def dropNewPage (page frame : Nat) : FaultState Vnode :=
  (state.physFree frame).freePage page

/-- `vm_mmap_anon_getpage` -/
def vmMmapAnonGetpage (space : Nat)
    (virt : BitVec 32) : FaultRun Vnode (Option Nat) :=
  let page := state.pages.next
  let frame := (state.nextFrame source).getD 0
  match state.mapNewPage source space virt 0 with
  | (failed, false) => .returns none (failed.dropNewPage page frame)
  | (mapped, true) =>
    match mapped.writePage (some space) virt zeroPage with
    | none => .stuck mapped
    | some zeroed => .returns (some page) zeroed

/-- `vm_mmap_vfs_getpage`, less the list of pages of the file. -/
def vmMmapVfsGetpage
    (space : Nat) (virt : BitVec 32) (vnode : Option Vnode) (offset : Int)
    (read : VnodeRead Vnode) : FaultRun Vnode (Option Nat) :=
  let page := state.pages.next
  let frame := (state.nextFrame source).getD 0
  match state.mapNewPage source space virt offset with
  | (failed, false) => .returns none (failed.dropNewPage page frame)
  | (mapped, true) =>
    match vnode with
    | none => .stuck mapped
    | some vnode =>
      match read vnode offset with
      | .error _ =>
        .returns none
          (((mapped.record (.read false)).pagingUnmapPage (some space)
            virt).dropNewPage page frame)
      | .ok data =>
        let delivered := mapped.record (.read true)
        match delivered.writePage (some space) virt (filePage data) with
        | none => .stuck delivered
        | some filled => .returns (some page) filled

/-- `region->ops->getpage` -/
def getpage
    (space : Nat) (virt : BitVec 32) (region : VmRegion 32 Vnode) (offset : Int)
    (read : VnodeRead Vnode) : FaultRun Vnode (Option Nat) :=
  match region.ops with
  | .anon => state.vmMmapAnonGetpage source space virt
  | .vfs =>
    state.vmMmapVfsGetpage source space virt region.vnode
      (region.offset + offset) read

/-- The last `paging_map_page` of `vm_getpage`, whose result is not used. -/
def showPage (space : Nat) (virt : BitVec 32) (pointer : Nat)
    (rw : Bool) : FaultRun Vnode Int :=
  match state.pages.cells pointer with
  | none => .stuck state
  | some page =>
    .returns 0
      (state.pagingMapPage source (some space) virt
        { frame := page.frame, user := true, rw := rw }).1

/-- What has been copied or fetched is put into its slot and shown. -/
def fillSlot (space : Nat) (virt : BitVec 32)
    (region index : Nat) : FaultRun Vnode (Option Nat) → FaultRun Vnode Int
  | .stuck state => .stuck state
  | .returns none state => .returns (-1) (state.setSlot region index none)
  | .returns (some page) state =>
    (state.setSlot region index (some page)).showPage source space virt page
      true

/-- `vm_getpage` -/
def vmGetpage
    (space : Nat) (start : BitVec 32) (mapping : VmMapping) (offset : BitVec 32)
    (rw : Bool) (read : VnodeRead Vnode) : FaultRun Vnode Int :=
  if ¬ mapping.has protWrite ∧ rw then
    .returns (-1) state
  else
    match state.regions.cells mapping.region with
    | none => .stuck state
    | some region =>
      let pageidx := offset.toInt.tdiv PAGE_SIZE
      let virt := start + offset
      if pageidx < 0 ∨ pageCount region.size ≤ pageidx.toNat then
        .stuck state
      else
        match region.pages pageidx.toNat, mapping.has mapShared with
        | some page, false =>
          if rw then
            fillSlot source space virt mapping.region pageidx.toNat
              (state.vmCopyPage source space virt page)
          else
            state.showPage source space virt page false
        | _, _ =>
          fillSlot source space virt mapping.region pageidx.toNat
            (state.getpage source space virt region offset.toInt read)

end FaultState

end Idylla.Mm
