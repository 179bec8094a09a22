import Idylla.Mm.VmSetup

namespace Idylla.Mm

/-!
# Address spaces from creation to destruction

The calls an address space sees during its life, and what they ask of the
frame allocator, of the pager and of the reference counts of vnodes.  What a
function asks for is listed beside its model, in the order of the source.
-/

/-- What the code of address spaces asks of the rest of the kernel. -/
inductive VmEvent (w : Nat) (Vnode : Type) where
  /-- `phys_alloc` of the frame of a page. -/
  | physAlloc (frame : Nat)
  /-- `phys_free` of the frame of a page. -/
  | physFree (frame : Nat)
  /-- `paging_map_page` of an address of a space. -/
  | mapPage (space : Nat) (virt : BitVec w)
  /-- `VNODE_HOLD` -/
  | vnodeHold (vnode : Vnode)
  /-- `VNODE_REL` -/
  | vnodeRel (vnode : Vnode)
  deriving DecidableEq

variable {w : Nat} {Vnode : Type}

/-- `if (vnode) VNODE_HOLD(vnode)`. -/
def holdEvents : Option Vnode → List (VmEvent w Vnode)
  | none => []
  | some vnode => [.vnodeHold vnode]

/-- `if (vnode) VNODE_REL(vnode)`. -/
def relEvents : Option Vnode → List (VmEvent w Vnode)
  | none => []
  | some vnode => [.vnodeRel vnode]

/-- The page given up when its last reference is released. -/
def releasePageEvents (state : VmState w Vnode)
    (frame : Nat) : List (VmEvent w Vnode) :=
  match state.pages frame with
  | none => []
  | some refs => if refs - 1 = 0 then [.physFree frame] else []

/-- `vm_copy_page`. -/
def vmCopyPageEvents (state : VmState w Vnode) (space : Nat) (virt : BitVec w)
    (old frame : Nat) : List (VmEvent w Vnode) :=
  [.physAlloc frame, .mapPage space virt] ++
    releasePageEvents (state.newPage frame (state.bytes old)) old

/-- `region->ops->getpage`. -/
def VmRegion.getpageEvents
    (region : VmRegion w Vnode) (space : Nat) (virt : BitVec w) (offset : Int)
    (read : VnodeRead Vnode) (frame : Nat) : List (VmEvent w Vnode) :=
  match region.ops with
  | .anon => [.physAlloc frame, .mapPage space virt]
  | .vfs =>
    match region.vnode with
    | none => []
    | some vnode =>
      match read vnode (region.offset + offset) with
      | .error _ =>
        [.physAlloc frame, .mapPage space virt, .physFree frame]
      | .ok _ => [.physAlloc frame, .mapPage space virt]

/-- `vm_getpage`. -/
def vmGetpageEvents (state : VmState w Vnode) (space : Nat) (start : BitVec w)
    (mapping : VmMapping) (offset : BitVec 32) (rw : Bool)
    (read : VnodeRead Vnode) (frame : Nat) : List (VmEvent w Vnode) :=
  if ¬ mapping.has protWrite ∧ rw then
    []
  else
    match state.regions.cells mapping.region with
    | none => []
    | some region =>
      let pageidx := offset.toInt.tdiv PAGE_SIZE
      let virt := start + BitVec.ofInt w offset.toInt
      if pageidx < 0 ∨ pageCount region.size ≤ pageidx.toNat then
        []
      else
        match region.pages pageidx.toNat, mapping.has mapShared with
        | some page, false =>
          if rw then
            vmCopyPageEvents state space virt page frame ++
              [.mapPage space virt]
          else
            [.mapPage space virt]
        | _, _ =>
          region.getpageEvents space virt offset.toInt read frame ++
            match region.getpage state space virt offset.toInt read frame with
            | some (_, some _) => [.mapPage space virt]
            | _ => []

/-- `vm_pagefault`. -/
def vmPagefaultEvents
    (state : VmState w Vnode) (space : Nat) (address : BitVec w) (rw : Bool)
    (read : VnodeRead Vnode) (frame : Nat) : List (VmEvent w Vnode) :=
  match smaGetblock (state.spaces space).area address with
  | none => []
  | some block =>
    if block.flags &&& smaFlagsUsed ≠ smaFlagsUsed then
      []
    else
      match block.dataptr with
      | none => []
      | some mapping =>
        vmGetpageEvents state space block.start mapping
          ((pageRoundDown (address - block.start)).setWidth 32)
          rw read frame

/-- `vm_mmap`. -/
def vmSpaceMmapEvents (state : VmState w Vnode) (space : Nat)
    (call : MmapCall w Vnode) : List (VmEvent w Vnode) :=
  match mmapFile call.filedes call.request with
  | .error _ => []
  | .ok file =>
    match smaAlloc (state.spaces space).area call.request.start
        call.request.length (mmapAllocFlags call.request) with
    | none => []
    | some _ => holdEvents (file.bind File.vnode)

/-- One turn of the loop of `vm_destroy_region`. -/
def releaseSlotEvents (state : VmState w Vnode)
    (region index : Nat) : List (VmEvent w Vnode) :=
  match state.slot region index with
  | none => []
  | some page => releasePageEvents state page

/-- The loop of `vm_destroy_region`. -/
def releaseSlotsEvents (state : VmState w Vnode)
    (region : Nat) : Nat → List (VmEvent w Vnode)
  | 0 => []
  | count + 1 =>
    releaseSlotsEvents state region count ++
      releaseSlotEvents (releaseSlots state region count) region count

/-- `vm_destroy_region`. -/
def vmDestroyRegionEvents (state : VmState w Vnode)
    (region count : Nat) : List (VmEvent w Vnode) :=
  releaseSlotsEvents state region count ++
    relEvents ((state.regions.cells region).bind VmRegion.vnode)

/-- The loop that maps the pages of the source read-only. -/
def protectSlotsEvents (state : VmState w Vnode) (src : Nat) (start : BitVec w)
    (region : Nat) : Nat → List (VmEvent w Vnode)
  | 0 => []
  | count + 1 =>
    protectSlotsEvents state src start region count ++
      match (protectSlots state src start region count).slot region count with
      | none => []
      | some _ => [.mapPage src (pageAddress start count)]

/-- The part of `vm_clone` that gives source and clone a region each. -/
def splitRegionEvents
    (state : VmState w Vnode) (src : Nat) (block : SmaBlock w VmMapping)
    (old : Nat) (region : VmRegion w Vnode) : List (VmEvent w Vnode) :=
  let parent := state.regions.next
  let child := parent + 1
  let fresh := { region with refs := 1, pages := fun _ => none }
  let allocated := (state.allocRegion fresh).allocRegion fresh
  let shared :=
    shareSlots allocated old parent child (pageCount region.size)
  let protectedPages :=
    protectSlots shared src block.start old (pageCount block.size)
  let dropped := protectedPages.dropRegion old
  holdEvents region.vnode ++ holdEvents region.vnode ++
    protectSlotsEvents shared src block.start old (pageCount block.size) ++
      if region.refs - 1 = 0 then
        vmDestroyRegionEvents dropped old (pageCount region.size)
      else
        []

/-- `vm_clone`. -/
def vmCloneEvents (state : VmState w Vnode) (src dest : Nat)
    (block : SmaBlock w VmMapping) : List (VmEvent w Vnode) :=
  match block.dataptr with
  | none => []
  | some mapping =>
    match smaAlloc (state.spaces dest).area block.start block.size
        smaAllocFixed with
    | none => []
    | some _ =>
      match state.regions.cells mapping.region with
      | none => []
      | some region =>
        if sharesRegion mapping region then
          []
        else
          splitRegionEvents state src block mapping.region region

/-- The loop of `vm_space_clone`. -/
def cloneBlocksEvents (src dest : Nat) :
    List (SmaBlock w VmMapping) →
    List (SmaBlock w VmMapping) →
    VmState w Vnode → List (VmEvent w Vnode)
  | _, [], _ => []
  | front, block :: behind, state =>
    vmCloneEvents state src dest block ++
      match vmClone state src dest front block behind with
      | none => []
      | some (_, .error _) => []
      | some (cloned, .ok kept) =>
        cloneBlocksEvents src dest (front ++ [kept]) behind cloned

/-- `vm_space_clone`. -/
def vmSpaceCloneEvents (state : VmState w Vnode)
    (dest src : Nat) : List (VmEvent w Vnode) :=
  cloneBlocksEvents src dest [] (state.spaces src).area.usedList state

/-- The loop of `vm_destroy` over the first pages of a block. -/
def unmapPages (state : VmState w Vnode) (space : Nat)
    (start : BitVec w) : Nat → VmState w Vnode
  | 0 => state
  | count + 1 =>
    (unmapPages state space start count).unmapPage space
      (pageAddress start count)

/-- `vm_destroy`, with what it asks for. -/
def vmDestroy (state : VmState w Vnode) (space : Nat)
    (block : SmaBlock w VmMapping) :
    Option (VmState w Vnode × List (VmEvent w Vnode)) :=
  match block.dataptr with
  | none => none
  | some mapping =>
    match state.regions.cells mapping.region with
    | none => none
    | some region =>
      let unmapped :=
        unmapPages state space block.start (pageCount block.size)
      let dropped := unmapped.dropRegion mapping.region
      if region.refs - 1 = 0 then
        some
          (vmDestroyRegion dropped mapping.region (pageCount region.size),
            vmDestroyRegionEvents dropped mapping.region
              (pageCount region.size))
      else
        some (dropped, [])

/-- The used list of an address space replaced. -/
def VmState.setUsedList (state : VmState w Vnode) (space : Nat)
    (usedList : List (SmaBlock w VmMapping)) : VmState w Vnode :=
  state.setArea space { (state.spaces space).area with usedList := usedList }

/-- The first loop of `sma_area_destroy`, over the used blocks. -/
def destroyBlocks (space : Nat) :
    List (SmaBlock w VmMapping) →
    VmState w Vnode →
    Option (VmState w Vnode × List (VmEvent w Vnode))
  | [], state => some (state, [])
  | block :: rest, state =>
    match vmDestroy state space block with
    | none => none
    | some (destroyed, events) =>
      match destroyBlocks space rest (destroyed.setUsedList space rest) with
      | none => none
      | some (after, later) => some (after, events ++ later)

/-- `sma_area_destroy` of the area of an address space. -/
def smaAreaDestroy (state : VmState w Vnode) (space : Nat) :
    Option (VmState w Vnode × List (VmEvent w Vnode)) :=
  match destroyBlocks space (state.spaces space).area.usedList state with
  | none => none
  | some (after, events) =>
    some
      (after.setArea space
        { (after.spaces space).area with usedList := [], freeList := [] },
        events)

/--
The address spaces below `created` have been created, `refs` is
`vmspace->refs`, and `events` is all that has been asked for, oldest first.
-/
structure VmSpaces (w : Nat) (Vnode : Type) where
  vm : VmState w Vnode
  created : Nat
  refs : Nat → Nat
  events : List (VmEvent w Vnode)

namespace VmSpaces

/-- No address space has been created. -/
def boot (memory : UserMemory w)
    (bytes : Nat → PageBytes) : VmSpaces w Vnode where
  vm := .boot memory bytes
  created := 0
  refs := fun _ => 0
  events := []

/-- `vmspace->refs` of one address space replaced. -/
def setRefs (spaces : VmSpaces w Vnode) (space refs : Nat) : VmSpaces w Vnode :=
  { spaces with
    refs := fun other => if other = space then refs else spaces.refs other }

/-- A change of the address spaces with what it has asked for. -/
def record (spaces : VmSpaces w Vnode) (vm : VmState w Vnode)
    (events : List (VmEvent w Vnode)) : VmSpaces w Vnode :=
  { spaces with vm := vm, events := spaces.events ++ events }

/-- `vm_space_create`, less the page directory. -/
def vmSpaceCreate (memory : UserMemory w)
    (spaces : VmSpaces w Vnode) : VmSpaces w Vnode :=
  { (spaces.setRefs spaces.created 1) with
    vm :=
      { spaces.vm with
        spaces := fun other =>
          if other = spaces.created then Mm.vmSpaceCreate memory
          else spaces.vm.spaces other }
    created := spaces.created + 1 }

/-- `vm_space_destroy`, less the page directory. -/
def vmSpaceDestroy (spaces : VmSpaces w Vnode)
    (space : Nat) : Option (VmSpaces w Vnode) :=
  let dropped := spaces.setRefs space (spaces.refs space - 1)
  if 0 < dropped.refs space then
    some dropped
  else
    match smaAreaDestroy dropped.vm space with
    | none => none
    | some (vm, events) => some (dropped.record vm events)

variable {spaces : VmSpaces w Vnode}

theorem area_vmSpaceCreate (memory : UserMemory w) (spaces : VmSpaces w Vnode)
    (space : Nat) :
    ((spaces.vmSpaceCreate memory).vm.spaces space).area =
      if space = spaces.created then vmSpaceArea memory
      else (spaces.vm.spaces space).area := by
  by_cases isNew : space = spaces.created <;>
    simp [vmSpaceCreate, setRefs, Mm.vmSpaceCreate, isNew]

/-- Address spaces that have not been created are not in use. -/
def Unborn (spaces : VmSpaces w Vnode) : Prop :=
  ∀ space, spaces.created ≤ space → spaces.refs space = 0

namespace Unborn

theorem below (unborn : Unborn spaces) {space : Nat}
    (inUse : 0 < spaces.refs space) : space < spaces.created := by
  apply Nat.lt_of_not_le
  intro above
  rw [unborn space above] at inUse
  exact Nat.lt_irrefl 0 inUse

theorem setRefs (unborn : Unborn spaces) {space : Nat}
    (below : space < spaces.created) (refs : Nat) :
    Unborn (spaces.setRefs space refs) := by
  intro other above
  have above : spaces.created ≤ other := above
  show (if other = space then refs else spaces.refs other) = 0
  rw [if_neg (by omega)]
  exact unborn other above

theorem create (unborn : Unborn spaces) (memory : UserMemory w) :
    Unborn (spaces.vmSpaceCreate memory) := by
  intro space above
  have above : spaces.created + 1 ≤ space := above
  show (if space = spaces.created then 1 else spaces.refs space) = 0
  rw [if_neg (by omega)]
  exact unborn space (by omega)

end Unborn

end VmSpaces

/--
The calls on address spaces; `share` is the `atomic_inc(&vmspace->refs)` of
`sys_fork`.  A page fault carries what the files deliver and the frame
`phys_alloc` hands out.
-/
inductive VmCall (w : Nat) (Vnode : Type) where
  | create
  | share (space : Nat)
  | mmap (space : Nat) (call : MmapCall w Vnode)
  | fault (space : Nat) (address : BitVec w) (rw : Bool)
      (read : VnodeRead Vnode)
      (frame : Nat)
  | clone (dest src : Nat)
  | destroy (space : Nat)

namespace VmCall

/-- The state after a call; `none` where C leaves it undefined. -/
def run (memory : UserMemory w) (spaces : VmSpaces w Vnode) :
    VmCall w Vnode → Option (VmSpaces w Vnode)
  | .create => some (spaces.vmSpaceCreate memory)
  | .share space => some (spaces.setRefs space (spaces.refs space + 1))
  | .mmap space call =>
    some
      (spaces.record (vmSpaceMmap spaces.vm space call)
        (vmSpaceMmapEvents spaces.vm space call))
  | .fault space address rw read frame =>
    (vmPagefault spaces.vm space address rw read frame).map
      fun returned =>
        spaces.record returned.1
          (vmPagefaultEvents spaces.vm space address rw read frame)
  | .clone dest src =>
    (vmSpaceClone spaces.vm dest src).map fun returned =>
      spaces.record returned.1 (vmSpaceCloneEvents spaces.vm dest src)
  | .destroy space => spaces.vmSpaceDestroy space

/--
What the callers see to: the address spaces of a call are in use and
different, nothing is mapped with `MAP_SHARED`, and `phys_alloc` hands out a
frame that no page owns.
-/
def Promised (spaces : VmSpaces w Vnode) : VmCall w Vnode → Prop
  | .create => True
  | .share space => 0 < spaces.refs space
  | .mmap space call =>
    0 < spaces.refs space ∧ call.request.flags &&& mapShared = 0
  | .fault space _ _ _ frame =>
    0 < spaces.refs space ∧ spaces.vm.pages frame = none
  | .clone dest src =>
    0 < spaces.refs dest ∧ 0 < spaces.refs src ∧ dest ≠ src
  | .destroy space => 0 < spaces.refs space

end VmCall

/-- A promised call as a transition. -/
def VmCallStep
    (memory : UserMemory w) (spaces : VmSpaces w Vnode) (call : VmCall w Vnode)
    (next : VmSpaces w Vnode) : Prop :=
  call.Promised spaces ∧ call.run memory spaces = some next

end Idylla.Mm
