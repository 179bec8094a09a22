import Mathlib.Algebra.Group.Int.Defs
import Mathlib.Algebra.Group.Nat.Defs
import Idylla.Errno
import Idylla.Lib.Heap
import Idylla.Mm.Sma

namespace Idylla.Mm

open Idylla.Lib

/-!
# Mapping memory

`vm_mmap` checks its arguments, takes a block from the area of the address
space and gives the block a mapping with a fresh region.  Regions are shared
between address spaces and live on a heap; a mapping belongs to exactly one
block and is stored in its `dataptr`.
-/

/-- The user memory of an architecture with `w`-bit addresses. -/
structure UserMemory (w : Nat) where
  /-- `USERMEM_START` -/
  start : BitVec w
  /-- `USERMEM_SIZE` -/
  size : BitVec w
  fits : start.toNat + size.toNat ≤ 2 ^ w
  startAligned : start % pageSize w = 0
  sizeAligned : size % pageSize w = 0
  nonempty : size ≠ 0

/-- `arch/page.h` for 32-bit x86, where `LOWMEM_START` is `0xC0000000`. -/
def userMemory32 : UserMemory 32 where
  start := 0x00400000
  size := 0xC0000000 - 0x00400000
  fits := by decide
  startAligned := by decide
  sizeAligned := by decide
  nonempty := by decide

def protNone : BitVec 16 := 0x001
def protRead : BitVec 16 := 0x002
def protWrite : BitVec 16 := 0x004
def protExec : BitVec 16 := 0x008
def mapShared : BitVec 16 := 0x010
def mapPrivate : BitVec 16 := 0x020
def mapFixed : BitVec 16 := 0x040
def mapAnonymous : BitVec 16 := 0x080

/-- `OPEN_MAX` -/
def openMax : Int := 64

/-- `__vm_mmap_anon_ops` and `__vm_mmap_vfs_ops`. -/
inductive VmOps where
  | anon
  | vfs
  deriving Repr, DecidableEq

/--
`struct vm_region`.  A `struct vm_page` is named by the physical frame it
owns: the two are allocated and freed together.
-/
structure VmRegion (w : Nat) (Vnode : Type) where
  refs : Nat
  ops : VmOps
  pages : Nat → Option Nat
  size : BitVec w
  vnode : Option Vnode
  offset : Int

/--
`struct vm_mapping`: its flags, the pointer to its region and its offset,
which is an `off_t`.
-/
structure VmMapping where
  flags : BitVec 16
  region : Nat
  offset : BitVec 32
  deriving DecidableEq

/-- The part of `struct file` that `vm_mmap` reads. -/
structure File (Vnode : Type) where
  vnode : Option Vnode

/-- The arguments of `vm_mmap`, less the address space. -/
structure MmapRequest (w : Nat) where
  start : BitVec w
  length : BitVec w
  flags : BitVec 16
  fd : Int
  offset : Int

variable {w : Nat} {Vnode : Type}

/-- `region->ops->init`; both implementations return 0. -/
def VmOps.init : VmOps → VmRegion w Vnode → Except Errno Unit
  | .anon, _ => .ok ()
  | .vfs, _ => .ok ()

@[simp] theorem VmOps.init_ok (ops : VmOps) (region : VmRegion w Vnode) :
    ops.init region = .ok () := by
  cases ops <;> rfl

/-- The checks of `vm_mmap`, and the file to map if there is one. -/
def mmapFile (filedes : Int → Option (File Vnode)) (request : MmapRequest w) :
    Except Errno (Option (File Vnode)) :=
  if request.start % pageSize w ≠ 0 ∨ request.length = 0 ∨
      request.length % pageSize w ≠ 0 then
    .error .EINVAL
  else if request.flags &&& protNone ≠ 0 ∧
      request.flags &&& (protRead ||| protWrite ||| protExec) ≠ 0 then
    .error .EINVAL
  else if request.flags &&& mapAnonymous ≠ mapAnonymous then
    if request.fd < 0 ∨ openMax ≤ request.fd then
      .error .EBADF
    else
      match filedes request.fd with
      | none => .error .EBADF
      | some file => .ok (some file)
  else
    .ok none

/-- The flags `vm_mmap` hands to `sma_alloc`. -/
def mmapAllocFlags (request : MmapRequest w) : BitVec 32 :=
  if request.flags &&& mapFixed ≠ 0 then smaAllocFixed else 0

/-- The region `vm_mmap` creates for a block. -/
def mmapRegion (file : Option (File Vnode)) (request : MmapRequest w)
    (block : SmaBlock w VmMapping) : VmRegion w Vnode where
  refs := 1
  ops := if request.flags &&& mapAnonymous ≠ 0 then .anon else .vfs
  pages := fun _ => none
  size := block.size
  vnode := file.bind File.vnode
  offset := request.offset

/--
`block->dataptr = data` for the block `sma_alloc` has just put on the used
list: `sma_list_add` looks at the starts only, so the block stands where the
changed block would have been put.
-/
def setDataptr {Data : Type} (before : SmaArea w Data) (block : SmaBlock w Data)
    (data : Data) (area : SmaArea w Data) : SmaArea w Data :=
  { area with
    usedList := smaListAdd { block with dataptr := some data } before.usedList }

/-- What `vm_mmap` changes: the region heap and the area of the space. -/
structure MmapState (w : Nat) (Vnode : Type) where
  regions : Heap (VmRegion w Vnode)
  area : SmaArea w VmMapping

/-- `vm_mmap`: the address it stores in `*addr`, or its error. -/
def vmMmap (filedes : Int → Option (File Vnode)) (request : MmapRequest w)
    (state : MmapState w Vnode) : MmapState w Vnode × Except Errno (BitVec w) :=
  match mmapFile filedes request with
  | .error errno => (state, .error errno)
  | .ok file =>
    match smaAlloc state.area request.start request.length
        (mmapAllocFlags request) with
    | none => (state, .error .ENOMEM)
    | some (block, area) =>
      let region := mmapRegion file request block
      let mapping : VmMapping :=
        { flags := request.flags
          region := state.regions.next
          offset := 0 }
      let mapped : MmapState w Vnode :=
        { regions := state.regions.alloc region
          area := setDataptr state.area block mapping area }
      match region.ops.init region with
      | .error errno => (mapped, .error errno)
      | .ok () => (mapped, .ok block.start)

/-- `vm_space_create`: the area of a fresh address space. -/
def vmSpaceArea (memory : UserMemory w) : SmaArea w VmMapping :=
  smaAreaCreate memory.start memory.size

end Idylla.Mm
