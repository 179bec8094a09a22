import Idylla.Lib.Search

namespace Idylla.Mm

open Idylla.Lib

/-!
# The region allocator

An area keeps its blocks on two lists, used and free.  Addresses and sizes are
machine words of `w` bits, and every sum of the source wraps around.  A pointer
to a block of a list is the position `firstFound` returns.  The callbacks
`do_alloc` and `do_free` receive the returned block; they act on what its
`dataptr` points to and not on the area.
-/

/-- `struct sma_block`, less its list links. -/
structure SmaBlock (w : Nat) (Data : Type) where
  flags : BitVec 32
  start : BitVec w
  size : BitVec w
  dataptr : Option Data
  deriving DecidableEq

/-- `struct sma_area`, less its mutex and callbacks. -/
structure SmaArea (w : Nat) (Data : Type) where
  usedList : List (SmaBlock w Data)
  freeList : List (SmaBlock w Data)
  start : BitVec w
  size : BitVec w
  deriving DecidableEq

/-- `SMA_FLAGS_USED`. -/
def smaFlagsUsed : BitVec 32 := 0x01

/-- `SMA_ALLOC_FIXED`. -/
def smaAllocFixed : BitVec 32 := 0x02

theorem smaFlagsUsed_set : smaFlagsUsed &&& smaFlagsUsed ≠ 0 := by
  decide

theorem flags_or_used (flags : BitVec 32) :
    (flags ||| smaFlagsUsed) &&& smaFlagsUsed = smaFlagsUsed := by
  ext index
  simp only [BitVec.getElem_and, BitVec.getElem_or,
    Bool.and_eq_right_iff_imp, Bool.or_eq_true]
  exact .inr

theorem flag_set_of_ne_zero {w bit : Nat} {flags flag : BitVec w}
    (oneBit : flag = BitVec.twoPow w bit) (notClear : flags &&& flag ≠ 0) :
    flags &&& flag = flag := by
  rw [oneBit, BitVec.and_twoPow] at notClear ⊢
  split at notClear
  next isSet => exact if_pos isSet
  · exact absurd rfl notClear

theorem flags_eq_used {flags : BitVec 32} (used : flags &&& smaFlagsUsed ≠ 0) :
    flags &&& smaFlagsUsed = smaFlagsUsed :=
  flag_set_of_ne_zero (by decide : smaFlagsUsed = BitVec.twoPow 32 0) used

theorem flags_clear_used (flags : BitVec 32) :
    (flags &&& ~~~smaFlagsUsed) &&& smaFlagsUsed = 0 := by
  ext index
  simp

/-- `PAGE_SIZE`. -/
def pageSize (w : Nat) : BitVec w := BitVec.ofNat w 0x1000

/-- `ROUND_DOWN(v, PAGE_SIZE)`. -/
def pageRoundDown {w : Nat} (v : BitVec w) : BitVec w :=
  v - v % pageSize w

/-- `ROUND_UP(v, PAGE_SIZE)`. -/
def pageRoundUp {w : Nat} (v : BitVec w) : BitVec w :=
  if v % pageSize w = 0 then v
  else v + (pageSize w - v % pageSize w)

variable {w : Nat} {Data : Type}

/-- `block->start + block->size`, as the source computes it. -/
def SmaBlock.stop (block : SmaBlock w Data) : BitVec w :=
  block.start + block.size

/-- The address lies in the block, as the source tests it. -/
def SmaBlock.hits (block : SmaBlock w Data) (addr : BitVec w) : Bool :=
  block.start ≤ addr ∧ addr < block.stop

/-- `sma_list_add`: in front of the first block that starts higher. -/
def smaListAdd (block : SmaBlock w Data) :
    List (SmaBlock w Data) → List (SmaBlock w Data)
  | [] => [block]
  | iter :: rest =>
    if block.start < iter.start then
      block :: iter :: rest
    else
      iter :: smaListAdd block rest

/-- `sma_area_create`: one free block for the whole area. -/
def smaAreaCreate (start size : BitVec w) : SmaArea w Data :=
  { usedList := []
    freeList :=
      [{ flags := 0
         start := pageRoundDown start
         size := pageRoundUp size
         dataptr := none }]
    start := pageRoundDown start
    size := pageRoundUp size }

/--
The search for a free block around the hint: `none` stands for every jump to
`nofixed`, also the one for a block that is too small.
-/
def smaHinted (area : SmaArea w Data) (addr size : BitVec w) :
    Option (Found (SmaBlock w Data)) :=
  if addr = 0 then
    none
  else
    match firstFound (fun block => block.hits addr) area.freeList with
    | none => none
    | some found =>
      if found.item.stop < addr + size then none else some found

/-- The search from `nofixed` on: the first free block that is large enough. -/
def smaFirstFit (area : SmaArea w Data) (size : BitVec w) (flags : BitVec 32) :
    Option (Found (SmaBlock w Data)) :=
  if flags &&& smaAllocFixed ≠ 0 then
    none
  else
    firstFound (fun block => size ≤ block.size) area.freeList

/-- The carving cases in which the new block starts where the found one does. -/
def smaTakeFront (area : SmaArea w Data) (found : Found (SmaBlock w Data))
    (size : BitVec w) : SmaBlock w Data × SmaArea w Data :=
  let block := found.item
  if block.size = size then
    let taken :=
      { block with flags := block.flags ||| smaFlagsUsed }
    (taken,
      { area with
        usedList := smaListAdd taken area.usedList
        freeList := found.passed ++ found.rest })
  else
    let newblock : SmaBlock w Data :=
      { flags := smaFlagsUsed
        start := block.start
        size := size
        dataptr := none }
    let shrunk :=
      { block with
        size := block.size - size
        start := block.start + size }
    (newblock,
      { area with
        usedList := smaListAdd newblock area.usedList
        freeList := found.passed ++ shrunk :: found.rest })

/-- The carving cases in which the new block starts inside the found one. -/
def smaTakeMiddle (area : SmaArea w Data) (found : Found (SmaBlock w Data))
    (addr size : BitVec w) : SmaBlock w Data × SmaArea w Data :=
  let block := found.item
  let newblock : SmaBlock w Data :=
    { flags := smaFlagsUsed
      start := addr
      size := size
      dataptr := none }
  let newblock2 : SmaBlock w Data :=
    { flags := 0
      start := addr + size
      size := block.stop - (addr + size)
      dataptr := none }
  let shrunk := { block with size := addr - block.start }
  let freeList := found.passed ++ shrunk :: found.rest
  (newblock,
    { area with
      usedList := smaListAdd newblock area.usedList
      freeList :=
        -- the list order only depends on the starts, so shrinking the
        -- block before the insertion instead of after it is the same
        if block.stop = addr + size then freeList
        else smaListAdd newblock2 freeList })

/-- The part of `sma_alloc` from `doalloc` on, for the block it has found. -/
def smaCarve (area : SmaArea w Data) (found : Found (SmaBlock w Data))
    (addr size : BitVec w) : SmaBlock w Data × SmaArea w Data :=
  let addr := if found.item.hits addr then addr else 0
  if found.item.start = addr ∨ addr = 0 then
    smaTakeFront area found size
  else
    smaTakeMiddle area found addr size

/-- Both searches of `sma_alloc`, up to `doalloc`. -/
def smaFind (area : SmaArea w Data) (addr size : BitVec w)
    (flags : BitVec 32) : Option (Found (SmaBlock w Data)) :=
  (smaHinted area addr size).or (smaFirstFit area size flags)

/-- `sma_alloc`: the returned block and the area after the call. -/
def smaAlloc (area : SmaArea w Data) (addr size : BitVec w)
    (flags : BitVec 32) : Option (SmaBlock w Data × SmaArea w Data) :=
  (smaFind area addr size flags).map fun found => smaCarve area found addr size

/--
`sma_free`: the area after the call and the block given to `do_free`, if any.
`none` is the endless loop for an address that is in no used block.
-/
def smaFree (area : SmaArea w Data) (start size : BitVec w) :
    Option (SmaArea w Data × Option (SmaBlock w Data)) :=
  match firstFound (fun block => block.hits start) area.usedList with
  | none => none
  | some found =>
    let block := found.item
    if block.start = start ∧ block.size = size then
      let freed :=
        { block with flags := block.flags &&& ~~~smaFlagsUsed }
      some
        ({ area with
           usedList := found.passed ++ found.rest
           freeList := smaListAdd freed area.freeList },
          some freed)
    else
      -- the three remaining cases are `TODO("free memory")`
      some (area, none)

end Idylla.Mm
