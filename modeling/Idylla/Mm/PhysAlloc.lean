import Idylla.Lib.Bitmap
import Idylla.Lib.FreeRuns
import Idylla.Mm.PageDirectories

namespace Idylla.Mm

open Idylla.Lib

/-!
# The words of the frame bitmap

`phys.c` for a 32-bit `unsigned long` and `paddr_t`: the loops over the words
and bits of `_bitmap` with the arithmetic that C does.  An access to a bit that
the array does not have is what C leaves undefined.  The search of
`_alloc_frames` need not end and is given the number of rounds that it may take.
-/

/--
`_bitmap` with `_bitmap_items`, an `unsigned long` that `phys_init` has rounded.
-/
structure FrameBitmap where
  words : Bitmap 32
  items : Nat
  whole : items % 32 = 0
  bounded : items < 2 ^ 32

/-- `PHYS_ZONE_NORMAL` -/
def PHYS_ZONE_NORMAL : BitVec 32 := 0x01

/-- `PHYS_ZONE_DMA` -/
def PHYS_ZONE_DMA : BitVec 32 := 0x02

/-- `PHYS_ZONE_HIGH` -/
def PHYS_ZONE_HIGH : BitVec 32 := 0x04

/-- `PHYS_ALLOW_WAIT` -/
def PHYS_ALLOW_WAIT : BitVec 32 := 0x08

/-- `PHYS_ALLOW_IO` -/
def PHYS_ALLOW_IO : BitVec 32 := 0x10

/-- `DMA_AREA_SIZE` -/
def DMA_AREA_SIZE : Nat := 0x01000000

/-- How the loop ends that counts `c` down while the frames are free. -/
inductive RunCheck where
  | enough
  | taken (i : Nat)
  | outside
  deriving DecidableEq

/-- What a call comes to: it returns, or it accesses a bit that is not there. -/
inductive PhysOutcome where
  | returns (bitmap : FrameBitmap) (page : Nat)
  | outside

namespace FrameBitmap

/-- `_bitmap_size` -/
def size (bitmap : FrameBitmap) : Nat := bitmap.items / 8 / sizeofLong

/-- A frame that the bitmap has and whose bit is clear. -/
def Free (bitmap : FrameBitmap) (frame : Nat) : Prop :=
  frame < bitmap.items ∧ bitmap.words.bit frame = false

instance (bitmap : FrameBitmap) (frame : Nat) :
    Decidable (bitmap.Free frame) :=
  inferInstanceAs (Decidable (_ ∧ _))

/-- `TEST_FRAME` -/
def testFrame (bitmap : FrameBitmap) (x : Nat) : Option Bool :=
  if x < bitmap.items then some (bitmap.words.bit x) else none

/-- `SET_FRAME` -/
def setFrame (bitmap : FrameBitmap) (x : Nat) : Option FrameBitmap :=
  if x < bitmap.items then
    some { bitmap with words := bitmap.words.setBit x }
  else
    none

/-- `CLEAR_FRAME` -/
def clearFrame (bitmap : FrameBitmap) (x : Nat) : Option FrameBitmap :=
  if x < bitmap.items then
    some { bitmap with words := bitmap.words.clearBit x }
  else
    none

/-- A loop that sets or clears a number of bits from `i` on. -/
def overFrames (access : FrameBitmap → Nat → Option FrameBitmap) :
    Nat → Nat → FrameBitmap → Option FrameBitmap
  | _, 0, bitmap => some bitmap
  | i, count + 1, bitmap =>
    (access bitmap i).bind (overFrames access (i + 1) count)

/-- `phys_init`, over what the memory of the bitmap held before. -/
def physInit (memory : Bitmap 32) (frames : BitVec 32) : FrameBitmap where
  words := fun i =>
    if i < roundUp frames.toNat 32 % 2 ^ 32 / 8 / sizeofLong then
      BitVec.allOnes 32
    else
      memory i
  items := roundUp frames.toNat 32 % 2 ^ 32
  whole := by
    have isWhole : roundUp frames.toNat 32 % 32 = 0 := by
      unfold roundUp
      split <;> omega
    omega
  bounded := Nat.mod_lt _ (by decide)

/-- `phys_free`, with the length in pages. -/
def physFree (bitmap : FrameBitmap)
    (start len : BitVec 32) : Option FrameBitmap :=
  let frame := start.toNat / PAGE_SIZE
  if bitmap.items ≤ frame then
    some bitmap
  else
    let len :=
      if bitmap.items ≤ (frame + len.toNat) % 2 ^ 32 then
        bitmap.items - frame
      else
        len.toNat
    overFrames clearFrame frame ((frame + len) % 2 ^ 32 - frame) bitmap

/-- `phys_reserve`, with the length in bytes. -/
def physReserve (bitmap : FrameBitmap)
    (start len : BitVec 32) : Option FrameBitmap :=
  let frame := start.toNat / PAGE_SIZE
  let pages := len.toNat / PAGE_SIZE
  if bitmap.items ≤ frame then
    some bitmap
  else
    let pages :=
      if bitmap.items ≤ (frame + pages) % 2 ^ 32 then bitmap.items - frame
      else pages
    overFrames setFrame frame ((frame + pages) % 2 ^ 32 - frame) bitmap

/-- `_find_first_zero`, which starts with the whole word of `start`. -/
def findFirstZero (bitmap : FrameBitmap) (start : Nat) : Nat :=
  match
    (List.range' (start / 32) (bitmap.size - start / 32)).find? fun i =>
      bitmap.words i != BitVec.allOnes 32 with
  | none => 0
  | some i => i * sizeofLong * 8 + Bitmap.firstZero (bitmap.words i)

/-- The loop that counts `c` down while the frames from `i` on are free. -/
def countDown (bitmap : FrameBitmap) : Nat → Nat → RunCheck
  | 0, _ => .enough
  | c + 1, i =>
    match bitmap.testFrame i with
    | none => .outside
    | some true => .taken i
    | some false => countDown bitmap c (i + 1)

/-- A round of the loop of `_alloc_frames`, which may leave `i` for another. -/
def allocRound (bitmap : FrameBitmap) (len i : Nat) : PhysOutcome ⊕ Nat :=
  let frame := bitmap.findFirstZero i
  if frame = 0 then
    .inl (.returns bitmap 0)
  else
    match bitmap.countDown len frame with
    | .outside => .inl .outside
    | .taken i => .inr i
    | .enough =>
      match overFrames setFrame frame len bitmap with
      | none => .inl .outside
      | some bitmap => .inl (.returns bitmap (frame * PAGE_SIZE % 2 ^ 32))

/-- The loop of `_alloc_frames`. -/
def allocLoop (bitmap : FrameBitmap)
    (len : Nat) : Nat → Nat → Option PhysOutcome
  | 0, _ => none
  | rounds + 1, i =>
    match bitmap.allocRound len i with
    | .inl outcome => some outcome
    | .inr i => allocLoop bitmap len rounds i

/-- `_alloc_frames` -/
def allocFrames (bitmap : FrameBitmap)
    (rounds start len : Nat) : Option PhysOutcome :=
  bitmap.allocLoop len rounds (start / PAGE_SIZE)

/-- The calls of `_alloc_frames` in `phys_alloc`, until one returns a page. -/
def physAllocFrom
    (rounds len : Nat) : List Nat → FrameBitmap → Option PhysOutcome
  | [], bitmap => some (.returns bitmap 0)
  | start :: others, bitmap =>
    match bitmap.allocFrames rounds start len with
    | none => none
    | some .outside => some .outside
    | some (.returns bitmap page) =>
      if page = 0 then physAllocFrom rounds len others bitmap
      else some (.returns bitmap page)

/-- The arguments `start` of these calls, in their order. -/
def zoneStarts (flags : BitVec 32) : List Nat :=
  (if flags &&& PHYS_ZONE_HIGH = PHYS_ZONE_HIGH then [LOWMEM_SIZE] else []) ++
  (if flags &&& PHYS_ZONE_NORMAL = PHYS_ZONE_NORMAL then [DMA_AREA_SIZE]
    else []) ++
  [0] ++
  (if flags &&& PHYS_ALLOW_IO ≠ 0 then [0] else []) ++
  (if flags &&& PHYS_ALLOW_WAIT ≠ 0 then [0] else [])

/-- `phys_alloc` -/
def physAlloc (bitmap : FrameBitmap) (rounds : Nat)
    (len flags : BitVec 32) : Option PhysOutcome :=
  physAllocFrom rounds len.toNat (zoneStarts flags) bitmap

end FrameBitmap

end Idylla.Mm
