import Idylla.Lib.Memory
import Idylla.Mm.VmSpace

namespace Idylla.Mm

open Idylla.Lib

/-!
# The bitmap of physical memory

`phys.c` keeps one bit for every page frame.  Everything starts as taken;
`phys_free` clears and `phys_reserve` sets the bits of a range of frames, cut
off where the bitmap ends.
-/

/-- `_bitmap`, `_bitmap_items`, and which frames have their bit clear. -/
structure PhysBitmap where
  address : Nat
  items : Nat
  free : Memory Bool

/-- `ROUND_UP` -/
def roundUp (number unit : Nat) : Nat :=
  if number % unit = 0 then number else number + (unit - number % unit)

/-- `ROUND_DOWN` -/
def roundDown (number unit : Nat) : Nat :=
  number - number % unit

/-- `sizeof(unsigned long)` -/
def sizeofLong : Nat := 4

/-- `phys_init` -/
def physInit (address frames : Nat) : PhysBitmap where
  address := address
  items := roundUp frames (sizeofLong * 8)
  free := fun _ => false

namespace PhysBitmap

/-- `_bitmap_size`, in words. -/
def size (bitmap : PhysBitmap) : Nat := bitmap.items / 8 / sizeofLong

/-- `phys_free`, with the length in pages. -/
def physFree (bitmap : PhysBitmap) (start len : Nat) : PhysBitmap :=
  let frame := start / PAGE_SIZE
  if bitmap.items ≤ frame then
    bitmap
  else
    let len :=
      if bitmap.items ≤ frame + len then bitmap.items - frame else len
    { bitmap with free := bitmap.free.fill frame true len }

/-- `phys_reserve`, with the length in bytes. -/
def physReserve (bitmap : PhysBitmap) (start len : Nat) : PhysBitmap :=
  let frame := start / PAGE_SIZE
  let pages := len / PAGE_SIZE
  if bitmap.items ≤ frame then
    bitmap
  else
    let pages :=
      if bitmap.items ≤ frame + pages then bitmap.items - frame else pages
    { bitmap with free := bitmap.free.fill frame false pages }

/-- `phys_reserve_self` -/
def physReserveSelf (bitmap : PhysBitmap) : PhysBitmap :=
  bitmap.physReserve (roundDown bitmap.address PAGE_SIZE)
    (roundUp bitmap.size PAGE_SIZE)

/-- `phys_free` of one frame. -/
def give (bitmap : PhysBitmap) (frame : Nat) : PhysBitmap :=
  bitmap.physFree (frame * PAGE_SIZE) 1

/-- `SET_FRAME` of a frame that `phys_alloc` has found. -/
def take (bitmap : PhysBitmap) (frame : Nat) : PhysBitmap :=
  { bitmap with
    free := fun other => if other = frame then false else bitmap.free other }

/-- A number of frames from one on. -/
def InFrames (first count frame : Nat) : Prop :=
  first ≤ frame ∧ frame < first + count

section Marks

variable (bitmap : PhysBitmap) (start len : Nat)

@[simp] theorem items_physFree :
    (bitmap.physFree start len).items = bitmap.items := by
  unfold physFree
  dsimp only
  split <;> rfl

@[simp] theorem address_physFree :
    (bitmap.physFree start len).address = bitmap.address := by
  unfold physFree
  dsimp only
  split <;> rfl

@[simp] theorem items_physReserve :
    (bitmap.physReserve start len).items = bitmap.items := by
  unfold physReserve
  dsimp only
  split <;> rfl

@[simp] theorem address_physReserve :
    (bitmap.physReserve start len).address = bitmap.address := by
  unfold physReserve
  dsimp only
  split <;> rfl

theorem inFrames_cut {items first count frame : Nat} (known : ¬ items ≤ first) :
    (first ≤ frame ∧
        frame <
          first + if items ≤ first + count then items - first else count) ↔
      frame < items ∧ InFrames first count frame := by
  unfold InFrames
  split <;> omega

theorem free_physFree (frame : Nat) :
    (bitmap.physFree start len).free frame = true ↔
      bitmap.free frame = true ∨
        frame < bitmap.items ∧ InFrames (start / PAGE_SIZE) len frame := by
  unfold physFree
  dsimp only
  split
  · constructor
    · exact .inl
    · rintro (isFree | ⟨known, first, -⟩)
      · exact isFree
      · omega
  next known =>
    simp only [Memory.fill_eq]
    by_cases inside :
        frame < bitmap.items ∧ InFrames (start / PAGE_SIZE) len frame
    · rw [if_pos ((inFrames_cut known).mpr inside)]
      simp [inside]
    · rw [if_neg (mt (inFrames_cut known).mp inside)]
      simp [inside]

theorem free_physReserve (frame : Nat) :
    (bitmap.physReserve start len).free frame = true ↔
      bitmap.free frame = true ∧
        ¬ (frame < bitmap.items ∧
          InFrames (start / PAGE_SIZE) (len / PAGE_SIZE) frame) := by
  unfold physReserve
  dsimp only
  split
  · constructor
    · intro isFree
      refine ⟨isFree, ?_⟩
      rintro ⟨known, first, -⟩
      omega
    · exact And.left
  next known =>
    simp only [Memory.fill_eq]
    by_cases inside : frame < bitmap.items ∧
          InFrames (start / PAGE_SIZE) (len / PAGE_SIZE) frame
    · rw [if_pos ((inFrames_cut known).mpr inside)]
      simp [inside]
    · rw [if_neg (mt (inFrames_cut known).mp inside)]
      simp [inside]

theorem free_take (frame other : Nat) :
    (bitmap.take frame).free other = true ↔
      other ≠ frame ∧ bitmap.free other = true := by
  unfold take
  dsimp only
  split <;> simp_all

end Marks

theorem take_in_use {bitmap : PhysBitmap} {frame : Nat}
    (inUse : bitmap.free frame = false) (other : Nat) :
    (bitmap.take other).free frame = false := by
  rw [Bool.eq_false_iff] at inUse ⊢
  rw [ne_eq, free_take]
  exact fun isFree => inUse isFree.2

theorem give_in_use {bitmap : PhysBitmap} {frame other : Nat}
    (inUse : bitmap.free frame = false) (different : frame ≠ other) :
    (bitmap.give other).free frame = false := by
  rw [Bool.eq_false_iff] at inUse ⊢
  rw [give, ne_eq, free_physFree, PAGE_SIZE, InFrames]
  rintro (isFree | ⟨-, first, last⟩)
  · exact inUse isFree
  · omega

end PhysBitmap

end Idylla.Mm
