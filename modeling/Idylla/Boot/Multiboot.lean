import Idylla.Lib.Run
import Idylla.Mm.Phys

namespace Idylla.Boot

open Idylla.Lib Idylla.Mm

/-!
# Physical memory at boot

`multiboot_init` for the i386 configuration without PAE: the bitmap is put
behind the kernel and the modules, the memory map frees what the BIOS calls
available, and a few reservations take memory back that is in use.
-/

/-- `struct multiboot_mmap`, one entry of the memory map. -/
structure MultibootMmap where
  baseAddrLow : BitVec 32
  baseAddrHigh : BitVec 32
  lengthLow : BitVec 32
  lengthHigh : BitVec 32
  type : BitVec 32
  deriving Repr, DecidableEq

/-- `struct multiboot_module`, where the boot loader has put a module. -/
structure MultibootModule where
  modStart : BitVec 32
  modEnd : BitVec 32
  deriving Repr, DecidableEq

/-- `KERNEL_PHYS_ADDR`, as the configuration sets it. -/
def KERNEL_PHYS_ADDR : Nat := 0x00100000

/-- `LOWMEM_START` -/
def LOWMEM_START : Nat := 0xC0000000

/-- The bits of a `paddr_t`. -/
def paddrBits : Nat := 32

/-- `sizeof(struct multiboot_info)` -/
def sizeofInfo : Nat := 52

/-- `sizeof(struct multiboot_module)` -/
def sizeofModule : Nat := 16

/--
What the boot loader and the linker leave behind: the physical addresses of
`_end` and of `struct multiboot_info`, and the fields of the latter.
-/
structure BootInfo where
  kernelEnd : BitVec 32
  kernelEnd_behind : KERNEL_PHYS_ADDR ≤ kernelEnd.toNat
  info : BitVec 32
  memUpper : BitVec 32
  modsAddr : BitVec 32
  mods : List MultibootModule
  mmap : List MultibootMmap

namespace MultibootMmap

/-- `start` of an entry that lies below 4 GiB. -/
def start (entry : MultibootMmap) : Nat := entry.baseAddrLow.toNat

/-- `len`, which is never cut off while `paddr_t` has 32 bits. -/
def len (entry : MultibootMmap) : Nat :=
  let len :=
    if 0 < entry.lengthHigh.toNat then 0xFFFFFFFF
    else entry.lengthLow.toNat
  if 0xFFFFFFFF < (entry.start + len) % 2 ^ paddrBits then
    0xFFFFFFFF - entry.start
  else
    len

/-- What `_multibot_memory_map` does with one entry. -/
def free (entry : MultibootMmap) (bitmap : PhysBitmap) : PhysBitmap :=
  if entry.type = 1 then
    if entry.baseAddrHigh = 0 then
      bitmap.physFree entry.start (entry.len / PAGE_SIZE)
    else
      bitmap
  else
    bitmap

end MultibootMmap

/-- `_multibot_memory_map` -/
def multibotMemoryMap (bitmap : PhysBitmap)
    (mmap : List MultibootMmap) : PhysBitmap :=
  mmap.foldl (fun bitmap entry => entry.free bitmap) bitmap

namespace BootInfo

variable (boot : BootInfo)

/-- `bitmap`: where the kernel and the modules end. -/
def bitmap : Nat :=
  boot.mods.foldl
    (fun bitmap loaded =>
      if bitmap < loaded.modEnd.toNat then loaded.modEnd.toNat else bitmap)
    boot.kernelEnd.toNat

/-- The bitmap as `phys_init` leaves it. -/
def initBitmap : PhysBitmap :=
  physInit ((boot.bitmap + LOWMEM_START) % 2 ^ 32)
    ((boot.memUpper.toNat + 1024) % 2 ^ 32 / 4)

/-- The bitmap when `multiboot_init` has marked the memory. -/
def multibootInit : PhysBitmap :=
  let bitmap := multibotMemoryMap boot.initBitmap boot.mmap
  let bitmap := bitmap.physReserve 0 PAGE_SIZE
  let bitmap :=
    bitmap.physReserve KERNEL_PHYS_ADDR
      (roundUp (boot.bitmap - KERNEL_PHYS_ADDR) PAGE_SIZE)
  let bitmap :=
    bitmap.physReserve (roundDown boot.info.toNat PAGE_SIZE) PAGE_SIZE
  let bitmap :=
    bitmap.physReserve (roundDown boot.modsAddr.toNat PAGE_SIZE) PAGE_SIZE
  bitmap.physReserveSelf

end BootInfo

/-- `phys_alloc` hands out a frame that is free. -/
inductive PhysAlloc (before : PhysBitmap) : Nat → PhysBitmap → Prop where
  | take {frame : Nat}
      (isFree : before.free frame = true) :
      PhysAlloc before frame (before.take frame)

/-- The frame holds a byte of a range. -/
def Meets (frame start stop : Nat) : Prop :=
  ∃ byte, start ≤ byte ∧ byte < stop ∧ byte / PAGE_SIZE = frame

/-- All bytes of the frame are in a range. -/
def Within (frame start stop : Nat) : Prop :=
  ∀ byte, byte / PAGE_SIZE = frame → start ≤ byte ∧ byte < stop

/-- The first byte of an entry of the memory map, in 64 bits. -/
def MultibootMmap.base (entry : MultibootMmap) : Nat :=
  entry.baseAddrHigh.toNat * 2 ^ 32 + entry.baseAddrLow.toNat

/-- The length of an entry of the memory map, in 64 bits. -/
def MultibootMmap.length (entry : MultibootMmap) : Nat :=
  entry.lengthHigh.toNat * 2 ^ 32 + entry.lengthLow.toNat

namespace BootInfo

variable (boot : BootInfo)

/-- An entry of type 1 holds the whole frame. -/
def Available (frame : Nat) : Prop :=
  ∃ entry ∈ boot.mmap,
    entry.type = 1 ∧ Within frame entry.base (entry.base + entry.length)

/-- The end of the words of the bitmap in physical memory. -/
def bitmapEnd : Nat :=
  boot.bitmap + boot.initBitmap.size * sizeofLong

/-- A frame of available memory that nothing uses. -/
structure Unused (frame : Nat) : Prop where
  available : boot.Available frame
  notFirst : frame ≠ 0
  kernel : ¬ Meets frame KERNEL_PHYS_ADDR boot.kernelEnd.toNat
  modules : ∀ loaded ∈ boot.mods,
      ¬ Meets frame loaded.modStart.toNat loaded.modEnd.toNat
  info : ¬ Meets frame boot.info.toNat (boot.info.toNat + sizeofInfo)
  moduleList : ¬ Meets frame boot.modsAddr.toNat
      (boot.modsAddr.toNat + boot.mods.length * sizeofModule)
  bitmap : ¬ Meets frame boot.bitmap boot.bitmapEnd

/--
All frames that are free after `multiboot_init` are unused, and `phys_alloc`
hands out unused frames only.
-/
def HandsOutUnused : Prop :=
  ∀ taken last, Run PhysAlloc boot.multibootInit taken last →
    (∀ frame, last.free frame = true → boot.Unused frame) ∧
      ∀ frame ∈ taken, boot.Unused frame

end BootInfo

/-- The memory map makes `phys_free` free the frame. -/
structure MultibootMmap.Frees
    (entry : MultibootMmap)
    (frame : Nat) : Prop where
  isAvailable : entry.type = 1
  isLow : entry.baseAddrHigh = 0
  inFrames :
    PhysBitmap.InFrames (entry.start / PAGE_SIZE) (entry.len / PAGE_SIZE) frame

namespace MultibootMmap

variable (entry : MultibootMmap) (bitmap : PhysBitmap)

@[simp] theorem items_free :
    (entry.free bitmap).items = bitmap.items := by
  unfold free
  split
  · split
    · exact PhysBitmap.items_physFree _ _ _
    · rfl
  · rfl

@[simp] theorem address_free :
    (entry.free bitmap).address = bitmap.address := by
  unfold free
  split
  · split
    · exact PhysBitmap.address_physFree _ _ _
    · rfl
  · rfl

theorem free_free (frame : Nat) :
    (entry.free bitmap).free frame = true ↔
      bitmap.free frame = true ∨ frame < bitmap.items ∧ entry.Frees frame := by
  unfold free
  split
  next isAvailable =>
    split
    next isLow =>
      rw [PhysBitmap.free_physFree]
      constructor
      · rintro (isFree | ⟨known, inFrames⟩)
        · exact .inl isFree
        · exact .inr ⟨known, isAvailable, isLow, inFrames⟩
      · rintro (isFree | ⟨known, frees⟩)
        · exact .inl isFree
        · exact .inr ⟨known, frees.inFrames⟩
    next isHigh =>
      exact ⟨.inl, fun isFree => isFree.resolve_right
        fun frees => isHigh frees.2.isLow⟩
  next isReserved =>
    exact ⟨.inl, fun isFree => isFree.resolve_right
      fun frees => isReserved frees.2.isAvailable⟩

theorem len_le_length : entry.len ≤ entry.length := by
  have notCut (number : Nat) : ¬ 0xFFFFFFFF < number % 2 ^ paddrBits :=
    Nat.not_lt_of_le (Nat.le_of_lt_succ (Nat.mod_lt number (by decide)))
  unfold len length
  rw [if_neg (notCut _)]
  split <;> omega

end MultibootMmap

@[simp] theorem items_multibotMemoryMap (bitmap : PhysBitmap)
    (mmap : List MultibootMmap) :
    (multibotMemoryMap bitmap mmap).items = bitmap.items := by
  unfold multibotMemoryMap
  induction mmap generalizing bitmap with
  | nil =>
    rfl
  | cons entry mmap ih =>
    rw [List.foldl_cons, ih, entry.items_free]

@[simp] theorem address_multibotMemoryMap (bitmap : PhysBitmap)
    (mmap : List MultibootMmap) :
    (multibotMemoryMap bitmap mmap).address = bitmap.address := by
  unfold multibotMemoryMap
  induction mmap generalizing bitmap with
  | nil =>
    rfl
  | cons entry mmap ih =>
    rw [List.foldl_cons, ih, entry.address_free]

theorem free_multibotMemoryMap (bitmap : PhysBitmap) (mmap : List MultibootMmap)
    (frame : Nat) :
    (multibotMemoryMap bitmap mmap).free frame = true ↔
      bitmap.free frame = true ∨
        frame < bitmap.items ∧ ∃ entry ∈ mmap, entry.Frees frame := by
  unfold multibotMemoryMap
  induction mmap generalizing bitmap with
  | nil =>
    simp
  | cons entry mmap ih =>
    simp only [List.foldl_cons, ih, entry.free_free,
      entry.items_free, List.mem_cons, exists_eq_or_imp, and_or_left,
      or_assoc]

namespace BootInfo

variable (boot : BootInfo)

/-- One of the reservations of `multiboot_init` takes the frame. -/
def Reserved (frame : Nat) : Prop :=
  PhysBitmap.InFrames 0 1 frame ∨
    PhysBitmap.InFrames (KERNEL_PHYS_ADDR / PAGE_SIZE)
      (roundUp (boot.bitmap - KERNEL_PHYS_ADDR) PAGE_SIZE / PAGE_SIZE)
      frame ∨
    PhysBitmap.InFrames (boot.info.toNat / PAGE_SIZE) 1 frame ∨
    PhysBitmap.InFrames (boot.modsAddr.toNat / PAGE_SIZE) 1 frame ∨
    PhysBitmap.InFrames (boot.initBitmap.address / PAGE_SIZE)
      (roundUp boot.initBitmap.size PAGE_SIZE / PAGE_SIZE) frame

theorem roundDown_div (address : Nat) :
    roundDown address PAGE_SIZE / PAGE_SIZE = address / PAGE_SIZE := by
  unfold roundDown PAGE_SIZE
  omega

theorem free_multibootInit (frame : Nat) :
    boot.multibootInit.free frame = true ↔
      frame < boot.initBitmap.items ∧ (∃ entry ∈ boot.mmap, entry.Frees frame) ∧
        ¬ boot.Reserved frame := by
  have taken : boot.initBitmap.free frame = false := rfl
  have onePage : PAGE_SIZE / PAGE_SIZE = 1 := rfl
  have firstPage : 0 / PAGE_SIZE = 0 := rfl
  unfold multibootInit PhysBitmap.physReserveSelf Reserved
  simp only [PhysBitmap.free_physReserve, PhysBitmap.items_physReserve,
    PhysBitmap.address_physReserve, PhysBitmap.size,
    free_multibotMemoryMap, items_multibotMemoryMap,
    address_multibotMemoryMap, taken, Bool.false_eq_true, false_or,
    roundDown_div, onePage, firstPage]
  constructor
  · rintro ⟨⟨⟨⟨⟨⟨known, frees⟩, first⟩, kernel⟩, info⟩, mods⟩, self⟩
    refine ⟨known, frees, ?_⟩
    rintro (reserved | reserved | reserved | reserved | reserved)
    · exact first ⟨known, reserved⟩
    · exact kernel ⟨known, reserved⟩
    · exact info ⟨known, reserved⟩
    · exact mods ⟨known, reserved⟩
    · exact self ⟨known, reserved⟩
  · rintro ⟨known, frees, unreserved⟩
    simp only [not_or] at unreserved
    obtain ⟨first, kernel, info, mods, self⟩ := unreserved
    exact ⟨⟨⟨⟨⟨⟨known, frees⟩, fun taken => first taken.2⟩,
      fun taken => kernel taken.2⟩, fun taken => info taken.2⟩,
      fun taken => mods taken.2⟩, fun taken => self taken.2⟩

/--
The ways in which the reservations miss a frame: an entry starts inside of it,
it has bytes of a module below the kernel, of `struct multiboot_info` or of the
list of modules behind their first page, or of the bitmap behind the page in
which the modules end.
-/
inductive Overlooked (frame : Nat) : Prop where
  | cutOff {entry : MultibootMmap} (listed : entry ∈ boot.mmap)
      (frees : entry.Frees frame)
      (isFirst : frame = entry.start / PAGE_SIZE)
      (unaligned : entry.start % PAGE_SIZE ≠ 0)
      (unavailable : ¬ boot.Available frame)
  | lowModule {loaded : MultibootModule} (listed : loaded ∈ boot.mods)
      (below : frame < KERNEL_PHYS_ADDR / PAGE_SIZE)
      (meets : Meets frame loaded.modStart.toNat loaded.modEnd.toNat)
  | info (behind : boot.info.toNat / PAGE_SIZE < frame)
      (meets : Meets frame boot.info.toNat (boot.info.toNat + sizeofInfo))
  | moduleList (behind : boot.modsAddr.toNat / PAGE_SIZE < frame)
      (meets :
        Meets frame boot.modsAddr.toNat
          (boot.modsAddr.toNat + boot.mods.length * sizeofModule))
  | bitmap
      (behind :
        KERNEL_PHYS_ADDR / PAGE_SIZE +
            roundUp (boot.bitmap - KERNEL_PHYS_ADDR) PAGE_SIZE / PAGE_SIZE ≤
          frame)
      (meets : Meets frame boot.bitmap boot.bitmapEnd)

/--
Every frame that the memory map frees and no reservation takes back is one
that no reservation had to take back.
-/
def ReservesEnough : Prop :=
  ∀ frame, frame < boot.initBitmap.items →
    (∃ entry ∈ boot.mmap, entry.Frees frame) →
    ¬ boot.Reserved frame →
    ¬ boot.Overlooked frame

theorem le_foldl_end (mods : List MultibootModule) (bitmap : Nat) :
    bitmap ≤
        mods.foldl
          (fun bitmap loaded =>
            if bitmap < loaded.modEnd.toNat then loaded.modEnd.toNat
            else bitmap)
          bitmap ∧
      ∀ loaded ∈ mods,
        loaded.modEnd.toNat ≤
          mods.foldl
            (fun bitmap loaded =>
              if bitmap < loaded.modEnd.toNat then loaded.modEnd.toNat
              else bitmap)
            bitmap := by
  induction mods generalizing bitmap with
  | nil =>
    exact ⟨Nat.le_refl bitmap, nofun⟩
  | cons first mods ih =>
    obtain ⟨above, later⟩ := ih
      (if bitmap < first.modEnd.toNat then first.modEnd.toNat else bitmap)
    have kept : bitmap ≤ if bitmap < first.modEnd.toNat then first.modEnd.toNat
          else bitmap := by
      split <;> omega
    have raised : first.modEnd.toNat ≤
          if bitmap < first.modEnd.toNat then first.modEnd.toNat
          else bitmap := by
      split <;> omega
    refine ⟨Nat.le_trans kept above, fun loaded member => ?_⟩
    rcases List.mem_cons.mp member with rfl | isLater
    · exact Nat.le_trans raised above
    · exact later loaded isLater

theorem kernelEnd_le : boot.kernelEnd.toNat ≤ boot.bitmap :=
  (le_foldl_end boot.mods boot.kernelEnd.toNat).1

theorem modEnd_le {loaded : MultibootModule} (listed : loaded ∈ boot.mods) :
    loaded.modEnd.toNat ≤ boot.bitmap :=
  (le_foldl_end boot.mods boot.kernelEnd.toNat).2 loaded listed

theorem le_roundUp_div (number : Nat) :
    number ≤ roundUp number PAGE_SIZE / PAGE_SIZE * PAGE_SIZE := by
  unfold roundUp PAGE_SIZE
  split <;> omega

variable {boot}

theorem reserved_of_byte {byte : Nat} (behind : KERNEL_PHYS_ADDR ≤ byte)
    (before : byte < boot.bitmap) : boot.Reserved (byte / PAGE_SIZE) := by
  refine .inr (.inl ?_)
  have rounded := le_roundUp_div (boot.bitmap - KERNEL_PHYS_ADDR)
  unfold PhysBitmap.InFrames
  unfold KERNEL_PHYS_ADDR PAGE_SIZE at *
  omega

theorem available_of_frees {entry : MultibootMmap} {frame : Nat}
    (listed : entry ∈ boot.mmap) (frees : entry.Frees frame)
    (whole : frame ≠ entry.start / PAGE_SIZE ∨ entry.start % PAGE_SIZE = 0) :
    boot.Available frame := by
  refine ⟨entry, listed, frees.isAvailable, fun byte inFrame => ?_⟩
  have isBase : entry.base = entry.start := by
    simp [MultibootMmap.base, MultibootMmap.start, frees.isLow]
  have inLength := entry.len_le_length
  obtain ⟨first, last⟩ := frees.inFrames
  unfold PAGE_SIZE at *
  omega

theorem unused_iff {frame : Nat}
    (frees : ∃ entry ∈ boot.mmap, entry.Frees frame)
    (unreserved : ¬ boot.Reserved frame) :
    boot.Unused frame ↔ ¬ boot.Overlooked frame := by
  constructor
  · rintro unused overlooked
    cases overlooked with
    | cutOff listed frees isFirst unaligned unavailable =>
      exact unavailable unused.available
    | lowModule listed below meets =>
      exact unused.modules _ listed meets
    | info behind meets =>
      exact unused.info meets
    | moduleList behind meets =>
      exact unused.moduleList meets
    | bitmap behind meets =>
      exact unused.bitmap meets
  · intro noticed
    refine ⟨?_, ?_, ?_, ?_, ?_, ?_, ?_⟩
    · obtain ⟨entry, listed, frees⟩ := frees
      by_cases whole :
          frame ≠ entry.start / PAGE_SIZE ∨ entry.start % PAGE_SIZE = 0
      · exact available_of_frees listed frees whole
      · rw [not_or, ne_eq, Decidable.not_not] at whole
        refine Classical.byContradiction fun unavailable => noticed ?_
        exact .cutOff listed frees whole.1 whole.2 unavailable
    · rintro rfl
      exact unreserved (.inl ⟨Nat.le_refl 0, Nat.one_pos⟩)
    · rintro ⟨byte, behind, before, rfl⟩
      exact unreserved
        (reserved_of_byte behind (Nat.lt_of_lt_of_le before boot.kernelEnd_le))
    · intro loaded listed meets
      by_cases below : frame < KERNEL_PHYS_ADDR / PAGE_SIZE
      · exact noticed (.lowModule listed below meets)
      · obtain ⟨byte, behind, before, rfl⟩ := meets
        refine unreserved (reserved_of_byte ?_
          (Nat.lt_of_lt_of_le before (boot.modEnd_le listed)))
        unfold KERNEL_PHYS_ADDR PAGE_SIZE at *
        omega
    · intro meets
      by_cases behind : boot.info.toNat / PAGE_SIZE < frame
      · exact noticed (.info behind meets)
      · obtain ⟨byte, start, -, rfl⟩ := meets
        refine unreserved (.inr (.inr (.inl ?_)))
        have isFirst := Nat.div_le_div_right (c := PAGE_SIZE) start
        exact ⟨isFirst, by omega⟩
    · intro meets
      by_cases behind : boot.modsAddr.toNat / PAGE_SIZE < frame
      · exact noticed (.moduleList behind meets)
      · obtain ⟨byte, start, -, rfl⟩ := meets
        refine unreserved (.inr (.inr (.inr (.inl ?_))))
        have isFirst := Nat.div_le_div_right (c := PAGE_SIZE) start
        exact ⟨isFirst, by omega⟩
    · intro meets
      by_cases behind : KERNEL_PHYS_ADDR / PAGE_SIZE +
              roundUp (boot.bitmap - KERNEL_PHYS_ADDR) PAGE_SIZE / PAGE_SIZE ≤
            frame
      · exact noticed (.bitmap behind meets)
      · obtain ⟨byte, start, -, rfl⟩ := meets
        refine unreserved (.inr (.inl ⟨?_, Nat.lt_of_not_le behind⟩))
        have kernel := boot.kernelEnd_behind
        have above := boot.kernelEnd_le
        exact Nat.div_le_div_right (by omega)

theorem handedOut_free {first last : PhysBitmap} {taken : List Nat}
    (ran : Run PhysAlloc first taken last) :
    (∀ frame, last.free frame = true → first.free frame = true) ∧
      ∀ frame ∈ taken, first.free frame = true := by
  refine ran.invariant
    (fun taken last =>
      (∀ frame, last.free frame = true → first.free frame = true) ∧
        ∀ frame ∈ taken, first.free frame = true)
    ⟨fun _ isFree => isFree, nofun⟩ ?_
  rintro past source frame target ⟨stillFree, earlier⟩ step
  cases step with
  | take isFree =>
    constructor
    · intro other otherFree
      exact stillFree other
        ((PhysBitmap.free_take source frame other).mp otherFree).2
    · intro other member
      rcases List.mem_append.mp member with before | isFrame
      · exact earlier other before
      · rw [List.mem_singleton.mp isFrame]
        exact stillFree frame isFree

/--
`phys_alloc` hands out unused memory only, exactly if the reservations of
`multiboot_init` are enough.
-/
theorem handsOutUnused_iff (boot : BootInfo) :
    boot.HandsOutUnused ↔ boot.ReservesEnough := by
  constructor
  · intro unused frame known frees unreserved
    refine (unused_iff frees unreserved).mp ?_
    exact (unused _ _ .start).1 frame
      ((boot.free_multibootInit frame).mpr ⟨known, frees, unreserved⟩)
  · intro enough taken last ran
    have unused {frame : Nat}
        (isFree : boot.multibootInit.free frame = true) :
        boot.Unused frame := by
      obtain ⟨known, frees, unreserved⟩ :=
        (boot.free_multibootInit frame).mp isFree
      exact (unused_iff frees unreserved).mpr
        (enough frame known frees unreserved)
    obtain ⟨stillFree, handedOut⟩ := handedOut_free ran
    exact ⟨fun frame isFree => unused (stillFree frame isFree),
      fun frame member => unused (handedOut frame member)⟩

end BootInfo

/-- A machine with 128 MiB that boots a kernel of 1 MiB without modules. -/
def plainBoot : BootInfo where
  kernelEnd := 0x00200000
  kernelEnd_behind := by decide
  info := 0x00009500
  memUpper := 130048
  modsAddr := 0
  mods := []
  mmap :=
    [{ baseAddrLow := 0, baseAddrHigh := 0,
       lengthLow := 0x0009F000, lengthHigh := 0, type := 1 },
     { baseAddrLow := 0x00100000, baseAddrHigh := 0,
       lengthLow := 0x07EE0000, lengthHigh := 0, type := 1 }]

/-- The frame behind the kernel holds the bitmap, and is free. -/
theorem plainBoot_frees_bitmap :
    ¬ ∀ boot : BootInfo, boot.HandsOutUnused := by
  intro always
  have isFree : plainBoot.multibootInit.free 0x200 = true := by
    rw [plainBoot.free_multibootInit]
    refine ⟨by decide, ⟨_, .tail _ (.head _), rfl, rfl, ?_⟩, ?_⟩
    · unfold PhysBitmap.InFrames
      decide
    · unfold BootInfo.Reserved PhysBitmap.InFrames
      decide
  have unused := (always plainBoot _ _ .start).1 0x200 isFree
  exact unused.bitmap ⟨0x00200000, by decide, by decide, rfl⟩

end Idylla.Boot
