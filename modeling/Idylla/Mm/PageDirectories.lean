import Idylla.Boot.Multiboot

namespace Idylla.Mm

open Idylla.Lib Idylla.Boot

/-!
# The kernel half of the page directories

`page_32.c` over the physical memory that holds the page directories and the
page tables.  A page table is reached through `KERNEL_PHYS2VIRT`, that is in
low memory, and nobody asks whether an entry of a directory is a page of 4 MB
instead: such an entry sends `paging_map_page` to the frame of that page.
-/

/-- The number of a page frame. -/
abbrev Frame := BitVec 20

/-- The position of an entry in a directory or in a table. -/
abbrev EntryIndex := BitVec 10

/-- `PG_FLAG_PRESENT` -/
def PG_FLAG_PRESENT : BitVec 12 := 0x001

/-- `PG_FLAG_RW` -/
def PG_FLAG_RW : BitVec 12 := 0x002

/-- `PG_FLAG_USER` -/
def PG_FLAG_USER : BitVec 12 := 0x004

/-- `PG_FLAG_SIZE`, a page of 4 MB. -/
def PG_FLAG_SIZE : BitVec 12 := 0x080

/-- `KHEAP_START` -/
def KHEAP_START : BitVec 32 := 0xE0000000

/-- `LOWMEM_SIZE` -/
def LOWMEM_SIZE : Nat := 0x20000000

/-- `PGDIR_ENTRY` -/
def PGDIR_ENTRY (virt : BitVec 32) : EntryIndex :=
  (virt >>> 22).setWidth 10

/-- `PGTAB_ENTRY` -/
def PGTAB_ENTRY (virt : BitVec 32) : EntryIndex :=
  (virt >>> 12).setWidth 10

/-- The physical address of a frame. -/
def Frame.address (frame : Frame) : BitVec 32 :=
  frame.setWidth 32 <<< 12

/-- The frame that `KERNEL_PHYS2VIRT` reaches is one of low memory. -/
def Frame.IsLow (frame : Frame) : Prop :=
  frame.address.toNat < LOWMEM_SIZE

/-- An address with flags, as an entry holds them. -/
def withFlags (address : BitVec 32) (flags : BitVec 12) : BitVec 32 :=
  address ||| flags.setWidth 32

/-- The frame of the address in an entry, `& PG_ADDR_MASK`. -/
def frameOf (entry : BitVec 32) : Frame :=
  (entry >>> 12).setWidth 20

/-- The flags of an entry. -/
def flagsOf (entry : BitVec 32) : BitVec 12 :=
  entry.setWidth 12

/-- `PG_FLAG_PRESENT` of an entry. -/
def isPresent (entry : BitVec 32) : Bool :=
  flagsOf entry &&& PG_FLAG_PRESENT == PG_FLAG_PRESENT

/--
The words of physical memory by frame and position, the frames of the
directories that have been created and the frames that `phys_alloc` has handed
out.
-/
structure PageMemory where
  words : Frame → EntryIndex → BitVec 32
  directories : List Frame
  taken : List Frame

/-- The frame of an address and the flags on the way to it. -/
structure Translation where
  frame : Frame
  directoryFlags : BitVec 12
  pageFlags : Option (BitVec 12)
  deriving Repr, DecidableEq

namespace PageMemory

variable (memory : PageMemory)

/-- One word written. -/
def setWord (frame : Frame) (index : EntryIndex)
    (word : BitVec 32) : PageMemory :=
  { memory with
    words := fun other at_ =>
      if other = frame ∧ at_ = index then word else memory.words other at_ }

/-- `memset` of a frame with zeros. -/
def clearFrame (frame : Frame) : PageMemory :=
  { memory with
    words := fun other index =>
      if other = frame then 0 else memory.words other index }

/-- `phys_alloc` has handed a frame out. -/
def take (frame : Frame) : PageMemory :=
  { memory with taken := frame :: memory.taken }

/-- What the processor makes of an address under a directory. -/
def translate (directory : Frame) (virt : BitVec 32) : Option Translation :=
  let entry := memory.words directory (PGDIR_ENTRY virt)
  if isPresent entry = false then
    none
  else if flagsOf entry &&& PG_FLAG_SIZE ≠ 0 then
    some
      { frame :=
          (frameOf entry &&& 0xFFC00) ||| (PGTAB_ENTRY virt).setWidth 20
        directoryFlags := flagsOf entry
        pageFlags := none }
  else
    let page := memory.words (frameOf entry) (PGTAB_ENTRY virt)
    if isPresent page = false then
      none
    else
      some
        { frame := frameOf page
          directoryFlags := flagsOf entry
          pageFlags := some (flagsOf page) }

/-- The body of the loop of `paging_setup`. -/
def setupTable (kernel : Frame) (index : EntryIndex)
    (table : Frame) : PageMemory :=
  ((memory.take table).clearFrame table).setWord kernel index
    (withFlags (withFlags table.address PG_FLAG_PRESENT) PG_FLAG_RW)

/--
The loop of `paging_setup` over the first entries from that of `KHEAP_START`
on, with the tables that `phys_alloc` hands out.
-/
def setupTables (kernel : Frame) (tables : Nat → Frame) : Nat → PageMemory
  | 0 => memory
  | count + 1 =>
    (setupTables kernel tables count).setupTable kernel
      (PGDIR_ENTRY KHEAP_START + BitVec.ofNat 10 count) (tables count)

/-- `paging_setup` -/
def pagingSetup (kernel : Frame) (tables : Nat → Frame) : PageMemory :=
  memory.setupTables kernel tables (1024 - (PGDIR_ENTRY KHEAP_START).toNat)

/-- The new page table of `paging_map_page`, cleared and entered. -/
def linkTable (dir : Frame) (index : EntryIndex) (table : Frame) : PageMemory :=
  ((memory.take table).clearFrame table).setWord dir index
    (withFlags (withFlags (withFlags table.address PG_FLAG_USER) PG_FLAG_RW)
      PG_FLAG_PRESENT)

/-- `paging_map_page`, with whether it returns 0. -/
def pagingMapPage (kernel : Frame) (virt phys : BitVec 32) (att : BitVec 16)
    (dataptr allocated : Option Frame) : PageMemory × Bool :=
  let dir := dataptr.getD kernel
  let mapIn (memory : PageMemory) : PageMemory :=
    memory.setWord (frameOf (memory.words dir (PGDIR_ENTRY virt)))
      (PGTAB_ENTRY virt) (phys ||| att.setWidth 32)
  if isPresent (memory.words dir (PGDIR_ENTRY virt)) then
    (mapIn memory, true)
  else
    match allocated with
    | none => (memory, false)
    | some table =>
      (mapIn (memory.linkTable dir (PGDIR_ENTRY virt) table), true)

/-- `paging_unmap_page`, with whether it returns 0. -/
def pagingUnmapPage (kernel : Frame) (virt : BitVec 32)
    (dataptr : Option Frame) : PageMemory × Bool :=
  let dir := dataptr.getD kernel
  if isPresent (memory.words dir (PGDIR_ENTRY virt)) then
    (memory.setWord (frameOf (memory.words dir (PGDIR_ENTRY virt)))
      (PGTAB_ENTRY virt) 0, true)
  else
    (memory, false)

/-- `paging_create_aspace`, with the directory it returns. -/
def pagingCreateAspace (kernel : Frame)
    (allocated : Option Frame) : PageMemory × Option Frame :=
  match allocated with
  | none => (memory, none)
  | some dir =>
    ({ words := fun other index =>
        if other = dir then memory.words kernel index
        else memory.words other index
       directories := dir :: memory.directories
       taken := dir :: memory.taken }, some dir)

end PageMemory

/-- The calls, with the directory they name and what `phys_alloc` returns. -/
inductive PagingCall where
  | mapPage (virt phys : BitVec 32) (att : BitVec 16)
      (dataptr allocated : Option Frame)
  | unmapPage (virt : BitVec 32) (dataptr : Option Frame)
  | createAspace (allocated : Option Frame)

namespace PagingCall

variable (kernel : Frame) (memory : PageMemory)

/-- The memory after a call. -/
def run : PagingCall → PageMemory
  | .mapPage virt phys att dataptr allocated =>
    (memory.pagingMapPage kernel virt phys att dataptr allocated).1
  | .unmapPage virt dataptr => (memory.pagingUnmapPage kernel virt dataptr).1
  | .createAspace allocated => (memory.pagingCreateAspace kernel allocated).1

/-- The directory that a call names; `NULL` and new directories aside. -/
def dataptr : PagingCall → Option Frame
  | .mapPage _ _ _ dataptr _ => dataptr
  | .unmapPage _ dataptr => dataptr
  | .createAspace _ => none

/-- What `phys_alloc` returns to a call. -/
def allocated : PagingCall → Option Frame
  | .mapPage _ _ _ _ allocated => allocated
  | .unmapPage _ _ => none
  | .createAspace allocated => allocated

/-- The frame that a call writes through `KERNEL_PHYS2VIRT`. -/
def reached : PagingCall → Option Frame
  | .mapPage virt _ _ dataptr allocated =>
    let entry := memory.words (dataptr.getD kernel) (PGDIR_ENTRY virt)
    if isPresent entry then some (frameOf entry) else allocated
  | .unmapPage virt dataptr =>
    let entry := memory.words (dataptr.getD kernel) (PGDIR_ENTRY virt)
    if isPresent entry then some (frameOf entry) else none
  | .createAspace allocated => allocated

/-- The position at which a call changes a page table. -/
def index : PagingCall → Option EntryIndex
  | .mapPage virt _ _ _ _ => some (PGTAB_ENTRY virt)
  | .unmapPage virt _ => some (PGTAB_ENTRY virt)
  | .createAspace _ => none

end PagingCall

/--
A call on the kernel's directory or on one that has been created, with frames
that `phys_alloc` hands out once.  Where a frame is not one of low memory, what
the call writes goes anywhere.
-/
structure PagingStep
    (kernel : Frame) (memory : PageMemory) (call : PagingCall)
    (next : PageMemory) : Prop where
  valid : ∀ dir, call.dataptr = some dir → dir ∈ memory.directories
  fresh : ∀ frame, call.allocated = some frame → frame ∉ kernel :: memory.taken
  directories : next.directories = (call.run kernel memory).directories
  taken : next.taken = (call.run kernel memory).taken
  words : (∀ frame, call.reached kernel memory = some frame → frame.IsLow) →
      next.words = (call.run kernel memory).words

/--
The frame that the call writes is one of low memory, and where it is the frame
of a directory the position is not in the kernel half.
-/
def LeavesKernelHalf (kernel : Frame) (memory : PageMemory)
    (call : PagingCall) : Prop :=
  ∀ frame, call.reached kernel memory = some frame →
    frame.IsLow ∧
      ∀ index, call.index = some index → frame ∈ kernel :: memory.directories →
        index < PGDIR_ENTRY KHEAP_START

/-- Every `phys_alloc` of `paging_setup` yields a frame of low memory. -/
structure SetupSucceeds (kernel : Frame) (tables : Nat → Frame) : Prop where
  low : ∀ number < 1024 - (PGDIR_ENTRY KHEAP_START).toNat, (tables number).IsLow
  fresh :
    ∀ number < 1024 - (PGDIR_ENTRY KHEAP_START).toNat, tables number ≠ kernel

/-- Physical memory before the first call of `phys_alloc`. -/
def PageMemory.boot (words : Frame → EntryIndex → BitVec 32) : PageMemory where
  words := words
  directories := []
  taken := []

/-- Every directory translates the kernel half as the kernel's one does. -/
def KernelHalfShared (kernel : Frame) (memory : PageMemory) : Prop :=
  ∀ dir ∈ memory.directories, ∀ virt, KHEAP_START ≤ virt →
    memory.translate dir virt = memory.translate kernel virt

section Entries

theorem frameOf_withFlags (entry : BitVec 32) (flags : BitVec 12) :
    frameOf (withFlags entry flags) = frameOf entry := by
  unfold frameOf withFlags
  ext i inside
  simp

theorem frameOf_address (frame : Frame) : frameOf frame.address = frame := by
  unfold frameOf Frame.address
  ext i inside
  have inWord : 12 + i < 32 := by omega
  have below : i < 32 := by omega
  have behind : ¬ 12 + i < 12 := by omega
  simp only [BitVec.getElem_setWidth, BitVec.getLsbD_ushiftRight,
    BitVec.getLsbD_shiftLeft, BitVec.getLsbD_setWidth, inWord, behind,
    Nat.add_sub_cancel_left, below, decide_true, decide_false, Bool.not_false,
    Bool.true_and, BitVec.getLsbD_eq_getElem inside]

theorem flagsOf_withFlags (entry : BitVec 32) (flags : BitVec 12) :
    flagsOf (withFlags entry flags) = flagsOf entry ||| flags := by
  unfold flagsOf withFlags
  simp

theorem flagsOf_address (frame : Frame) : flagsOf frame.address = 0 := by
  unfold flagsOf Frame.address
  simp

theorem frameOf_linkTable
    (memory : PageMemory) (dir : Frame) (index : EntryIndex) (table : Frame) :
    frameOf ((memory.linkTable dir index table).words dir index) = table := by
  unfold PageMemory.linkTable PageMemory.setWord
  dsimp only
  rw [if_pos ⟨rfl, rfl⟩, frameOf_withFlags, frameOf_withFlags,
    frameOf_withFlags, frameOf_address]

theorem isPresent_setup (table : Frame) :
    isPresent (withFlags (withFlags table.address PG_FLAG_PRESENT) PG_FLAG_RW) =
      true := by
  unfold isPresent
  rw [flagsOf_withFlags, flagsOf_withFlags, flagsOf_address]
  decide

theorem kheapEntry_le {virt : BitVec 32} (inKernelHalf : KHEAP_START ≤ virt) :
    PGDIR_ENTRY KHEAP_START ≤ PGDIR_ENTRY virt := by
  unfold PGDIR_ENTRY
  simp only [KHEAP_START, BitVec.le_def, BitVec.toNat_setWidth,
    BitVec.toNat_ushiftRight, Nat.shiftRight_eq_div_pow] at inKernelHalf ⊢
  omega

end Entries

/--
The upper entries of the kernel's directory are all present, and those of
every other directory are the same.
-/
structure UpperEntriesShared (kernel : Frame) (memory : PageMemory) : Prop where
  present : ∀ index, PGDIR_ENTRY KHEAP_START ≤ index →
      isPresent (memory.words kernel index) = true
  shared :
    ∀ dir ∈ memory.directories, ∀ index, PGDIR_ENTRY KHEAP_START ≤ index →
      memory.words dir index = memory.words kernel index
  taken : ∀ dir ∈ memory.directories, dir ∈ memory.taken

namespace UpperEntriesShared

variable {kernel : Frame} {memory next : PageMemory}

variable (upper : UpperEntriesShared kernel memory)

include upper

theorem kernelHalfShared :
    KernelHalfShared kernel memory := by
  intro dir isDir virt inKernelHalf
  unfold PageMemory.translate
  rw [upper.shared dir isDir _ (kheapEntry_le inKernelHalf)]

theorem entry_eq {dir : Frame} (isDir : dir ∈ kernel :: memory.directories)
    {index : EntryIndex} (inKernelHalf : PGDIR_ENTRY KHEAP_START ≤ index) :
    memory.words dir index = memory.words kernel index := by
  rcases List.mem_cons.mp isDir with rfl | created
  · rfl
  · exact upper.shared dir created index inKernelHalf

theorem congr (sameDirectories : next.directories = memory.directories)
    (taken : ∀ frame ∈ memory.taken, frame ∈ next.taken)
    (same :
      ∀ dir ∈ kernel :: memory.directories, ∀ index,
        PGDIR_ENTRY KHEAP_START ≤ index →
        next.words dir index = memory.words dir index) :
    UpperEntriesShared kernel next := by
  have isKernel : kernel ∈ kernel :: memory.directories := List.mem_cons_self
  constructor
  · intro index inKernelHalf
    rw [same kernel isKernel index inKernelHalf]
    exact upper.present index inKernelHalf
  · intro dir isDir index inKernelHalf
    rw [sameDirectories] at isDir
    rw [same dir (List.mem_cons_of_mem kernel isDir) index inKernelHalf,
      same kernel isKernel index inKernelHalf]
    exact upper.shared dir isDir index inKernelHalf
  · intro dir isDir
    rw [sameDirectories] at isDir
    exact taken dir (upper.taken dir isDir)

theorem setWord {frame : Frame} {index : EntryIndex} {word : BitVec 32}
    (leaves :
      frame ∈ kernel :: memory.directories → index < PGDIR_ENTRY KHEAP_START) :
    UpperEntriesShared kernel (memory.setWord frame index word) := by
  refine upper.congr rfl (fun _ isTaken => isTaken) ?_
  intro dir isDir other inKernelHalf
  refine if_neg ?_
  rintro ⟨rfl, rfl⟩
  exact absurd (leaves isDir) (BitVec.not_lt.mpr inKernelHalf)

theorem takeTable {table : Frame}
    (noDirectory : table ∉ kernel :: memory.directories) :
    UpperEntriesShared kernel ((memory.take table).clearFrame table) := by
  refine upper.congr rfl
    (fun _ isTaken => List.mem_cons_of_mem table isTaken) ?_
  intro dir isDir index _
  refine if_neg ?_
  rintro rfl
  exact noDirectory isDir

theorem not_mem_of_fresh {frame : Frame}
    (fresh : frame ∉ kernel :: memory.taken) :
    frame ∉ kernel :: memory.directories := by
  intro isDir
  rcases List.mem_cons.mp isDir with rfl | created
  · exact fresh List.mem_cons_self
  · exact fresh (List.mem_cons_of_mem kernel (upper.taken frame created))

theorem pagingMapPage
    {virt phys : BitVec 32} {att : BitVec 16} {dataptr allocated : Option Frame}
    (valid : ∀ dir, dataptr = some dir → dir ∈ memory.directories)
    (fresh : ∀ frame, allocated = some frame → frame ∉ kernel :: memory.taken)
    (leaves :
      LeavesKernelHalf kernel memory
        (.mapPage virt phys att dataptr allocated)) :
    UpperEntriesShared kernel
      (memory.pagingMapPage kernel virt phys att dataptr allocated).1 := by
  have isDir : dataptr.getD kernel ∈ kernel :: memory.directories := by
    cases dataptr with
    | none =>
      exact List.mem_cons_self
    | some dir =>
      exact List.mem_cons_of_mem kernel (valid dir rfl)
  unfold LeavesKernelHalf PagingCall.reached PagingCall.index at leaves
  unfold PageMemory.pagingMapPage
  dsimp only at leaves ⊢
  by_cases present :
      isPresent (memory.words (dataptr.getD kernel) (PGDIR_ENTRY virt)) = true
  · rw [if_pos present] at leaves ⊢
    exact upper.setWord ((leaves _ rfl).2 _ rfl)
  · rw [if_neg present] at leaves ⊢
    cases allocated with
    | none =>
      exact upper
    | some table =>
      have noDirectory := upper.not_mem_of_fresh (fresh table rfl)
      -- All entries of the kernel half are there.
      have below : PGDIR_ENTRY virt < PGDIR_ENTRY KHEAP_START := by
        refine BitVec.not_le.mp fun inKernelHalf => present ?_
        rw [upper.entry_eq isDir inKernelHalf]
        exact upper.present _ inKernelHalf
      have linked : UpperEntriesShared kernel
            (memory.linkTable (dataptr.getD kernel) (PGDIR_ENTRY virt) table) :=
        (upper.takeTable noDirectory).setWord fun _ => below
      refine linked.setWord fun isDirectory => ?_
      rw [frameOf_linkTable] at isDirectory
      exact absurd isDirectory noDirectory

theorem pagingUnmapPage {virt : BitVec 32} {dataptr : Option Frame}
    (leaves : LeavesKernelHalf kernel memory (.unmapPage virt dataptr)) :
    UpperEntriesShared kernel
      (memory.pagingUnmapPage kernel virt dataptr).1 := by
  unfold LeavesKernelHalf PagingCall.reached PagingCall.index at leaves
  unfold PageMemory.pagingUnmapPage
  dsimp only at leaves ⊢
  by_cases present :
      isPresent (memory.words (dataptr.getD kernel) (PGDIR_ENTRY virt)) = true
  · rw [if_pos present] at leaves ⊢
    exact upper.setWord ((leaves _ rfl).2 _ rfl)
  · rw [if_neg present]
    exact upper

theorem pagingCreateAspace {allocated : Option Frame}
    (fresh : ∀ frame, allocated = some frame → frame ∉ kernel :: memory.taken) :
    UpperEntriesShared kernel
      (memory.pagingCreateAspace kernel allocated).1 := by
  cases allocated with
  | none =>
    exact upper
  | some dir =>
    have noDirectory := upper.not_mem_of_fresh (fresh dir rfl)
    have others {other : Frame} (isDir : other ∈ kernel :: memory.directories)
        (index : EntryIndex) :
        (memory.pagingCreateAspace kernel (some dir)).1.words other index =
          memory.words other index := by
      refine if_neg ?_
      rintro rfl
      exact noDirectory isDir
    have kernelKept := others List.mem_cons_self
    constructor
    · intro index inKernelHalf
      rw [kernelKept]
      exact upper.present index inKernelHalf
    · intro other isDir index inKernelHalf
      rw [kernelKept]
      rcases List.mem_cons.mp isDir with rfl | before
      · exact if_pos rfl
      · rw [others (List.mem_cons_of_mem kernel before)]
        exact upper.shared other before index inKernelHalf
    · intro other isDir
      rcases List.mem_cons.mp isDir with rfl | before
      · exact List.mem_cons_self
      · exact List.mem_cons_of_mem dir (upper.taken other before)

theorem step {call : PagingCall} (leaves : LeavesKernelHalf kernel memory call)
    (called : PagingStep kernel memory call next) :
    UpperEntriesShared kernel next := by
  have words := called.words fun frame isReached => (leaves frame isReached).1
  have ran : UpperEntriesShared kernel (call.run kernel memory) := by
    cases call with
    | mapPage virt phys att dataptr allocated =>
      exact upper.pagingMapPage called.valid called.fresh leaves
    | unmapPage virt dataptr =>
      exact upper.pagingUnmapPage leaves
    | createAspace allocated =>
      exact upper.pagingCreateAspace called.fresh
  refine ran.congr called.directories
    (fun frame isTaken => called.taken ▸ isTaken) ?_
  intro dir _ index _
  rw [words]

end UpperEntriesShared

section Setup

variable {kernel : Frame} {memory : PageMemory} {tables : Nat → Frame}

/-- The entry that `paging_setup` puts in for a page table. -/
def setupEntry (table : Frame) : BitVec 32 :=
  withFlags (withFlags table.address PG_FLAG_PRESENT) PG_FLAG_RW

theorem setupTable_entry {Holds : BitVec 32 → Prop} {table : Frame}
    (fresh : table ≠ kernel) (isEntry : Holds (setupEntry table))
    {set index : EntryIndex}
    (present : Holds (memory.words kernel index) ∨ index = set) :
    Holds ((memory.setupTable kernel set table).words kernel index) := by
  by_cases isSet : index = set
  · have isTable : (memory.setupTable kernel set table).words kernel index =
          setupEntry table :=
      if_pos ⟨rfl, isSet⟩
    rw [isTable]
    exact isEntry
  · have isKept : (memory.setupTable kernel set table).words kernel index =
          memory.words kernel index :=
      (if_neg fun same => isSet same.2).trans (if_neg (Ne.symm fresh))
    rw [isKept]
    exact present.resolve_right isSet

theorem setupTables_entry {Holds : BitVec 32 → Prop} {count number : Nat}
    (fresh : ∀ number < count, tables number ≠ kernel)
    (isEntry : ∀ table, table ≠ kernel → Holds (setupEntry table))
    (isSet : number < count) :
    Holds
      ((memory.setupTables kernel tables count).words kernel
        (PGDIR_ENTRY KHEAP_START + BitVec.ofNat 10 number)) := by
  induction count with
  | zero =>
    cases isSet
  | succ count ih =>
    have isFresh := fresh count (Nat.lt_succ_self count)
    refine setupTable_entry isFresh (isEntry _ isFresh) ?_
    have freshBefore : ∀ number < count, tables number ≠ kernel :=
      fun number isBefore => fresh number (Nat.lt_succ_of_lt isBefore)
    rcases Nat.lt_succ_iff_lt_or_eq.mp isSet with earlier | rfl
    · exact .inl (ih freshBefore earlier)
    · exact .inr rfl

theorem pagingSetup_entry {Holds : BitVec 32 → Prop}
    (succeeds : SetupSucceeds kernel tables)
    (isEntry : ∀ table, table ≠ kernel → Holds (setupEntry table))
    {index : EntryIndex} (inKernelHalf : PGDIR_ENTRY KHEAP_START ≤ index) :
    Holds ((memory.pagingSetup kernel tables).words kernel index) := by
  have isKheap : PGDIR_ENTRY KHEAP_START = 896 := by decide
  have position : index =
        PGDIR_ENTRY KHEAP_START + BitVec.ofNat 10 (index.toNat - 896) := by
    bv_omega
  rw [position]
  refine setupTables_entry succeeds.fresh isEntry ?_
  rw [isKheap]
  have isNumber : (896 : EntryIndex).toNat = 896 := rfl
  omega

theorem directories_setupTables (count : Nat) :
    (memory.setupTables kernel tables count).directories =
      memory.directories := by
  induction count with
  | zero =>
    rfl
  | succ count ih =>
    exact ih

theorem pagingSetup_shared (succeeds : SetupSucceeds kernel tables)
    (words : Frame → EntryIndex → BitVec 32) :
    UpperEntriesShared kernel
      ((PageMemory.boot words).pagingSetup kernel tables) := by
  have noDirectories :
      ((PageMemory.boot words).pagingSetup kernel tables).directories = [] :=
    directories_setupTables _
  constructor
  · intro index inKernelHalf
    exact @pagingSetup_entry kernel _ tables
      (fun word => isPresent word = true) succeeds
      (fun table _ => isPresent_setup table) _ inKernelHalf
  · intro dir isDir
    rw [noDirectories] at isDir
    cases isDir
  · intro dir isDir
    rw [noDirectories] at isDir
    cases isDir

end Setup

/--
After `paging_setup` every run whose calls leave the kernel half of the
directories keeps that half the same for all of them.
-/
theorem kernelHalf_shared {kernel : Frame} {tables : Nat → Frame}
    (succeeds : SetupSucceeds kernel tables)
    {words : Frame → EntryIndex → BitVec 32} {calls : List PagingCall}
    {last : PageMemory}
    (ran :
      Run (Guarded (LeavesKernelHalf kernel) (PagingStep kernel))
        ((PageMemory.boot words).pagingSetup kernel tables) calls last) :
    KernelHalfShared kernel last := by
  have upper :=
    ran.invariant (fun _ memory => UpperEntriesShared kernel memory)
      (pagingSetup_shared succeeds words)
      fun upper called => upper.step called.1 called.2
  exact upper.kernelHalfShared

/--
The kernel's directory as `entry_32.S` leaves it, in the frame 0x110: 128
pages of 4 MB from the entry of `LOWMEM_START` on.
-/
def bootWords (frame : Frame) (index : EntryIndex) : BitVec 32 :=
  if frame = 0x110 ∧ 768 ≤ index ∧ index < 896 then
    withFlags ((index - 768).setWidth 32 <<< 22)
      (PG_FLAG_PRESENT ||| PG_FLAG_RW ||| PG_FLAG_SIZE)
  else
    0

/-- `phys_alloc` begins behind the memory for DMA. -/
def bootTables (number : Nat) : Frame :=
  BitVec.ofNat 20 (0x1000 + number)

/-- The memory after `paging_setup` and calls, the last of which comes first. -/
def memoryAfter : List PagingCall → PageMemory
  | [] => (PageMemory.boot bootWords).pagingSetup 0x110 bootTables
  | call :: earlier => call.run 0x110 (memoryAfter earlier)

/-- A directory in the frame 0x1400, at 20 MB. -/
def createAt20Mb : PagingCall :=
  .createAspace (some 0x1400)

/-- A page of the kernel heap. -/
def mapHeapPage : PagingCall :=
  .mapPage KHEAP_START 0x02000000 0x003 none none

/-- The address in low memory whose page of 4 MB begins at 20 MB. -/
def unmapLowPage : PagingCall :=
  .unmapPage 0xC1780000 none

theorem bootTables_succeeds : SetupSucceeds 0x110 bootTables := by
  constructor
  · unfold Frame.IsLow Frame.address bootTables LOWMEM_SIZE
    simp only [BitVec.toNat_shiftLeft, BitVec.toNat_setWidth,
      BitVec.toNat_ofNat, Nat.shiftLeft_eq]
    omega
  · intro number inside isKernel
    have same : (0x1000 + number) % 2 ^ 20 = 0x110 :=
      congrArg BitVec.toNat isKernel
    omega

/-- The new directory maps the heap as the kernel's one does. -/
theorem mapHeapPage_shared :
    KernelHalfShared 0x110 (memoryAfter [mapHeapPage, createAt20Mb]) ∧
      ((memoryAfter [mapHeapPage, createAt20Mb]).translate 0x1400
        KHEAP_START).isSome := by
  have created :
      Guarded (LeavesKernelHalf 0x110) (PagingStep 0x110) (memoryAfter [])
        createAt20Mb (memoryAfter [createAt20Mb]) := by
    refine ⟨?_, nofun, ?_, rfl, rfl, fun _ => rfl⟩
    · intro frame isReached
      cases isReached
      exact ⟨by unfold Frame.IsLow LOWMEM_SIZE; decide, nofun⟩
    · intro frame isAllocated
      cases isAllocated
      decide +kernel
  have mapped : Guarded (LeavesKernelHalf 0x110) (PagingStep 0x110)
        (memoryAfter [createAt20Mb]) mapHeapPage
        (memoryAfter [mapHeapPage, createAt20Mb]) := by
    have isTable : mapHeapPage.reached 0x110 (memoryAfter [createAt20Mb]) =
          some 0x1000 := by
      decide +kernel
    refine ⟨?_, nofun, nofun, rfl, rfl, fun _ => rfl⟩
    intro frame isReached
    cases isTable.symm.trans isReached
    refine ⟨by unfold Frame.IsLow LOWMEM_SIZE; decide, ?_⟩
    intro index isIndex _
    cases isIndex
    decide
  have ran := Run.append (.single created) (.single mapped)
  exact ⟨kernelHalf_shared bootTables_succeeds ran, by decide +kernel⟩

/--
`paging_unmap_page` takes the page of 4 MB for a page table and clears the
entry of the heap in the directory that lies there.
-/
theorem unmapLowPage_splits_kernelHalf :
    ¬ ∀ kernel tables words calls last, SetupSucceeds kernel tables →
      Run (PagingStep kernel)
        ((PageMemory.boot words).pagingSetup kernel tables) calls last →
      KernelHalfShared kernel last := by
  intro shared
  have created : PagingStep 0x110 (memoryAfter []) createAt20Mb
        (memoryAfter [createAt20Mb]) := by
    refine ⟨nofun, ?_, rfl, rfl, fun _ => rfl⟩
    intro frame isAllocated
    cases isAllocated
    decide +kernel
  have mapped : PagingStep 0x110 (memoryAfter [createAt20Mb]) mapHeapPage
        (memoryAfter [mapHeapPage, createAt20Mb]) :=
    ⟨nofun, nofun, rfl, rfl, fun _ => rfl⟩
  have unmapped :
      PagingStep 0x110 (memoryAfter [mapHeapPage, createAt20Mb]) unmapLowPage
        (memoryAfter [unmapLowPage, mapHeapPage, createAt20Mb]) :=
    ⟨nofun, nofun, rfl, rfl, fun _ => rfl⟩
  have ran :=
    (Run.append (.single created) (.single mapped)).append (.single unmapped)
  have same :=
    shared 0x110 bootTables bootWords _ _ bootTables_succeeds ran 0x1400
      (by decide +kernel) KHEAP_START (BitVec.le_refl KHEAP_START)
  have differs :
      (memoryAfter [unmapLowPage, mapHeapPage, createAt20Mb]).translate
          0x1400 KHEAP_START ≠
        (memoryAfter [unmapLowPage, mapHeapPage, createAt20Mb]).translate
          0x110 KHEAP_START := by
    decide +kernel
  exact differs same

end Idylla.Mm
