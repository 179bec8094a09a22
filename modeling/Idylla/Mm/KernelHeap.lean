import Idylla.Mm.PageDirectories

namespace Idylla.Mm

open Idylla.Lib Idylla.Boot

/-!
# The kernel heap

`ksbrk` of `heap.c` maps pages behind the heap until the new end lies on a
mapped page, and moves the end.  The end is computed in 32 bits, so an increment
that takes it over the top of the address space finds the heap large enough.
-/

/-- `KHEAP_SIZE` -/
def KHEAP_SIZE : BitVec 32 := 0x10000000

/-- `_heap_top` and `_heap_size`, with the page tables. -/
structure KernelHeap where
  top : BitVec 32
  size : BitVec 32
  memory : PageMemory

/--
A call of `ksbrk`, with the frames that `phys_alloc` returns to it for pages and
to `paging_map_page` for page tables.
-/
structure KsbrkCall where
  incr : BitVec 32
  frames : Nat → Option Frame
  tables : Nat → Option Frame

/-- The pointer that is returned, unless the kernel panics. -/
inductive KsbrkOutcome where
  | returns (heap : KernelHeap) (ptr : BitVec 32)
  | panics

namespace KernelHeap

/-- The heap before the first call. -/
def start (memory : PageMemory) : KernelHeap where
  top := KHEAP_START
  size := 0
  memory := memory

/-- One page mapped behind the heap. -/
def mapPage (kernel : Frame) (heap : KernelHeap) (frame : Frame)
    (table : Option Frame) : KernelHeap :=
  { heap with
    memory :=
      (heap.memory.pagingMapPage kernel (KHEAP_START + heap.size)
        frame.address 0x003 none table).1
    size := heap.size + BitVec.ofNat 32 PAGE_SIZE }

theorem top_mapPage (kernel : Frame) (heap : KernelHeap) (frame : Frame)
    (table : Option Frame) :
    (heap.mapPage kernel frame table).top = heap.top := by
  unfold mapPage
  rfl

/-- The loop of `ksbrk` for a wanted end; `none` is a panic. -/
def grow (kernel : Frame) (call : KsbrkCall) (wanted : BitVec 32) (calls : Nat)
    (heap : KernelHeap) : Option KernelHeap :=
  if wanted < KHEAP_START + heap.size then
    some heap
  else if KHEAP_SIZE ≤ heap.size then
    none
  else
    match call.frames calls with
    | none => none
    | some frame =>
      grow kernel call wanted (calls + 1)
        (heap.mapPage kernel frame (call.tables calls))
termination_by KHEAP_SIZE.toNat - heap.size.toNat
decreasing_by
  unfold mapPage KHEAP_SIZE PAGE_SIZE at *
  bv_omega

/-- `ksbrk` -/
def ksbrk (kernel : Frame) (heap : KernelHeap)
    (call : KsbrkCall) : KsbrkOutcome :=
  if call.incr = 0 then
    .returns heap heap.top
  else if call.incr.msb then
    -- `TODO("Free some heap memory")`
    .returns { heap with top := heap.top + call.incr } heap.top
  else
    match grow kernel call (call.incr + heap.top) 0 heap with
    | none => .panics
    | some grown =>
      .returns { grown with top := grown.top + call.incr } heap.top

end KernelHeap

/--
A call that returns, with the pointer; where `phys_alloc` fails the kernel
panics.
-/
structure KsbrkStep
    (kernel : Frame) (heap : KernelHeap)
    (returned : KsbrkCall × BitVec 32)
    (next : KernelHeap) : Prop where
  nonneg : returned.1.incr.msb = false
  result : heap.ksbrk kernel returned.1 = .returns next returned.2

/-- The new end does not wrap. -/
def NoWrap (heap : KernelHeap) (returned : KsbrkCall × BitVec 32) : Prop :=
  returned.1.incr.toNat + heap.top.toNat < 2 ^ 32

/-- The address is in the range that a call has returned. -/
def InRange (returned : KsbrkCall × BitVec 32) (address : Nat) : Prop :=
  returned.2.toNat ≤ address ∧
    address < returned.2.toNat + returned.1.incr.toNat

/-- The kernel's directory leads an address to a frame. -/
def Translated (kernel : Frame) (memory : PageMemory) (address : Nat) : Prop :=
  address < 2 ^ 32 ∧ (memory.translate kernel (BitVec.ofNat 32 address)).isSome

/-- The heap is within its bounds and what has been returned can be used. -/
structure HeapSafe
    (kernel : Frame)
    (returned : List (KsbrkCall × BitVec 32))
    (heap : KernelHeap) : Prop where
  lower : KHEAP_START.toNat ≤ heap.top.toNat
  upper : heap.top.toNat ≤ KHEAP_START.toNat + heap.size.toNat
  limit :
    KHEAP_START.toNat + heap.size.toNat ≤ KHEAP_START.toNat + KHEAP_SIZE.toNat
  mapped : ∀ range ∈ returned, ∀ address, InRange range address →
      Translated kernel heap.memory address
  disjoint :
    returned.Pairwise fun earlier later =>
      ∀ address, InRange earlier address → ¬ InRange later address

/-- An entry that leads to a page table. -/
structure LeadsToTable (kernel : Frame) (entry : BitVec 32) : Prop where
  present : isPresent entry = true
  small : flagsOf entry &&& PG_FLAG_SIZE = 0
  noDirectory : frameOf entry ≠ kernel

/-- The kernel half of the kernel's directory is filled with page tables. -/
def KernelTables (kernel : Frame) (memory : PageMemory) : Prop :=
  ∀ index, PGDIR_ENTRY KHEAP_START ≤ index →
    LeadsToTable kernel (memory.words kernel index)

section Tables

variable {kernel : Frame} {memory : PageMemory} {tables : Nat → Frame}

theorem pagingSetup_tables (succeeds : SetupSucceeds kernel tables) :
    KernelTables kernel (memory.pagingSetup kernel tables) := by
  intro index inKernelHalf
  refine pagingSetup_entry succeeds ?_ inKernelHalf
  intro table noDirectory
  refine ⟨isPresent_setup table, ?_, ?_⟩
  · unfold setupEntry
    rw [flagsOf_withFlags, flagsOf_withFlags, flagsOf_address]
    rfl
  · unfold setupEntry
    rw [frameOf_withFlags, frameOf_withFlags, frameOf_address]
    exact noDirectory

section

variable (filled : KernelTables kernel memory)

include filled

theorem KernelTables.setWord
    {frame : Frame} {index : EntryIndex} {word : BitVec 32}
    (noDirectory : frame ≠ kernel) :
    KernelTables kernel (memory.setWord frame index word) := by
  intro entry inKernelHalf
  have isKept : (memory.setWord frame index word).words kernel entry =
        memory.words kernel entry :=
    if_neg fun same => noDirectory same.1.symm
  rw [isKept]
  exact filled entry inKernelHalf

theorem KernelTables.isSome_translate {virt : BitVec 32}
    (inKernelHalf : KHEAP_START ≤ virt) :
    (memory.translate kernel virt).isSome ↔
      isPresent
          (memory.words (frameOf (memory.words kernel (PGDIR_ENTRY virt)))
            (PGTAB_ENTRY virt)) =
        true := by
  obtain ⟨present, small, -⟩ := filled _ (kheapEntry_le inKernelHalf)
  unfold PageMemory.translate
  simp only [present, small, Bool.true_eq_false, ne_eq, not_true, ↓reduceIte]
  split
  next absent => simp [absent]
  next isThere => simpa using isThere

theorem KernelTables.pagingMapPage
    {virt phys : BitVec 32} {att : BitVec 16} {table : Option Frame}
    (inKernelHalf : KHEAP_START ≤ virt) :
    (memory.pagingMapPage kernel virt phys att none table).1 =
      memory.setWord (frameOf (memory.words kernel (PGDIR_ENTRY virt)))
        (PGTAB_ENTRY virt) (phys ||| att.setWidth 32) := by
  exact congrArg Prod.fst
    (if_pos (filled _ (kheapEntry_le inKernelHalf)).present)

theorem KernelTables.translate_setWord
    {frame : Frame} {index : EntryIndex} {word virt : BitVec 32}
    (noDirectory : frame ≠ kernel) (present : isPresent word = true)
    (inKernelHalf : KHEAP_START ≤ virt)
    (translated :
      (memory.translate kernel virt).isSome ∨
        frame = frameOf (memory.words kernel (PGDIR_ENTRY virt)) ∧
          index = PGTAB_ENTRY virt) :
    ((memory.setWord frame index word).translate kernel virt).isSome := by
  have isKept :
      (memory.setWord frame index word).words kernel (PGDIR_ENTRY virt) =
        memory.words kernel (PGDIR_ENTRY virt) :=
    if_neg fun same => noDirectory same.1.symm
  refine ((filled.setWord noDirectory).isSome_translate inKernelHalf).mpr ?_
  rw [isKept]
  by_cases written : frameOf (memory.words kernel (PGDIR_ENTRY virt)) = frame ∧
        PGTAB_ENTRY virt = index
  · exact (congrArg isPresent (if_pos written)).trans present
  · refine (congrArg isPresent (if_neg written)).trans ?_
    rcases translated with before | same
    · exact (filled.isSome_translate inKernelHalf).mp before
    · exact absurd ⟨same.1.symm, same.2.symm⟩ written

end

theorem entries_eq_of_page {virt other : BitVec 32}
    (samePage : virt.toNat / 0x1000 = other.toNat / 0x1000) :
    PGDIR_ENTRY virt = PGDIR_ENTRY other ∧
      PGTAB_ENTRY virt = PGTAB_ENTRY other := by
  unfold PGDIR_ENTRY PGTAB_ENTRY
  constructor
  · apply BitVec.eq_of_toNat_eq
    simp only [BitVec.toNat_setWidth, BitVec.toNat_ushiftRight,
      Nat.shiftRight_eq_div_pow]
    omega
  · apply BitVec.eq_of_toNat_eq
    simp only [BitVec.toNat_setWidth, BitVec.toNat_ushiftRight,
      Nat.shiftRight_eq_div_pow]
    omega

end Tables

/-- The pages of the heap are whole, within its limit and translated. -/
structure HeapGrown (kernel : Frame) (heap : KernelHeap) : Prop where
  tables : KernelTables kernel heap.memory
  whole : heap.size.toNat % 0x1000 = 0
  limit : heap.size.toNat ≤ KHEAP_SIZE.toNat
  translated : ∀ virt, KHEAP_START ≤ virt →
      virt.toNat < KHEAP_START.toNat + heap.size.toNat →
      (heap.memory.translate kernel virt).isSome

theorem isPresent_heapPage (frame : Frame) :
    isPresent (frame.address ||| (0x003 : BitVec 16).setWidth 32) = true := by
  have isEntry : frame.address ||| (0x003 : BitVec 16).setWidth 32 =
        withFlags frame.address (PG_FLAG_PRESENT ||| PG_FLAG_RW) :=
    rfl
  rw [isEntry]
  unfold isPresent
  rw [flagsOf_withFlags, flagsOf_address]
  decide

namespace HeapGrown

variable {kernel : Frame} {heap : KernelHeap}

theorem mapPage (grown : HeapGrown kernel heap)
    (notFull : heap.size.toNat < KHEAP_SIZE.toNat) (frame : Frame)
    (table : Option Frame) :
    HeapGrown kernel (heap.mapPage kernel frame table) := by
  have isStart : KHEAP_START.toNat = 0xE0000000 := rfl
  have isLimit : KHEAP_SIZE.toNat = 0x10000000 := rfl
  have isEnd :
      (KHEAP_START + heap.size).toNat = 0xE0000000 + heap.size.toNat := by
    rw [BitVec.toNat_add, isStart]
    omega
  have inKernelHalf : KHEAP_START ≤ KHEAP_START + heap.size := by
    rw [BitVec.le_def, isEnd, isStart]
    omega
  have noDirectory := (grown.tables _ (kheapEntry_le inKernelHalf)).noDirectory
  have isMemory : (heap.mapPage kernel frame table).memory =
        heap.memory.setWord
          (frameOf
            (heap.memory.words kernel (PGDIR_ENTRY (KHEAP_START + heap.size))))
          (PGTAB_ENTRY (KHEAP_START + heap.size))
          (frame.address ||| (0x003 : BitVec 16).setWidth 32) :=
    grown.tables.pagingMapPage inKernelHalf
  have isSize : (heap.mapPage kernel frame table).size.toNat =
        heap.size.toNat + 0x1000 := by
    unfold KernelHeap.mapPage PAGE_SIZE
    bv_omega
  have whole := grown.whole
  constructor
  · rw [isMemory]
    exact grown.tables.setWord noDirectory
  · omega
  · omega
  · intro virt above inside
    rw [isMemory]
    refine grown.tables.translate_setWord noDirectory ?_ above ?_
    · exact isPresent_heapPage frame
    · by_cases before : virt.toNat < KHEAP_START.toNat + heap.size.toNat
      · exact .inl (grown.translated virt above before)
      · right
        have samePage :
            (KHEAP_START + heap.size).toNat / 0x1000 = virt.toNat / 0x1000 := by
          omega
        obtain ⟨sameTable, samePosition⟩ := entries_eq_of_page samePage
        rw [sameTable]
        exact ⟨rfl, samePosition⟩

theorem grow
    {call : KsbrkCall} {wanted : BitVec 32} {calls : Nat} {next : KernelHeap}
    (grown : HeapGrown kernel heap)
    (result : heap.grow kernel call wanted calls = some next) :
    HeapGrown kernel next ∧ wanted < KHEAP_START + next.size ∧
      next.top = heap.top := by
  induction calls, heap using KernelHeap.grow.induct kernel call wanted with
  | case1 calls heap covered =>
    rw [KernelHeap.grow, if_pos covered] at result
    cases result
    exact ⟨grown, covered, rfl⟩
  | case2 calls heap notCovered full =>
    rw [KernelHeap.grow, if_neg notCovered, if_pos full] at result
    cases result
  | case3 calls heap notCovered notFull isNone =>
    rw [KernelHeap.grow, if_neg notCovered, if_neg notFull, isNone] at result
    cases result
  | case4 calls heap notCovered notFull frame isFrame ih =>
    rw [KernelHeap.grow, if_neg notCovered, if_neg notFull, isFrame] at result
    have inLimit : heap.size.toNat < KHEAP_SIZE.toNat :=
      BitVec.lt_def.mp (BitVec.not_le.mp notFull)
    have mapped := grown.mapPage inLimit frame (call.tables calls)
    have ends := ih mapped result
    rw [KernelHeap.top_mapPage] at ends
    exact ends

end HeapGrown

namespace KsbrkStep

variable {kernel : Frame} {heap next : KernelHeap}
  {returned : KsbrkCall × BitVec 32}

theorem cases_incr (step : KsbrkStep kernel heap returned next) :
    returned.2 = heap.top ∧
      (returned.1.incr = 0 ∧ next = heap ∨
        ∃ grown,
          heap.grow kernel returned.1 (returned.1.incr + heap.top) 0 =
              some grown ∧
            next = { grown with top := grown.top + returned.1.incr }) := by
  obtain ⟨nonneg, result⟩ := step
  unfold KernelHeap.ksbrk at result
  by_cases nothing : returned.1.incr = 0
  · rw [if_pos nothing] at result
    injection result with sameHeap isOld
    exact ⟨isOld.symm, .inl ⟨nothing, sameHeap.symm⟩⟩
  · rw [if_neg nothing, nonneg, if_neg Bool.false_ne_true] at result
    cases grows :
        heap.grow kernel returned.1 (returned.1.incr + heap.top) 0 with
    | none =>
      rw [grows] at result
      cases result
    | some grown =>
      rw [grows] at result
      injection result with sameHeap isOld
      exact ⟨isOld.symm, .inr ⟨grown, rfl, sameHeap.symm⟩⟩

theorem of_grow {call : KsbrkCall} {grown : KernelHeap}
    (something : call.incr ≠ 0) (nonneg : call.incr.msb = false)
    (grows : heap.grow kernel call (call.incr + heap.top) 0 = some grown) :
    KsbrkStep kernel heap (call, heap.top)
      { grown with top := grown.top + call.incr } := by
  refine ⟨nonneg, ?_⟩
  unfold KernelHeap.ksbrk
  rw [if_neg something, nonneg, if_neg Bool.false_ne_true, grows]

end KsbrkStep

/--
The heap is grown, what has been returned is below its end, and no two ranges
overlap.
-/
structure HeapSound
    (kernel : Frame)
    (returned : List (KsbrkCall × BitVec 32))
    (heap : KernelHeap) : Prop where
  grown : HeapGrown kernel heap
  lower : KHEAP_START.toNat ≤ heap.top.toNat
  upper : heap.top.toNat ≤ KHEAP_START.toNat + heap.size.toNat
  above : ∀ range ∈ returned, KHEAP_START.toNat ≤ range.2.toNat
  below :
    ∀ range ∈ returned, range.2.toNat + range.1.incr.toNat ≤ heap.top.toNat
  disjoint :
    returned.Pairwise fun earlier later =>
      ∀ address, InRange earlier address → ¬ InRange later address

namespace HeapSound

variable {kernel : Frame} {heap next : KernelHeap}
  {past : List (KsbrkCall × BitVec 32)} {returned : KsbrkCall × BitVec 32}

theorem start {memory : PageMemory} (filled : KernelTables kernel memory) :
    HeapSound kernel [] (.start memory) where
  grown :=
    { tables := filled
      whole := rfl
      limit := Nat.zero_le _
      translated := fun _ above inside =>
        absurd (BitVec.le_def.mp above) (Nat.not_le_of_lt inside) }
  lower := Nat.le_refl _
  upper := Nat.le_refl _
  above := fun _ isMember => absurd isMember List.not_mem_nil
  below := fun _ isMember => absurd isMember List.not_mem_nil
  disjoint := .nil

variable (sound : HeapSound kernel past heap)

include sound

theorem safe :
    HeapSafe kernel past heap where
  lower := sound.lower
  upper := sound.upper
  limit := Nat.add_le_add_left sound.grown.limit _
  mapped := by
    intro range isMember address inRange
    have above := Nat.le_trans (sound.above range isMember) inRange.1
    have below := Nat.lt_of_lt_of_le inRange.2 (sound.below range isMember)
    have inSpace := Nat.lt_trans below heap.top.isLt
    have isAddress : (BitVec.ofNat 32 address).toNat = address := by
      rw [BitVec.toNat_ofNat, Nat.mod_eq_of_lt inSpace]
    refine ⟨inSpace, sound.grown.translated _ ?_ ?_⟩
    · rw [BitVec.le_def, isAddress]
      exact above
    · rw [isAddress]
      exact Nat.lt_of_lt_of_le below sound.upper
  disjoint := sound.disjoint

theorem returns (grown : HeapGrown kernel next) (isOld : returned.2 = heap.top)
    (isTop : next.top.toNat = heap.top.toNat + returned.1.incr.toNat)
    (upper : next.top.toNat ≤ KHEAP_START.toNat + next.size.toNat) :
    HeapSound kernel (past ++ [returned]) next := by
  have lower := sound.lower
  constructor
  · exact grown
  · omega
  · exact upper
  · intro range isMember
    rcases List.mem_append.mp isMember with before | isLast
    · exact sound.above range before
    · obtain rfl := List.mem_singleton.mp isLast
      rw [isOld]
      exact lower
  · intro range isMember
    rcases List.mem_append.mp isMember with before | isLast
    · have below := sound.below range before
      omega
    · obtain rfl := List.mem_singleton.mp isLast
      rw [isOld]
      exact Nat.le_of_eq isTop.symm
  · refine List.pairwise_append.mpr
      ⟨sound.disjoint, List.pairwise_singleton _ _, ?_⟩
    intro earlier before later isLast address inEarlier inLater
    obtain rfl := List.mem_singleton.mp isLast
    have below := sound.below earlier before
    have ends := inEarlier.2
    have begins := inLater.1
    rw [isOld] at begins
    omega

theorem step (noWrap : NoWrap heap returned)
    (called : KsbrkStep kernel heap returned next) :
    HeapSound kernel (past ++ [returned]) next := by
  obtain ⟨isOld, ⟨nothing, rfl⟩ | ⟨grown, grows, rfl⟩⟩ := called.cases_incr
  · refine sound.returns sound.grown isOld ?_ sound.upper
    rw [nothing]
    rfl
  · obtain ⟨isGrown, covered, sameTop⟩ := sound.grown.grow grows
    have isTop : (grown.top + returned.1.incr).toNat =
          heap.top.toNat + returned.1.incr.toNat := by
      unfold NoWrap at noWrap
      rw [sameTop, BitVec.toNat_add]
      omega
    refine sound.returns ⟨isGrown.1, isGrown.2, isGrown.3, isGrown.4⟩ isOld
      isTop ?_
    have covered := BitVec.lt_def.mp covered
    rw [BitVec.add_comm, ← sameTop, isTop, BitVec.toNat_add] at covered
    dsimp only
    omega

theorem noWrap_of_lower (called : KsbrkStep kernel heap returned next)
    (lower : KHEAP_START.toNat ≤ next.top.toNat) : NoWrap heap returned := by
  have isStart : KHEAP_START.toNat = 0xE0000000 := rfl
  have isHalf : 2 * returned.1.incr.toNat < 2 ^ 32 :=
    BitVec.msb_eq_false_iff_two_mul_lt.mp called.nonneg
  have bound := heap.top.isLt
  unfold NoWrap
  obtain ⟨-, ⟨nothing, rfl⟩ | ⟨grown, grows, rfl⟩⟩ := called.cases_incr
  · rw [nothing]
    exact (Nat.zero_add _).symm ▸ bound
  · obtain ⟨-, -, sameTop⟩ := sound.grown.grow grows
    rw [sameTop, BitVec.toNat_add] at lower
    omega

end HeapSound

/--
As long as no end wraps the heap is safe, and a further call leaves it safe
exactly when its end does not wrap either.
-/
theorem ksbrk_safe_iff {kernel : Frame} {tables : Nat → Frame}
    (succeeds : SetupSucceeds kernel tables)
    {words : Frame → EntryIndex → BitVec 32}
    {past : List (KsbrkCall × BitVec 32)} {heap : KernelHeap}
    (ran :
      Run (Guarded NoWrap (KsbrkStep kernel))
        (.start ((PageMemory.boot words).pagingSetup kernel tables)) past
        heap) :
    HeapSafe kernel past heap ∧
      ∀ returned next, KsbrkStep kernel heap returned next →
        (HeapSafe kernel (past ++ [returned]) next ↔ NoWrap heap returned) := by
  have sound :=
    ran.invariant (HeapSound kernel) (.start (pagingSetup_tables succeeds))
      fun sound called => sound.step called.1 called.2
  refine ⟨sound.safe, ?_⟩
  intro returned next called
  constructor
  · intro safe
    exact sound.noWrap_of_lower called safe.lower
  · intro noWrap
    exact (sound.step noWrap called).safe

/-- The heap after `paging_setup` at boot. -/
def bootHeap : KernelHeap :=
  .start ((PageMemory.boot bootWords).pagingSetup 0x110 bootTables)

/-- A call with frames from high memory. -/
def ksbrkOf (incr : BitVec 32) : KsbrkCall where
  incr := incr
  frames := fun number => some (BitVec.ofNat 20 (0x20000 + number))
  tables := fun _ => none

/-- The first page that is asked for takes two. -/
theorem ksbrk_safe_iff_firstPage :
    ∃ heap,
      KsbrkStep 0x110 bootHeap (ksbrkOf 0x1000, KHEAP_START) heap ∧
        heap.size = 0x2000 ∧
        HeapSafe 0x110 [(ksbrkOf 0x1000, KHEAP_START)] heap := by
  let grown : KernelHeap :=
    (bootHeap.mapPage 0x110 0x20000 none).mapPage 0x110 0x20001 none
  let heap : KernelHeap := { grown with top := grown.top + 0x1000 }
  have grows :
      bootHeap.grow 0x110 (ksbrkOf 0x1000) 0xE0001000 0 = some grown := by
    rw [KernelHeap.grow, if_neg (by decide), if_neg (by decide)]
    dsimp only [ksbrkOf]
    rw [KernelHeap.grow, if_neg (by decide), if_neg (by decide)]
    dsimp only
    rw [KernelHeap.grow, if_pos (by decide)]
    rfl
  have called : KsbrkStep 0x110 bootHeap (ksbrkOf 0x1000, KHEAP_START) heap :=
    .of_grow (by decide) rfl grows
  have ran : Run (Guarded NoWrap (KsbrkStep 0x110)) bootHeap
        [(ksbrkOf 0x1000, KHEAP_START)] heap :=
    .single ⟨by unfold NoWrap; decide, called⟩
  exact ⟨heap, called, by decide, (ksbrk_safe_iff bootTables_succeeds ran).1⟩

/-- An increment of 512 MB wraps the end of the heap to address 0. -/
theorem wrappedTop_not_safe :
    ¬ ∀ kernel tables words past heap, SetupSucceeds kernel tables →
      Run (KsbrkStep kernel)
        (.start ((PageMemory.boot words).pagingSetup kernel tables)) past
        heap →
      HeapSafe kernel past heap := by
  intro safe
  have grows :
      bootHeap.grow 0x110 (ksbrkOf 0x20000000) 0 0 = some bootHeap := by
    rw [KernelHeap.grow, if_pos (by decide)]
  have called : KsbrkStep 0x110 bootHeap (ksbrkOf 0x20000000, KHEAP_START)
        { bootHeap with top := bootHeap.top + 0x20000000 } :=
    .of_grow (by decide) rfl grows
  have isSafe :=
    safe 0x110 bootTables bootWords _ _ bootTables_succeeds (.single called)
  exact absurd isSafe.lower (by decide)

end Idylla.Mm
