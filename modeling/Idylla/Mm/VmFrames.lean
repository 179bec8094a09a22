import Idylla.Mm.Phys
import Idylla.Mm.VmRefs

namespace Idylla.Mm

open Idylla.Lib

/-!
# Frames of pages, page tables and page directories

The physical bitmap below the calls on address spaces of a 32-bit machine.
`paging_map_page` takes frames for page tables and `paging_create_aspace` one
for the directory; `paging_destroy_aspace` gives back the page tables only.
-/

variable {Vnode : Type}

/-- `PGDIR_ENTRY` -/
def pgdirEntry (virt : BitVec 32) : Nat := (virt >>> 22).toNat

/-- `PGDIR_ENTRY(LOWMEM_START)`: the entries below belong to user memory. -/
def userEntries : Nat := pgdirEntry 0xC0000000

/--
`__kernel_directory` by entry: the frame of each page table that is present.
`entry_32.S` clears the entries of user memory before it starts a process.
-/
structure KernelDirectory where
  tables : Nat → Option Nat
  userClear : ∀ entry, entry < userEntries → tables entry = none

/-- The frame of the directory of each space, and its page tables by entry. -/
structure Paging where
  bitmap : PhysBitmap
  directories : Nat → Option Nat
  tables : Nat → Nat → Option Nat

namespace Paging

/-- `paging_map_page`, with the frame `phys_alloc` hands out for a table. -/
def pagingMapPage (paging : Paging) (space : Nat) (virt : BitVec 32)
    (table : Nat) : Paging :=
  match paging.tables space (pgdirEntry virt) with
  | some _ => paging
  | none =>
    { paging with
      bitmap := paging.bitmap.take table
      tables := fun other entry =>
        if other = space ∧ entry = pgdirEntry virt then some table
        else paging.tables other entry }

/-- `paging_create_aspace`, with the frame of the directory. -/
def pagingCreateAspace (kernel : KernelDirectory) (paging : Paging)
    (space dir : Nat) : Paging where
  bitmap := paging.bitmap.take dir
  directories := fun other =>
    if other = space then some dir else paging.directories other
  tables := fun other =>
    if other = space then kernel.tables else paging.tables other

/-- The loop of `paging_destroy_aspace` over the first entries. -/
def freeTables (tables : Nat → Option Nat)
    (bitmap : PhysBitmap) : Nat → PhysBitmap
  | 0 => bitmap
  | entry + 1 =>
    match tables entry with
    | none => freeTables tables bitmap entry
    | some table => (freeTables tables bitmap entry).give table

/-- `paging_destroy_aspace`. -/
def pagingDestroyAspace (paging : Paging) (space : Nat) : Paging :=
  { paging with
    bitmap := freeTables (paging.tables space) paging.bitmap userEntries }

end Paging

/-- What an event does to the bitmap, where no allocation fails. -/
inductive Performs (before : Paging) :
    VmEvent 32 Vnode → Paging → Prop where
  | physAlloc {frame : Nat}
      (isFree : before.bitmap.free frame = true) :
      Performs before (.physAlloc frame)
        { before with bitmap := before.bitmap.take frame }
  | physFree
      {frame : Nat} :
      Performs before (.physFree frame)
        { before with bitmap := before.bitmap.give frame }
  | mapPage {space table : Nat} {virt : BitVec 32}
      (isFree : before.tables space (pgdirEntry virt) = none →
        before.bitmap.free table = true) :
      Performs before (.mapPage space virt)
        (before.pagingMapPage space virt table)
  | vnodeHold
      {vnode : Vnode} :
      Performs before (.vnodeHold vnode) before
  | vnodeRel
      {vnode : Vnode} :
      Performs before (.vnodeRel vnode) before

/-- The address spaces with the bitmap and the page directories. -/
structure Aspaces (Vnode : Type) where
  spaces : VmSpaces 32 Vnode
  paging : Paging

/-- No address space has been created. -/
def Aspaces.boot (bytes : Nat → PageBytes)
    (bitmap : PhysBitmap) : Aspaces Vnode where
  spaces := .boot userMemory32 bytes
  paging :=
    { bitmap := bitmap
      directories := fun _ => none
      tables := fun _ _ => none }

/-- What is left to do when `vm_space_destroy` has destroyed the area. -/
def finishCall (call : VmCall 32 Vnode) (next : VmSpaces 32 Vnode)
    (paging : Paging) : Paging :=
  match call with
  | .destroy space =>
    if 0 < next.refs space then paging
    else paging.pagingDestroyAspace space
  | _ => paging

/-- The calls with all frames they take and give back. -/
inductive AspaceStep (kernel : KernelDirectory) (before : Aspaces Vnode) :
    VmCall 32 Vnode → Aspaces Vnode → Prop where
  | create {dir : Nat}
      (isFree : before.paging.bitmap.free dir = true) :
      AspaceStep kernel before .create
        { spaces := before.spaces.vmSpaceCreate userMemory32
          paging :=
            before.paging.pagingCreateAspace kernel before.spaces.created dir }
  | call {call : VmCall 32 Vnode} {next : VmSpaces 32 Vnode}
      {events : List (VmEvent 32 Vnode)}
      {paging : Paging}
      (notCreate : call ≠ .create)
      (called : VmCallStep userMemory32 before.spaces call next)
      (isEvents : next.events = before.spaces.events ++ events)
      (performed : Run Performs before.paging events paging) :
      AspaceStep kernel before call
        { spaces := next
          paging := finishCall call next paging }

/-- The frames that are free are those that were free at first. -/
def FramesReturned (first last : Aspaces Vnode) : Prop :=
  last.paging.bitmap.free = first.paging.bitmap.free

/-- The frame is taken, and neither by a page nor by a page table. -/
structure Withheld (frame : Nat) (aspaces : Aspaces Vnode) : Prop where
  inUse : aspaces.paging.bitmap.free frame = false
  noPage : aspaces.spaces.vm.pages frame = none
  noTable : ∀ space entry, entry < userEntries →
      aspaces.paging.tables space entry ≠ some frame

variable {frame : Nat} {events : List (VmEvent 32 Vnode)}

theorem withheld_performed {before after : Paging}
    (inUse : before.bitmap.free frame = false)
    (noTable :
      ∀ space entry, entry < userEntries →
        before.tables space entry ≠ some frame)
    (notFreed : .physFree frame ∉ events)
    (performed : Run Performs before events after) :
    after.bitmap.free frame = false ∧
      ∀ space entry, entry < userEntries →
        after.tables space entry ≠ some frame := by
  have kept :=
    performed.invariant
      (fun past paging =>
        .physFree frame ∉ past →
          paging.bitmap.free frame = false ∧
            ∀ space entry, entry < userEntries →
              paging.tables space entry ≠ some frame)
      (fun _ => ⟨inUse, noTable⟩) ?_
  · exact kept notFreed
  · intro past source event target earlier performs notFreed
    obtain ⟨inUse, noTable⟩ := earlier fun member =>
      notFreed (List.mem_append_left _ member)
    cases performs with
    | @physAlloc other isFree =>
      exact ⟨PhysBitmap.take_in_use inUse other, noTable⟩
    | @physFree other =>
      have different : frame ≠ other := by
        rintro rfl
        exact notFreed (List.mem_append_right _ List.mem_cons_self)
      exact ⟨PhysBitmap.give_in_use inUse different, noTable⟩
    | @mapPage space table virt isFree =>
      unfold Paging.pagingMapPage
      cases isTable : source.tables space (pgdirEntry virt) with
      | some present =>
        exact ⟨inUse, noTable⟩
      | none =>
        refine ⟨PhysBitmap.take_in_use inUse table, ?_⟩
        intro other entry below
        dsimp only
        split
        · intro same
          cases same
          rw [isFree isTable] at inUse
          cases inUse
        · exact noTable other entry below
    | vnodeHold | vnodeRel =>
      exact ⟨inUse, noTable⟩

variable {bitmap : PhysBitmap}

theorem freeTables_in_use {tables : Nat → Option Nat} {frame count : Nat}
    (inUse : bitmap.free frame = false)
    (noTable : ∀ entry, entry < count → tables entry ≠ some frame) :
    (Paging.freeTables tables bitmap count).free frame = false := by
  induction count with
  | zero =>
    exact inUse
  | succ count ih =>
    have earlier := ih fun entry below =>
      noTable entry (Nat.lt_succ_of_lt below)
    unfold Paging.freeTables
    cases isTable : tables count with
    | none =>
      exact earlier
    | some table =>
      refine PhysBitmap.give_in_use earlier ?_
      rintro rfl
      exact noTable count (Nat.lt_succ_self count) isTable

variable {call : VmCall 32 Vnode}

theorem VmCallStep.allocatesFirst {spaces next : VmSpaces 32 Vnode}
    (called : VmCallStep userMemory32 spaces call next)
    (isEvents : next.events = spaces.events ++ events)
    (allocates : .physAlloc frame ∈ events) :
    ∃ later, events = .physAlloc frame :: later := by
  obtain ⟨others, isOthers, cases'⟩ := called.allocates
  obtain rfl : events = others :=
    List.append_cancel_left (isEvents.symm.trans isOthers)
  rcases cases' with nothing | ⟨other, later, -, isFirst, only⟩
  · exact absurd allocates (nothing frame)
  · obtain rfl : frame = other := only frame allocates
    exact ⟨later, isFirst⟩

variable {kernel : KernelDirectory}

variable {paging : Paging}

theorem Withheld.unnamed [DecidableEq Vnode]
    {before : Aspaces Vnode} {next : VmSpaces 32 Vnode}
    (withheld : Withheld frame before) (accounted : Accounted before.spaces)
    (called : VmCallStep userMemory32 before.spaces call next)
    (isEvents : next.events = before.spaces.events ++ events)
    (performed : Run Performs before.paging events paging) :
    .physFree frame ∉ events ∧ next.vm.pages frame = none := by
  have notAllocated : events.count (.physAlloc frame) = 0 := by
    rw [List.count_eq_zero]
    intro member
    obtain ⟨later, isFirst⟩ := called.allocatesFirst isEvents member
    obtain ⟨middle, performs⟩ := performed.head isFirst
    cases performs with
    | physAlloc isFree =>
      rw [withheld.inUse] at isFree
      cases isFree
  have framesBefore := accounted.ledger.frames frame
  have framesAfter := (accounted.step (by decide) called).ledger.frames frame
  have unowned : before.spaces.vm.owned frame = 0 := by
    simp [VmState.owned, withheld.noPage]
  rw [isEvents, List.count_append, List.count_append] at framesAfter
  constructor
  · rw [← List.count_eq_zero]
    omega
  · have unowned : next.vm.owned frame = 0 := by
      omega
    simpa [VmState.owned] using unowned

theorem finishCall_in_use (inUse : paging.bitmap.free frame = false)
    (noTable :
      ∀ space entry, entry < userEntries →
        paging.tables space entry ≠ some frame) (call : VmCall 32 Vnode)
    (next : VmSpaces 32 Vnode) :
    (finishCall call next paging).bitmap.free frame = false ∧
      (finishCall call next paging).tables = paging.tables := by
  cases call with
  | destroy space =>
    unfold finishCall
    dsimp only
    split
    · exact ⟨inUse, rfl⟩
    · exact ⟨freeTables_in_use inUse (noTable space), rfl⟩
  | create => exact ⟨inUse, rfl⟩
  | share space => exact ⟨inUse, rfl⟩
  | mmap space call => exact ⟨inUse, rfl⟩
  | fault space address rw read frame => exact ⟨inUse, rfl⟩
  | clone dest src => exact ⟨inUse, rfl⟩

theorem AspaceStep.accounted [DecidableEq Vnode] {before after : Aspaces Vnode}
    (step : AspaceStep kernel before call after)
    (accounted : Accounted before.spaces) : Accounted after.spaces := by
  cases step with
  | create isFree =>
    exact accounted.create
  | call notCreate called isEvents performed =>
    exact accounted.step (by decide) called

theorem Withheld.step [DecidableEq Vnode] {before after : Aspaces Vnode}
    (withheld : Withheld frame before) (accounted : Accounted before.spaces)
    (step : AspaceStep kernel before call after) : Withheld frame after := by
  cases step with
  | @create dir isFree =>
    refine ⟨PhysBitmap.take_in_use withheld.inUse dir, withheld.noPage, ?_⟩
    intro space entry below
    show (if space = before.spaces.created then kernel.tables
      else before.paging.tables space) entry ≠ some frame
    split
    · rw [kernel.userClear entry below]
      exact nofun
    · exact withheld.noTable space entry below
  | @call _ next events paging notCreate called isEvents performed =>
    obtain ⟨notFreed, noPage⟩ :=
      withheld.unnamed accounted called isEvents performed
    obtain ⟨inUse, noTable⟩ :=
      withheld_performed withheld.inUse withheld.noTable notFreed performed
    obtain ⟨inUse, isTables⟩ := finishCall_in_use inUse noTable call next
    refine ⟨inUse, noPage, ?_⟩
    rw [isTables]
    exact noTable

theorem boot_create {bytes : Nat → PageBytes} {after : Aspaces Vnode}
    (step : AspaceStep kernel (.boot bytes bitmap) call after) :
    ∃ dir, bitmap.free dir = true ∧ Withheld dir after := by
  cases step with
  | @create dir isFree =>
    refine ⟨dir, isFree, ?_, rfl, ?_⟩
    · show (bitmap.take dir).free dir = false
      simp [PhysBitmap.take]
    · intro space entry below
      show (if space = 0 then kernel.tables
        else fun _ => none) entry ≠ some dir
      split
      · rw [kernel.userClear entry below]
        exact nofun
      · exact nofun
  | call notCreate called isEvents performed =>
    obtain ⟨promised, returns⟩ := called
    cases call with
    | create => exact absurd rfl notCreate
    | share space => exact absurd promised (Nat.lt_irrefl 0)
    | mmap space call => exact absurd promised.1 (Nat.lt_irrefl 0)
    | fault space address rw read frame =>
      exact absurd promised.1 (Nat.lt_irrefl 0)
    | clone dest src => exact absurd promised.1 (Nat.lt_irrefl 0)
    | destroy space => exact absurd promised (Nat.lt_irrefl 0)

theorem directory_withheld [DecidableEq Vnode]
    {bytes : Nat → PageBytes} {calls : List (VmCall 32 Vnode)}
    {last : Aspaces Vnode}
    (ran : Run (AspaceStep kernel) (.boot bytes bitmap) calls last)
    (called : calls ≠ []) :
    ∃ dir, bitmap.free dir = true ∧ Withheld dir last := by
  have kept :=
    ran.invariant
      (fun past aspaces =>
        Accounted aspaces.spaces ∧
          (aspaces = .boot bytes bitmap ∧ past = [] ∨
            ∃ dir, bitmap.free dir = true ∧ Withheld dir aspaces))
      ⟨.boot userMemory32 bytes, .inl ⟨rfl, rfl⟩⟩ ?_
  · rcases kept.2 with ⟨-, nothing⟩ | withheld
    · exact absurd nothing called
    · exact withheld
  · intro past source call target earlier step
    obtain ⟨accounted, earlier⟩ := earlier
    refine ⟨step.accounted accounted, .inr ?_⟩
    rcases earlier with ⟨rfl, -⟩ | ⟨dir, isFree, withheld⟩
    · exact boot_create step
    · exact ⟨dir, isFree, withheld.step accounted step⟩

/--
No sequence of calls gives back all frames it took: `paging_destroy_aspace`
keeps the directory.
-/
theorem frames_not_returned [DecidableEq Vnode]
    {kernel : KernelDirectory} {bytes : Nat → PageBytes} {bitmap : PhysBitmap}
    {calls : List (VmCall 32 Vnode)} {last : Aspaces Vnode}
    (ran : Run (AspaceStep kernel) (.boot bytes bitmap) calls last)
    (called : calls ≠ []) : ¬ FramesReturned (.boot bytes bitmap) last := by
  intro returned
  obtain ⟨dir, isFree, withheld⟩ := directory_withheld ran called
  have inUse := withheld.inUse
  rw [returned] at inUse
  exact Bool.false_ne_true (inUse.symm.trans isFree)

/-- A kernel directory without page tables. -/
def emptyDirectory : KernelDirectory where
  tables := fun _ => none
  userClear := fun _ _ => rfl

/-- Seven frames are free. -/
def sevenFrames : PhysBitmap where
  address := 0xC0200000
  items := 32
  free := fun frame => decide (0 < frame ∧ frame < 8)

/-- An address space has one page, and is destroyed. -/
def mapAndDestroy : List (VmCall 32 Unit) :=
  [.create, .mmap 0 (mapFromStart 0x1000),
    .fault 0 0x00400000 true noFiles 2, .destroy 0]

theorem AspaceStep.defined {before : Aspaces Vnode}
    (call : VmCall 32 Vnode) (events : List (VmEvent 32 Vnode))
    (notCreate : call ≠ .create) (promised : call.Promised before.spaces)
    (isDefined : (call.run userMemory32 before.spaces).isSome = true)
    (isEvents :
      (before.spaces.after userMemory32 call).events =
        before.spaces.events ++ events)
    (performed : Run Performs before.paging events paging) :
    AspaceStep kernel before call
      { spaces := before.spaces.after userMemory32 call
        paging :=
          finishCall call (before.spaces.after userMemory32 call) paging } := by
  obtain ⟨next, returns⟩ := Option.isSome_iff_exists.mp isDefined
  refine .call notCreate ⟨promised, ?_⟩ isEvents performed
  simp [VmSpaces.after, returns]

theorem mapAndDestroy_run :
    ∃ last : Aspaces Unit,
      Run (AspaceStep emptyDirectory)
        (.boot (fun _ => zeroPage) sevenFrames) mapAndDestroy last ∧
        ∀ space, last.spaces.refs space = 0 := by
  have created : Run (AspaceStep emptyDirectory)
        (.boot (fun _ => zeroPage) sevenFrames : Aspaces Unit) [.create] _ :=
    .single (@AspaceStep.create Unit emptyDirectory _ 1 rfl)
  have mapped :=
    created.extend
      (AspaceStep.defined (.mmap 0 (mapFromStart 0x1000)) [] nofun
        ⟨Nat.one_pos, by decide⟩ rfl rfl .start)
  have paged :=
    mapped.extend
      (AspaceStep.defined (.fault 0 0x00400000 true noFiles 2)
        ([.physAlloc 2] ++ [.mapPage 0 0x00400000] ++ [.mapPage 0 0x00400000])
        nofun ⟨Nat.one_pos, rfl⟩ rfl rfl
        (.extend
          (.extend (.single (.physAlloc rfl))
            (@Performs.mapPage Unit _ 0 3 0x00400000 fun _ => rfl))
          (@Performs.mapPage Unit _ 0 0 0x00400000 fun isNone =>
            (by cases isNone))))
  have destroyed :=
    paged.extend
      (AspaceStep.defined (.destroy 0) [.physFree 2] nofun
        (by exact Nat.one_pos) rfl rfl (.single .physFree))
  refine ⟨_, destroyed, fun space => ?_⟩
  cases space with
  | zero => rfl
  | succ space => rfl

/-- The frame of the directory is not among the free frames again. -/
theorem mapAndDestroy_not_returned :
    ∃ last : Aspaces Unit,
      Run (AspaceStep emptyDirectory)
        (.boot (fun _ => zeroPage) sevenFrames) mapAndDestroy last ∧
        ¬ FramesReturned (.boot (fun _ => zeroPage) sevenFrames) last := by
  obtain ⟨last, ran, -⟩ := mapAndDestroy_run
  exact ⟨last, ran, frames_not_returned ran nofun⟩

/-- All spaces can be destroyed while a frame is still missing. -/
theorem destroyed_not_returned :
    ¬ ∀ (kernel : KernelDirectory) (bytes : Nat → PageBytes)
        (bitmap : PhysBitmap) (calls : List (VmCall 32 Unit))
        (last : Aspaces Unit),
      Run (AspaceStep kernel) (.boot bytes bitmap) calls last →
      (∀ space, last.spaces.refs space = 0) →
      FramesReturned (.boot bytes bitmap) last := by
  intro always
  obtain ⟨last, ran, unused⟩ := mapAndDestroy_run
  obtain ⟨dir, isFree, withheld⟩ := directory_withheld ran nofun
  have inUse := withheld.inUse
  rw [always _ _ _ _ _ ran unused] at inUse
  exact Bool.false_ne_true (inUse.symm.trans isFree)

end Idylla.Mm
