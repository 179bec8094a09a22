import Idylla.Exec.Elf32Header
import Idylla.Mm.VmMmapBounds

namespace Idylla.Exec

open Idylla.Lib Idylla.Mm

/-!
# What the loader writes

The `memset` of `elf32_ph_load` writes whether or not the mapping of the file
part has succeeded.  It stays in the pages of the new program exactly when the
page it starts in is one of them.
-/

/-- The address lies in user memory. -/
def InUserMemory (address : BitVec 32) : Prop :=
  userMemory32.start ≤ address ∧
    address < userMemory32.start + userMemory32.size

/-- A block that `vm_mmap` has mapped. -/
structure Extent where
  start : BitVec 32
  length : BitVec 32
  deriving Repr, DecidableEq

/-- The address lies in the block, as the page fault handler tests it. -/
def Extent.Holds (extent : Extent) (address : BitVec 32) : Prop :=
  extent.start ≤ address ∧ address < extent.start + extent.length

/-- A call of `memset`, and what had been mapped before it. -/
structure ZeroWrite where
  start : BitVec 32
  length : BitVec 32
  mapped : List Extent

/--
An address space while `elf32_execve` builds it, with the blocks that call has
mapped and the ranges it has cleared.
-/
structure LoadTrace (Vnode : Type) where
  space : MmapState 32 Vnode
  mapped : List Extent
  writes : List ZeroWrite

variable {Vnode : Type}

/-- `vm_mmap`, and a note of the block where it succeeds. -/
def traceMmap (filedes : Int → Option (File Vnode)) (request : MmapRequest 32)
    (trace : LoadTrace Vnode) : LoadTrace Vnode :=
  let outcome := vmMmap filedes request trace.space
  { trace with
    space := outcome.1
    mapped := match outcome.2 with
      | .ok start =>
        trace.mapped ++ [{ start := start, length := request.length }]
      | .error _ => trace.mapped }

/--
The loader with `vm_mmap` of the source and a `memset` that notes the range;
`ends` decides how it ends.
-/
def tracing (filedes : Int → Option (File Vnode))
    (ends : ZeroWrite → LoadResult Unit) : Loader (LoadTrace Vnode) where
  mmap := traceMmap filedes
  zero := fun start length trace =>
    let write : ZeroWrite :=
      { start := start, length := length, mapped := trace.mapped }
    ({ trace with writes := trace.writes ++ [write] }, ends write)

/-- Every byte cleared lies in user memory and in a block of the new program. -/
def ZeroWrite.OwnPages (write : ZeroWrite) : Prop :=
  ∀ index, index < write.length.toNat →
    InUserMemory (write.start + BitVec.ofNat 32 index) ∧
      ∃ extent ∈ write.mapped,
        extent.Holds (write.start + BitVec.ofNat 32 index)

/-- The header has no bytes to clear behind its file part. -/
def Elf32Phdr.ZeroesNothing (seg : Elf32Phdr) : Prop :=
  seg.pMemsz = 0 ∨ seg.pOffset < seg.delta ∨
    seg.lenfile ≤ seg.pFilesz ∨ seg.zeroLength = 0

/-- The file is open and a free block has room for the whole file part. -/
def FileFits (filedes : Int → Option (File Vnode)) (fd : Int) (seg : Elf32Phdr)
    (trace : LoadTrace Vnode) : Prop :=
  (0 ≤ fd ∧ fd < openMax ∧ filedes fd ≠ none) ∧ seg.addr ≠ 0 ∧
    ∃ found,
      firstFound (fun block => block.hits seg.addr)
          trace.space.area.freeList = some found ∧
        seg.addr.toNat + seg.lenfile.toNat ≤ found.item.ends

/--
The header clears nothing, or it starts to clear in user memory, in a block
mapped before it or in its own file part, for which there is room.
-/
def ZeroesOwnPages (filedes : Int → Option (File Vnode))
    (fd : Int) (seg : Elf32Phdr) (trace : LoadTrace Vnode) : Prop :=
  seg.ZeroesNothing ∨
    InUserMemory seg.zeroStart ∧
      ((∃ extent ∈ trace.mapped, extent.Holds seg.zeroStart) ∨
        FileFits filedes fd seg trace)

/-- Both ends of the block lie between pages. -/
def Extent.Aligned (extent : Extent) : Prop :=
  extent.start.toNat % 0x1000 = 0 ∧ extent.length.toNat % 0x1000 = 0

theorem Extent.Aligned.holds_of_samePage {extent : Extent}
    (aligned : extent.Aligned) {first second : BitVec 32}
    (samePage : second.toNat / 0x1000 = first.toNat / 0x1000)
    (holds : extent.Holds first) : extent.Holds second := by
  obtain ⟨startAligned, lengthAligned⟩ := aligned
  obtain ⟨lower, upper⟩ := holds
  have isStop : (extent.start + extent.length).toNat =
      (extent.start.toNat + extent.length.toNat) % 2 ^ 32 :=
    BitVec.toNat_add ..
  rw [BitVec.le_def] at lower
  rw [BitVec.lt_def, isStop] at upper
  constructor
  · rw [BitVec.le_def]
    omega
  · rw [BitVec.lt_def, isStop]
    omega

theorem inUserMemory_of_samePage {first second : BitVec 32}
    (samePage : second.toNat / 0x1000 = first.toNat / 0x1000)
    (inside : InUserMemory first) : InUserMemory second := by
  obtain ⟨lower, upper⟩ := inside
  have isStart : userMemory32.start.toNat = 0x400000 := rfl
  have isStop : (userMemory32.start + userMemory32.size).toNat =
      0xC0000000 := rfl
  rw [BitVec.le_def, isStart] at lower
  rw [BitVec.lt_def, isStop] at upper
  constructor
  · rw [BitVec.le_def, isStart]
    omega
  · rw [BitVec.lt_def, isStop]
    omega

theorem ownPages_iff {seg : Elf32Phdr} (pages : seg.FilePages)
    {mapped : List Extent} (aligned : ∀ extent ∈ mapped, extent.Aligned)
    (clears : seg.zeroLength ≠ 0) :
    ZeroWrite.OwnPages
        { start := seg.zeroStart
          length := seg.zeroLength
          mapped := mapped } ↔
      InUserMemory seg.zeroStart ∧
        ∃ extent ∈ mapped, extent.Holds seg.zeroStart := by
  have positive : 0 < seg.zeroLength.toNat := by
    apply Nat.pos_of_ne_zero
    intro isZero
    exact clears (BitVec.eq_of_toNat_eq isZero)
  constructor
  · intro own
    simpa using own 0 positive
  · rintro ⟨inside, extent, member, holds⟩ index inRange
    have samePage := pages.samePage inRange
    exact ⟨inUserMemory_of_samePage samePage inside, extent, member,
      (aligned extent member).holds_of_samePage samePage holds⟩

theorem smaAlloc_fixed_eq {Data : Type} (area : SmaArea 32 Data)
    (addr size : BitVec 32) :
    smaAlloc area addr size smaAllocFixed =
      (smaHinted area addr size).map fun found =>
        smaCarve area found addr size := by
  have noFirstFit : smaFirstFit area size smaAllocFixed = none := by
    simp [smaFirstFit, smaAllocFixed]
  rw [smaAlloc, smaFind, noFirstFit, Option.or_none]

/-- The checks pass, and a free block holds the start and reaches the end. -/
def MmapSucceeds (filedes : Int → Option (File Vnode))
    (request : MmapRequest 32) (trace : LoadTrace Vnode) : Prop :=
  (∃ file, mmapFile filedes request = .ok file) ∧
    ∃ found,
      smaHinted trace.space.area request.start request.length = some found

section Trace

variable {filedes : Int → Option (File Vnode)} {request : MmapRequest 32}
  {trace : LoadTrace Vnode}

theorem traceMmap_succeeds (fixed : request.flags &&& mapFixed ≠ 0)
    (succeeds : MmapSucceeds filedes request trace) :
    (traceMmap filedes request trace).mapped =
      trace.mapped ++
        [{ start := request.start, length := request.length }] := by
  obtain ⟨⟨file, passes⟩, found, isFound⟩ := succeeds
  rcases isCarved :
      smaCarve trace.space.area found request.start request.length with
    ⟨block, area⟩
  have allocated : smaAlloc trace.space.area request.start request.length
        (mmapAllocFlags request) = some (block, area) := by
    rw [mmapAllocFlags, if_pos fixed, smaAlloc_fixed_eq, isFound,
      Option.map_some, isCarved]
  have placed : block.start = request.start := by
    rw [mmapAllocFlags, if_pos fixed] at allocated
    exact (smaAlloc_fixed allocated).start
  unfold traceMmap vmMmap
  rw [passes]
  simp [allocated, placed]

theorem traceMmap_fails (fixed : request.flags &&& mapFixed ≠ 0)
    (fails : ¬ MmapSucceeds filedes request trace) :
    (traceMmap filedes request trace).mapped = trace.mapped := by
  unfold traceMmap vmMmap
  cases passes : mmapFile filedes request with
  | error errno =>
    rfl
  | ok file =>
    have notFound :
        smaHinted trace.space.area request.start request.length = none := by
      cases isFound :
          smaHinted trace.space.area request.start request.length with
      | none =>
        rfl
      | some found =>
        exact absurd ⟨⟨file, passes⟩, found, isFound⟩ fails
    have refused : smaAlloc trace.space.area request.start request.length
          (mmapAllocFlags request) = none := by
      rw [mmapAllocFlags, if_pos fixed, smaAlloc_fixed_eq, notFound,
        Option.map_none]
    simp [refused]

theorem traceMmap_aligned (fixed : request.flags &&& mapFixed ≠ 0)
    (aligned : ∀ extent ∈ trace.mapped, extent.Aligned) :
    ∀ extent ∈ (traceMmap filedes request trace).mapped, extent.Aligned := by
  by_cases succeeds : MmapSucceeds filedes request trace
  · rw [traceMmap_succeeds fixed succeeds]
    obtain ⟨⟨file, passes⟩, -⟩ := succeeds
    intro extent member
    rcases List.mem_append.mp member with old | new
    · exact aligned extent old
    · obtain rfl := List.mem_singleton.mp new
      unfold mmapFile at passes
      split at passes
      next => cases passes
      next checked =>
        simp only [not_or, Decidable.not_not] at checked
        exact ⟨congrArg BitVec.toNat checked.1,
          congrArg BitVec.toNat checked.2.2⟩
  · rw [traceMmap_fails fixed succeeds]
    exact aligned

end Trace

namespace Elf32Phdr

variable (fd : Int)

/-- The file part is mapped where `memset` writes when there is room. -/
theorem fileFits_iff {seg : Elf32Phdr} (more : seg.pFilesz < seg.lenfile)
    (clears : seg.zeroLength ≠ 0) (filedes : Int → Option (File Vnode))
    (trace : LoadTrace Vnode) :
    MmapSucceeds filedes (seg.fileRequest fd) trace ∧
        Extent.Holds { start := seg.addr, length := seg.lenfile }
          seg.zeroStart ↔
      FileFits filedes fd seg trace := by
  have pages := filePages more
  have notEmpty : seg.lenfile ≠ 0 := by
    intro isZero
    rw [isZero] at more
    exact absurd more (Nat.not_lt_zero _)
  have notFull : seg.delta.toNat + seg.pFilesz.toNat < seg.lenfile.toNat := by
    apply Nat.lt_of_not_le
    intro full
    apply clears
    apply BitVec.eq_of_toNat_eq
    rw [pages.length]
    show _ = 0
    omega
  have isStop : (seg.addr + seg.lenfile).toNat =
      (seg.addr.toNat + seg.lenfile.toNat) % 2 ^ 32 :=
    BitVec.toNat_add ..
  have isStart := pages.start
  -- The block that holds the start does not wrap around.
  have bounds {found : Found (SmaBlock 32 VmMapping)}
      (isFirst :
        firstFound (fun block => block.hits seg.addr)
          trace.space.area.freeList = some found) :
      found.item.stop.toNat = found.item.ends ∧ found.item.ends < 2 ^ 32 := by
    have hits := (firstFound_some isFirst).2.1
    simp only [SmaBlock.hits, decide_eq_true_eq, BitVec.le_def,
      BitVec.lt_def] at hits
    have isItemStop : found.item.stop.toNat =
        (found.item.start.toNat + found.item.size.toNat) % 2 ^ 32 :=
      BitVec.toNat_add ..
    rw [SmaBlock.ends]
    omega
  constructor
  · rintro ⟨⟨passes, found, isFound⟩, lower, upper⟩
    obtain ⟨hint, isFirst, reaches⟩ := smaHinted_some isFound
    obtain ⟨stop, fits⟩ := bounds isFirst
    refine ⟨(mmapFile_fileRequest_ok_iff notEmpty).mp passes,
      hint, found, isFirst, ?_⟩
    have reaches : (seg.addr + seg.lenfile).toNat ≤
        found.item.stop.toNat := reaches
    have lower : seg.addr.toNat ≤ seg.zeroStart.toNat := lower
    have upper : seg.zeroStart.toNat < (seg.addr + seg.lenfile).toNat := upper
    omega
  · rintro ⟨isOpen, hint, found, isFirst, room⟩
    obtain ⟨stop, fits⟩ := bounds isFirst
    refine ⟨⟨(mmapFile_fileRequest_ok_iff notEmpty).mpr isOpen,
      found, ?_⟩, ?_, ?_⟩
    · have large : ¬ found.item.stop < seg.addr + seg.lenfile := by
        rw [BitVec.not_lt, BitVec.le_def]
        omega
      show smaHinted trace.space.area seg.addr seg.lenfile = _
      rw [smaHinted, if_neg hint, isFirst]
      exact if_neg large
    · show seg.addr.toNat ≤ seg.zeroStart.toNat
      omega
    · show seg.zeroStart.toNat < (seg.addr + seg.lenfile).toNat
      omega

end Elf32Phdr

/-- Every `memset` so far has stayed in the new program. -/
def LoadTrace.OwnPages (trace : LoadTrace Vnode) : Prop :=
  ∀ write ∈ trace.writes, write.OwnPages

/-- All blocks mapped so far are whole pages. -/
def LoadTrace.Aligned (trace : LoadTrace Vnode) : Prop :=
  ∀ extent ∈ trace.mapped, extent.Aligned

/-- The trace in which `elf32_execve` starts. -/
def LoadTrace.start (space : MmapState 32 Vnode) : LoadTrace Vnode where
  space := space
  mapped := []
  writes := []

theorem ownPages_append {writes : List ZeroWrite} {write : ZeroWrite} :
    (∀ other ∈ writes ++ [write], other.OwnPages) ↔
      (∀ other ∈ writes, other.OwnPages) ∧ write.OwnPages := by
  simp [or_imp, forall_and]

section Loads

variable {filedes : Int → Option (File Vnode)}
  {ends : ZeroWrite → LoadResult Unit} {fd : Int} {seg : Elf32Phdr}
  {trace : LoadTrace Vnode}

theorem elf32PhLoad_trace (nonempty : ¬ seg.pMemsz = 0)
    (offset : ¬ seg.pOffset < seg.delta) (more : seg.pFilesz < seg.lenfile) :
    let filed := traceMmap filedes (seg.fileRequest fd) trace
    let write : ZeroWrite :=
      { start := seg.zeroStart
        length := seg.zeroLength
        mapped := filed.mapped }
    let zeroed := { filed with writes := filed.writes ++ [write] }
    let loaded :=
      (elf32PhLoad (tracing filedes ends) fd seg trace).1
    loaded = zeroed ∨ loaded = traceMmap filedes seg.anonRequest zeroed := by
  have positive : 0 < seg.lenfile := by
    have more : seg.pFilesz.toNat < seg.lenfile.toNat := more
    show (0 : Nat) < seg.lenfile.toNat
    omega
  intro filed write zeroed loaded
  simp only [loaded, elf32PhLoad, if_neg nonempty, if_neg offset,
    if_pos positive, if_pos more]
  split
  · split
    · exact .inr rfl
    · exact .inl rfl
  · exact .inl rfl

/-- What every mapping and the `memset` keep true, a segment keeps true. -/
theorem elf32PhLoad_keeps {State : Type} {loader : Loader State} {state : State}
    {Holds : State → Prop}
    (mmapKeeps :
      ∀ request : MmapRequest 32, request.flags &&& mapFixed ≠ 0 →
        ∀ before, Holds before → Holds (loader.mmap request before))
    (zeroKeeps :
      seg.pFilesz < seg.lenfile →
        ∀ before, Holds before →
          Holds (loader.zero seg.zeroStart seg.zeroLength before).1)
    (holds : Holds state) : Holds (elf32PhLoad loader fd seg state).1 := by
  unfold elf32PhLoad
  split
  · exact holds
  · split
    · exact holds
    · have filed : Holds
            (if 0 < seg.lenfile then
              loader.mmap (seg.fileRequest fd) state
            else state) := by
        split
        · exact mmapKeeps _ (seg.fileRequest_fixed fd) state holds
        · exact holds
      generalize
        (if 0 < seg.lenfile then loader.mmap (seg.fileRequest fd) state
          else state) = before at filed
      have zeroed : Holds
            (if seg.pFilesz < seg.lenfile then
              loader.zero seg.zeroStart seg.zeroLength before
            else (before, .returns (.ok ()))).1 := by
        split
        next more => exact zeroKeeps more before filed
        · exact filed
      dsimp only
      split
      · split
        · exact mmapKeeps _ seg.anonRequest_fixed _ zeroed
        · exact zeroed
      · exact zeroed

theorem LoadTrace.Aligned.elf32PhLoad (aligned : trace.Aligned) :
    (Exec.elf32PhLoad (tracing filedes ends) fd seg trace).1.Aligned :=
  elf32PhLoad_keeps (fun _ fixed _ before => traceMmap_aligned fixed before)
    (fun _ _ before => before) aligned

/-- A segment stays in the new program exactly under its condition. -/
theorem elf32PhLoad_ownPages_iff (aligned : trace.Aligned) :
    (elf32PhLoad (tracing filedes ends) fd seg trace).1.OwnPages ↔
      trace.OwnPages ∧ ZeroesOwnPages filedes fd seg trace := by
  have fixed := seg.fileRequest_fixed fd
  by_cases more : seg.pFilesz < seg.lenfile
  · by_cases isEmpty : seg.pMemsz = 0
    · rw [elf32PhLoad, if_pos isEmpty]
      exact ⟨fun own => ⟨own, .inl (.inl isEmpty)⟩, And.left⟩
    by_cases offset : seg.pOffset < seg.delta
    · rw [elf32PhLoad, if_neg isEmpty, if_pos offset]
      exact ⟨fun own => ⟨own, .inl (.inr (.inl offset))⟩, And.left⟩
    have isWrite : (elf32PhLoad (tracing filedes ends) fd seg trace).1.writes =
          trace.writes ++
            [{ start := seg.zeroStart
               length := seg.zeroLength
               mapped :=
                (traceMmap filedes (seg.fileRequest fd) trace).mapped }] := by
      rcases elf32PhLoad_trace isEmpty offset more with same | same
      · rw [same]
        rfl
      · rw [same]
        rfl
    rw [LoadTrace.OwnPages, isWrite, ownPages_append]
    refine and_congr Iff.rfl ?_
    by_cases clears : seg.zeroLength = 0
    · constructor
      · exact fun _ => .inl (.inr (.inr (.inr clears)))
      · intro _ index inRange
        rw [clears] at inRange
        exact absurd inRange (Nat.not_lt_zero _)
    · have notNothing : ¬ seg.ZeroesNothing := by
        rintro (isZero | short | full | isZero)
        · exact isEmpty isZero
        · exact offset short
        · exact BitVec.not_lt.mpr full more
        · exact clears isZero
      rw [ownPages_iff (Elf32Phdr.filePages more)
        (traceMmap_aligned fixed aligned) clears, ZeroesOwnPages,
        or_iff_right notNothing]
      rw [← Elf32Phdr.fileFits_iff fd more clears filedes trace]
      by_cases succeeds : MmapSucceeds filedes (seg.fileRequest fd) trace
      · rw [traceMmap_succeeds fixed succeeds]
        have isStart : (seg.fileRequest fd).start = seg.addr := rfl
        have isLength : (seg.fileRequest fd).length = seg.lenfile := rfl
        simp [or_and_right, exists_or, succeeds, isStart, isLength]
      · rw [traceMmap_fails fixed succeeds]
        simp [succeeds]
  · have sameWrites :
        (elf32PhLoad (tracing filedes ends) fd seg trace).1.writes =
          trace.writes :=
      @elf32PhLoad_keeps fd seg _ (tracing filedes ends) trace
        (fun after => after.writes = trace.writes)
        (fun _ _ _ before => before)
        (fun more' => absurd more' more) rfl
    rw [LoadTrace.OwnPages, sameWrites]
    exact ⟨fun own =>
      ⟨own, .inl (.inr (.inr (.inl (BitVec.not_lt.mp more))))⟩, And.left⟩

end Loads

/-- Every header the loop of `elf32_execve` reaches meets its condition. -/
def HeadersZeroOwnPages (filedes : Int → Option (File Vnode))
    (ends : ZeroWrite → LoadResult Unit) (fd : Int) :
    List Elf32Phdr → LoadTrace Vnode → Prop
  | [], _ => True
  | seg :: rest, trace =>
    if seg.pType = PT_LOAD then
      ZeroesOwnPages filedes fd seg trace ∧
        match elf32PhLoad (tracing filedes ends) fd seg trace with
        | (loaded, .returns (.ok ())) =>
          HeadersZeroOwnPages filedes ends fd rest loaded
        | _ => True
    else if seg.pType = PT_INTERP then
      True
    else
      HeadersZeroOwnPages filedes ends fd rest trace

theorem elf32PhLoads_ownPages_iff (filedes : Int → Option (File Vnode))
    (ends : ZeroWrite → LoadResult Unit) (fd : Int) (segs : List Elf32Phdr)
    {trace : LoadTrace Vnode} (aligned : trace.Aligned) :
    (elf32PhLoads (tracing filedes ends) fd segs trace).1.OwnPages ↔
      trace.OwnPages ∧ HeadersZeroOwnPages filedes ends fd segs trace := by
  induction segs generalizing trace with
  | nil =>
    exact ⟨fun own => ⟨own, trivial⟩, And.left⟩
  | cons seg rest ih =>
    rw [elf32PhLoads, HeadersZeroOwnPages]
    by_cases isLoad : seg.pType = PT_LOAD
    · rw [if_pos isLoad, if_pos isLoad]
      have loads := @elf32PhLoad_ownPages_iff _ filedes ends fd seg
        trace aligned
      have alignedNow := @LoadTrace.Aligned.elf32PhLoad _ filedes ends
        fd seg trace aligned
      generalize elf32PhLoad (tracing filedes ends) fd seg trace =
        outcome at loads alignedNow
      obtain ⟨loaded, result⟩ := outcome
      rcases result with (errno | ⟨⟨⟩⟩) | - | -
      · exact loads.trans (by simp)
      · exact (ih alignedNow).trans ((and_congr loads Iff.rfl).trans and_assoc)
      · exact loads.trans (by simp)
      · exact loads.trans (by simp)
    · rw [if_neg isLoad, if_neg isLoad]
      by_cases isInterp : seg.pType = PT_INTERP
      · rw [if_pos isInterp, if_pos isInterp]
        exact ⟨fun own => ⟨own, trivial⟩, And.left⟩
      · rw [if_neg isInterp, if_neg isInterp]
        exact ih aligned

/--
`elf32_execve` clears bytes of the new program only, exactly when every header
it reaches starts to clear in a page of the new program.
-/
theorem elf32Execve_ownPages_iff (filedes : Int → Option (File Vnode))
    (ends : ZeroWrite → LoadResult Unit) (fd : Int) (hdr : Elf32Ehdr)
    (read : Except Errno (Nat × (Nat → BitVec 8)))
    (space : MmapState 32 Vnode) :
    (elf32Execve (tracing filedes ends) fd hdr read
        (LoadTrace.start space)).1.OwnPages ↔
      ∀ buf, read = .ok (hdr.ePhentsize.toNat * hdr.ePhnum.toNat, buf) →
        HeadersZeroOwnPages filedes ends fd (phdrs hdr buf)
          (LoadTrace.start space) := by
  have nothing : (LoadTrace.start space).OwnPages := by
    intro write member
    cases member
  have aligned : (LoadTrace.start space).Aligned := by
    intro extent member
    cases member
  unfold elf32Execve
  cases read with
  | error errno =>
    exact ⟨fun _ buf isRead => (nomatch isRead), fun _ => nothing⟩
  | ok outcome =>
    obtain ⟨count, buf⟩ := outcome
    dsimp only
    by_cases short : count = hdr.ePhentsize.toNat * hdr.ePhnum.toNat
    · rw [if_neg (not_not_intro short)]
      subst short
      rw [elf32PhLoads_ownPages_iff filedes ends fd _ aligned]
      constructor
      · rintro ⟨-, headers⟩ other isRead
        obtain ⟨-, rfl⟩ := Prod.mk.inj (Except.ok.inj isRead)
        exact headers
      · exact fun headers => ⟨nothing, headers buf rfl⟩
    · rw [if_pos short]
      refine ⟨fun _ other isRead => ?_, fun _ => nothing⟩
      exact absurd (Prod.mk.inj (Except.ok.inj isRead)).1 short

/-- An ELF header with one program header. -/
def oneHeader : Elf32Ehdr where
  eEntry := 0xC0100000
  ePhoff := 52
  ePhentsize := 32
  ePhnum := 1

/-- A segment of one byte at `0xC0100000`, in the memory of the kernel. -/
def kernelSegment : List (BitVec 8) :=
  [1, 0, 0, 0,  0, 0, 0, 0,  0x00, 0x00, 0x10, 0xC0,  0, 0, 0, 0,
    1, 0, 0, 0,  1, 0, 0, 0,  6, 0, 0, 0,  0, 0, 0, 0]

/-- The rest of the page behind the byte is cleared, in the kernel. -/
theorem elf32Execve_clears_kernel_memory :
    ¬ ∀ (filedes : Int → Option (File Unit))
        (ends : ZeroWrite → LoadResult Unit)
        (fd : Int) (hdr : Elf32Ehdr)
        (read : Except Errno (Nat × (Nat → BitVec 8))),
        (elf32Execve (tracing filedes ends) fd hdr read
          (LoadTrace.start (.fresh userMemory32 .empty))).1.OwnPages := by
  intro always
  have own :=
    always (fun _ => some { vnode := some () }) (fun _ => .returns (.ok ())) 3
    oneHeader (.ok (32, fun index => kernelSegment[index]?.getD 0))
  have inUser := (own { start := 0xC0100001, length := 0xFFF, mapped := [] }
    (by
      exact List.mem_singleton.mpr rfl)
    0 (by decide)).1
  exact absurd inUser.2 (by decide)

end Idylla.Exec
