import Idylla.Exec.Elf32Header
import Idylla.Exec.Elf32Paging

namespace Idylla.Exec

open Idylla.Lib Idylla.Mm

/-!
# What a loaded segment shows

The file part of a segment, the rest of its last page and the anonymous part
are rounded separately.  They are the pages of the segment, filled with the
file and zeros, exactly when `ROUND_UP(p_memsz)` does not miss the page the
segment ends in.
-/

variable {Vnode : Type}

/-- The address lies in a page that meets `[p_vaddr, p_vaddr + p_memsz)`. -/
def Elf32Phdr.InPages (seg : Elf32Phdr) (address : Nat) : Prop :=
  ∃ byte, seg.pVaddr.toNat ≤ byte ∧ byte < seg.pVaddr.toNat + seg.pMemsz.toNat ∧
    byte / PAGE_SIZE = address / PAGE_SIZE

/-- The bytes from `addr` to the end of the page the segment ends in. -/
def Elf32Phdr.pageBytes (seg : Elf32Phdr) : BitVec 32 :=
  pageRoundUp (seg.delta + seg.pMemsz)

/-- The blocks a call adds to a space hold the addresses up to `stop`. -/
def AddsBlocks (before after : VmState 32 Vnode)
    (space first stop : Nat) : Prop :=
  ∃ added : List (SmaBlock 32 VmMapping),
    (after.spaces space).area.usedList.Perm
        (added ++ (before.spaces space).area.usedList) ∧
      ∀ address : Nat,
        (∃ block ∈ added, block.Covers address) ↔
          first ≤ address ∧ address < stop

/--
The blocks added are the pages of the segment, and its bytes read as the file
from `p_offset` on and as zeros behind it.
-/
structure SegmentLoaded
    (seg : Elf32Phdr) (content : List (BitVec 8)) (read : VnodeRead Vnode)
    (space : Nat)
    (before after : VmState 32 Vnode) : Prop where
  pages : ∃ added : List (SmaBlock 32 VmMapping),
      (after.spaces space).area.usedList.Perm
          (added ++ (before.spaces space).area.usedList) ∧
        ∀ address : Nat,
          (∃ block ∈ added, block.Covers address) ↔ seg.InPages address
  file : ∀ index, index < seg.pFilesz.toNat →
      ∀ frame,
        reads after space read frame (seg.pVaddr + BitVec.ofNat 32 index) =
          some (content[seg.pOffset.toNat + index]?.getD 0)
  zeros : ∀ index, seg.pFilesz.toNat ≤ index → index < seg.pMemsz.toNat →
      ∀ frame,
        reads after space read frame
            (seg.pVaddr + BitVec.ofNat 32 index) = some 0

/-- A program header a linker makes for user memory. -/
structure Elf32Phdr.WellFormed (seg : Elf32Phdr) : Prop where
  filesz : seg.pFilesz.toNat ≤ seg.pMemsz.toNat
  congruent : seg.pOffset.toNat % PAGE_SIZE = seg.pVaddr.toNat % PAGE_SIZE
  lower : userMemory32.start.toNat ≤ seg.pVaddr.toNat
  upper : seg.pVaddr.toNat + seg.pMemsz.toNat ≤
      userMemory32.start.toNat + userMemory32.size.toNat

/--
A header and a space in which its pages are not mapped, an open file that can
be read, and frames that are not in use.
-/
structure LoadSetting
    (filedes : Int → Option (File Vnode))
    (fd : Int) (vnode : Vnode) (content : List (BitVec 8))
    (read : VnodeRead Vnode)
    (frames : BitVec 32 → Nat)
    (space : Nat) (seg : Elf32Phdr)
    (state : VmState 32 Vnode) : Prop where
  header : seg.WellFormed
  ready : SpaceReady userMemory32 state space
  unmapped : ∀ address : BitVec 32, seg.InPages address.toNat →
      (∀ block ∈ (state.spaces space).area.usedList,
          ¬ block.Covers address.toNat) ∧
        state.translate space address = none
  isOpen : 0 ≤ fd ∧ fd < openMax ∧ filedes fd = some { vnode := some vnode }
  delivers : ∀ offset : Nat,
      read vnode offset = .ok ((content.drop offset).take PAGE_SIZE)
  unused : ∀ address, state.pages (frames address) = none

/-- `elf32_ph_load` is defined, and where it returns 0 it has loaded. -/
def LoadsFaithfully (filedes : Int → Option (File Vnode))
    (fd : Int) (content : List (BitVec 8)) (read : VnodeRead Vnode)
    (frames : BitVec 32 → Nat) (space : Nat) (seg : Elf32Phdr)
    (state : VmState 32 Vnode) : Prop :=
  let loaded := elf32PhLoad (paging filedes space read frames) fd seg state
  loaded.2 ≠ .undefined ∧
    (loaded.2 = .returns (.ok ()) →
      SegmentLoaded seg content read space state loaded.1)

/--
Both parts end below two gigabytes, and `ROUND_UP(p_memsz)` reaches the page
the segment ends in; or the file part does and nothing is free behind it.
-/
def SegmentFits (seg : Elf32Phdr) (area : SmaArea 32 VmMapping) : Prop :=
  seg.pMemsz = 0 ∨
    seg.lenfile.toNat ≤ 2 ^ 31 ∧
      (pageRoundUp seg.pMemsz = seg.pageBytes ∧ seg.lenmem.toNat ≤ 2 ^ 31 ∨
        seg.lenfile = seg.pageBytes ∧
          ∀ block ∈ area.freeList,
            ¬ block.Covers (seg.addr + seg.lenfile).toNat)

/-- The roundings of a well-formed header, none of which wraps around. -/
structure SegmentSizes (seg : Elf32Phdr) : Prop where
  addr_aligned : seg.addr.toNat % 0x1000 = 0
  addr_lower : 0x400000 ≤ seg.addr.toNat
  delta_small : seg.delta.toNat < 0x1000
  vaddr : seg.pVaddr.toNat = seg.addr.toNat + seg.delta.toNat
  lenfile : seg.lenfile.toNat =
      (seg.delta.toNat + seg.pFilesz.toNat + 0xFFF) / 0x1000 * 0x1000
  pageBytes : seg.pageBytes.toNat =
      (seg.delta.toNat + seg.pMemsz.toNat + 0xFFF) / 0x1000 * 0x1000
  memsz : (pageRoundUp seg.pMemsz).toNat =
      (seg.pMemsz.toNat + 0xFFF) / 0x1000 * 0x1000
  lenmem : seg.lenmem.toNat =
      (2 ^ 32 - seg.lenfile.toNat + (pageRoundUp seg.pMemsz).toNat) % 2 ^ 32
  upper : seg.addr.toNat + seg.pageBytes.toNat ≤ 0xC0000000
  off : seg.off.toNat + seg.delta.toNat = seg.pOffset.toNat
  offset : ¬ seg.pOffset < seg.delta

variable {seg : Elf32Phdr}

theorem roundUp_small {bytes : Nat} (small : bytes + 0xFFF < 2 ^ 32) :
    (bytes % 2 ^ 32 + 0xFFF) / 0x1000 * 0x1000 % 2 ^ 32 =
      (bytes + 0xFFF) / 0x1000 * 0x1000 := by
  rw [Nat.mod_eq_of_lt (by omega), Nat.mod_eq_of_lt (by omega)]

theorem Elf32Phdr.WellFormed.sizes (header : seg.WellFormed) :
    SegmentSizes seg := by
  obtain ⟨filesz, congruent, lower, upper⟩ := header
  obtain ⟨isAddr, isDelta⟩ := seg.addr_delta
  have lower : 0x400000 ≤ seg.pVaddr.toNat := lower
  have upper : seg.pVaddr.toNat + seg.pMemsz.toNat ≤ 0xC0000000 := upper
  have congruent :
      seg.pOffset.toNat % 0x1000 = seg.pVaddr.toNat % 0x1000 := congruent
  have notBelow : ¬ seg.pOffset < seg.delta := by
    rw [BitVec.lt_def]
    omega
  have isOff : seg.off.toNat = seg.pOffset.toNat - seg.delta.toNat :=
    BitVec.toNat_sub_of_le (BitVec.not_lt.mp notBelow)
  have isMemsz := pageRoundUp_toNat32 seg.pMemsz
  rw [← Nat.mod_eq_of_lt seg.pMemsz.isLt, roundUp_small (by omega)] at isMemsz
  have isPageBytes : seg.pageBytes.toNat =
      (seg.delta.toNat + seg.pMemsz.toNat + 0xFFF) / 0x1000 * 0x1000 := by
    rw [Elf32Phdr.pageBytes, pageRoundUp_toNat32, BitVec.toNat_add,
      roundUp_small (by omega)]
  refine ⟨by omega, by omega, by omega, by omega, ?_, isPageBytes, isMemsz,
    ?_, by omega, by omega, notBelow⟩
  · rw [seg.lenfile_toNat, roundUp_small (by omega)]
  · rw [seg.lenmem_toNat, ← pageRoundUp_toNat32]

namespace AddsBlocks

variable {before middle after : VmState 32 Vnode}
  {space first second stop : Nat}

theorem none
    (same :
      (after.spaces space).area.usedList =
        (before.spaces space).area.usedList) :
    AddsBlocks before after space first first := by
  refine ⟨[], by rw [same]; exact List.Perm.refl _, ?_⟩
  intro address
  constructor
  · rintro ⟨block, member, -⟩
    cases member
  · rintro ⟨lower, upper⟩
    omega

theorem trans (earlier : AddsBlocks before middle space first second)
    (later : AddsBlocks middle after space second stop) (lower : first ≤ second)
    (upper : second ≤ stop) : AddsBlocks before after space first stop := by
  obtain ⟨some, isSome, covers⟩ := earlier
  obtain ⟨more, isMore, coversMore⟩ := later
  refine ⟨more ++ some, ?_, ?_⟩
  · rw [List.append_assoc]
    exact isMore.trans (isSome.append_left more)
  · intro address
    have here := covers address
    have there := coversMore address
    simp only [List.mem_append, or_and_right, exists_or, here, there]
    omega

theorem mapRegion {block : SmaBlock 32 VmMapping} {area : SmaArea 32 VmMapping}
    (flags : BitVec 16) (region : VmRegion 32 Vnode) :
    AddsBlocks before (Mm.mapRegion before space flags region block area)
      space block.start.toNat block.ends := by
  refine ⟨[{ block with
      dataptr :=
        some
          { flags := flags
            region := before.regions.next
            offset := 0 } }], ?_, ?_⟩
  · rw [area_mapRegion, if_pos rfl]
    exact smaListAdd_perm _ _
  · intro address
    simp [SmaBlock.Covers, SmaBlock.ends]

theorem eq_pages {seg : Elf32Phdr}
    (adds : AddsBlocks before after space first stop)
    (pages :
      ∃ added : List (SmaBlock 32 VmMapping),
        (after.spaces space).area.usedList.Perm
            (added ++ (before.spaces space).area.usedList) ∧
          ∀ address : Nat,
            (∃ block ∈ added, block.Covers address) ↔ seg.InPages address)
    (address : Nat) :
    seg.InPages address ↔ first ≤ address ∧ address < stop := by
  obtain ⟨some, isSome, covers⟩ := adds
  obtain ⟨other, isOther, coversPages⟩ := pages
  have same : some.Perm other :=
    (List.perm_append_right_iff _).mp (isSome.symm.trans isOther)
  rw [← covers, ← coversPages]
  constructor
  · rintro ⟨block, member, holds⟩
    exact ⟨block, same.mem_iff.mpr member, holds⟩
  · rintro ⟨block, member, holds⟩
    exact ⟨block, same.mem_iff.mp member, holds⟩

end AddsBlocks

theorem SegmentSizes.inPages_iff (sizes : SegmentSizes seg)
    (nonempty : seg.pMemsz ≠ 0) (address : Nat) :
    seg.InPages address ↔
      seg.addr.toNat ≤ address ∧
        address < seg.addr.toNat + seg.pageBytes.toNat := by
  obtain ⟨aligned, -, small, isVaddr, -, isPageBytes, -⟩ := sizes
  have positive : seg.pMemsz.toNat ≠ 0 := fun isZero =>
    nonempty (BitVec.eq_of_toNat_eq isZero)
  unfold Elf32Phdr.InPages
  simp only [PAGE_SIZE]
  constructor
  · rintro ⟨byte, lower, upper, samePage⟩
    omega
  · rintro ⟨lower, upper⟩
    -- the first byte of the segment in the page of the address
    by_cases first : seg.pVaddr.toNat ≤ address / 0x1000 * 0x1000
    · exact ⟨address / 0x1000 * 0x1000, first, by omega, by omega⟩
    · exact ⟨seg.pVaddr.toNat, Nat.le_refl _, by omega, by omega⟩

section Setting

variable {filedes : Int → Option (File Vnode)} {fd : Int} {vnode : Vnode}
  {content : List (BitVec 8)} {read : VnodeRead Vnode}
  {frames : BitVec 32 → Nat} {space : Nat} {seg : Elf32Phdr}
  {state : VmState 32 Vnode}

theorem LoadSetting.freeRange
    (setting : LoadSetting filedes fd vnode content read frames space seg state)
    (nonempty : seg.pMemsz ≠ 0) {length : BitVec 32}
    (short : length.toNat ≤ seg.pageBytes.toNat) :
    FreeRange (state.spaces space).area seg.addr length := by
  have sizes := setting.header.sizes
  have lower := sizes.addr_lower
  have upper := sizes.upper
  have isStart : (state.spaces space).area.start.toNat = 0x400000 := by
    rw [setting.ready.mapped.start]
    rfl
  have isSize : (state.spaces space).area.size.toNat =
      0xC0000000 - 0x400000 := by
    rw [setting.ready.mapped.size]
    rfl
  intro address first stop
  have isAddress : (BitVec.ofNat 32 address).toNat = address := by
    rw [BitVec.toNat_ofNat]
    omega
  refine ⟨?_, ?_⟩
  · rw [SmaArea.Covers, isStart, isSize]
    omega
  · have inPages := (sizes.inPages_iff nonempty address).mpr ⟨first, by omega⟩
    have unmapped := (setting.unmapped (BitVec.ofNat 32 address) (by
      rw [isAddress]
      exact inPages)).1
    rw [isAddress] at unmapped
    exact unmapped

/-- The byte `index` bytes behind `addr` once the file part is loaded. -/
def fileByte (seg : Elf32Phdr) (content : List (BitVec 8))
    (index : Nat) : BitVec 8 :=
  if index < seg.delta.toNat + seg.pFilesz.toNat then
    content[seg.off.toNat + index]?.getD 0
  else 0

/-- The page of the file `index` bytes behind `addr`. -/
def filePart (seg : Elf32Phdr) (content : List (BitVec 8))
    (index : Nat) : PageBytes :=
  filePage
    ((content.drop (seg.off.toNat + index / PAGE_SIZE * PAGE_SIZE)).take
      PAGE_SIZE)

variable {index : Nat}

theorem SegmentSizes.address_toNat (sizes : SegmentSizes seg)
    (inPages : index < seg.pageBytes.toNat) :
    (seg.addr + BitVec.ofNat 32 index).toNat = seg.addr.toNat + index := by
  have upper := sizes.upper
  have small : (BitVec.ofNat 32 index).toNat = index := by
    rw [BitVec.toNat_ofNat]
    omega
  rw [BitVec.toNat_add_of_lt (by omega), small]

theorem LoadSetting.lenfile_le
    (setting :
      LoadSetting filedes fd vnode content read frames space seg state) :
    seg.lenfile.toNat ≤ seg.pageBytes.toNat := by
  have sizes := setting.header.sizes
  have filesz := setting.header.filesz
  have isLenfile := sizes.lenfile
  have isPageBytes := sizes.pageBytes
  omega

theorem SegmentSizes.pageOffset_address (sizes : SegmentSizes seg)
    (inPages : index < seg.pageBytes.toNat) :
    pageOffset (seg.addr + BitVec.ofNat 32 index) = index % 0x1000 := by
  have aligned := sizes.addr_aligned
  rw [pageOffset, sizes.address_toNat inPages, PAGE_SIZE]
  omega

theorem filePart_byte (seg : Elf32Phdr) (content : List (BitVec 8))
    (index : Nat) :
    filePart seg content index (index % 0x1000) =
      content[seg.off.toNat + index]?.getD 0 := by
  have inside : index % 0x1000 < PAGE_SIZE := Nat.mod_lt _ (by decide)
  have position :
      seg.off.toNat + index / PAGE_SIZE * PAGE_SIZE + index % 0x1000 =
        seg.off.toNat + index := by
    simp only [PAGE_SIZE]
    omega
  rw [filePart, filePage, List.getElem?_take_of_lt inside,
    List.getElem?_drop, position]

theorem LoadSetting.fileMapped
    (setting : LoadSetting filedes fd vnode content read frames space seg state)
    (nonempty : seg.pMemsz ≠ 0) (hasFile : seg.lenfile ≠ 0) :
    ∃ block area,
      MapsRange userMemory32 state space
        { filedes := filedes, request := seg.fileRequest fd }
        (some { vnode := some vnode }) block area := by
  obtain ⟨lower, upper, isOpen⟩ := setting.isOpen
  refine setting.ready.mmap (Nat.le_refl _) (by decide) (by decide) ?_ ?_ ?_
    (setting.freeRange nonempty setting.lenfile_le)
  · show mmapFile filedes (seg.fileRequest fd) = _
    rw [Elf32Phdr.mmapFile_fileRequest hasFile, if_neg (by omega), isOpen]
  · exact if_pos (seg.fileRequest_fixed fd)
  · intro _ openFile isFile
    have isFile : filedes fd = some openFile := isFile
    rw [isOpen] at isFile
    rw [← Option.some.inj isFile]
    simp

/-- The block of the file part, with its mapping. -/
def fileBlock (seg : Elf32Phdr) (fd : Int) (state : VmState 32 Vnode)
    (block : SmaBlock 32 VmMapping) : SmaBlock 32 VmMapping :=
  { block with
    dataptr :=
      some
        { flags := (seg.fileRequest fd).flags
          region := state.regions.next
          offset := 0 } }

section FilePart

variable {block : SmaBlock 32 VmMapping} {area : SmaArea 32 VmMapping}

variable {index : Nat}

/-- The mapping holds every address of the file part. -/
theorem LoadSetting.held_file
    (setting : LoadSetting filedes fd vnode content read frames space seg state)
    (nonempty : seg.pMemsz ≠ 0)
    (maps :
      MapsRange userMemory32 state space
        { filedes := filedes, request := seg.fileRequest fd }
        (some { vnode := some vnode }) block area)
    (inFile : index < seg.lenfile.toNat) :
    Held
      (vmSpaceMmap state space
        { filedes := filedes, request := seg.fileRequest fd })
      space (fileBlock seg fd state block)
      { flags := (seg.fileRequest fd).flags
        region := state.regions.next
        offset := 0 }
      (mmapRegion (some { vnode := some vnode }) (seg.fileRequest fd) block)
      (seg.addr + BitVec.ofNat 32 index) := by
  have sizes := setting.header.sizes
  have lenfile := setting.lenfile_le
  have upper := sizes.upper
  have inPages : index < seg.pageBytes.toNat := by omega
  have isAddress := sizes.address_toNat inPages
  have start : block.start = seg.addr := maps.fixed.start
  have size : block.size = seg.lenfile := maps.fixed.size
  rw [maps.after]
  refine ⟨?_, uses_mapRegion.mpr (.inl ⟨rfl, rfl, rfl⟩), ?_, ?_⟩
  · have unmapped := (setting.unmapped
      (seg.addr + BitVec.ofNat 32 index) (by
        exact (sizes.inPages_iff nonempty _).mpr ⟨by omega, by omega⟩)).2
    exact (congrFun (VmState.setArea_pageTable ..) _).trans unmapped
  · refine (SmaBlock.hits_iff_covers ?_).mpr ⟨⟨?_, ?_⟩, ?_⟩
    · show block.start.toNat + block.size.toNat ≤ 2 ^ 32
      rw [start, size]
      omega
    · show block.start.toNat ≤ _
      rw [isAddress, start]
      omega
    · show _ < block.start.toNat + block.size.toNat
      rw [isAddress, start, size]
      omega
    · show block.start.toNat + block.size.toNat < 2 ^ 32
      rw [start, size]
      omega
  · rw [cells_mapRegion, if_pos rfl]

theorem LoadSetting.distance_file
    (setting : LoadSetting filedes fd vnode content read frames space seg state)
    (maps :
      MapsRange userMemory32 state space
        { filedes := filedes, request := seg.fileRequest fd }
        (some { vnode := some vnode }) block area)
    (inFile : index < seg.lenfile.toNat) :
    (seg.addr + BitVec.ofNat 32 index).toNat -
      (fileBlock seg fd state block).start.toNat = index := by
  have lenfile := setting.lenfile_le
  have isAddress := setting.header.sizes.address_toNat
    (Nat.lt_of_lt_of_le inFile lenfile)
  have start : block.start = seg.addr := maps.fixed.start
  show _ - block.start.toNat = _
  rw [isAddress, start]
  omega

/-- No page of the file part has been fetched after the mapping. -/
theorem LoadSetting.unfetched_file
    (setting : LoadSetting filedes fd vnode content read frames space seg state)
    (nonempty : seg.pMemsz ≠ 0)
    (maps :
      MapsRange userMemory32 state space
        { filedes := filedes, request := seg.fileRequest fd }
        (some { vnode := some vnode }) block area)
    (near : seg.lenfile.toNat ≤ 2 ^ 31) (inFile : index < seg.lenfile.toNat) :
    Unfetched
      (vmSpaceMmap state space
        { filedes := filedes, request := seg.fileRequest fd })
      space read (fileBlock seg fd state block)
      { flags := (seg.fileRequest fd).flags
        region := state.regions.next
        offset := 0 }
      (mmapRegion (some { vnode := some vnode }) (seg.fileRequest fd) block)
      (seg.addr + BitVec.ofNat 32 index)
      (filePart seg content index) := by
  have distance := setting.distance_file maps inFile
  have notAnonymous : (seg.fileRequest fd).flags &&& mapAnonymous = 0 := by
    unfold Elf32Phdr.fileRequest Elf32Phdr.prot
    dsimp only
    split <;> split <;> split <;> decide
  refine ⟨setting.held_file nonempty maps inFile, ?_, rfl, ?_⟩
  · omega
  · rw [distance]
    simp only [VmRegion.source, mmapRegion, notAnonymous, pageSource,
      ne_eq, not_true_eq_false, ↓reduceIte, Option.bind_some,
      Option.map_some]
    have delivers := setting.delivers
      (seg.off.toNat + index / PAGE_SIZE * PAGE_SIZE)
    have isOffset :
        ((seg.fileRequest fd).offset +
          ((index / PAGE_SIZE * PAGE_SIZE : Nat) : Int)) =
          ((seg.off.toNat + index / PAGE_SIZE * PAGE_SIZE : Nat) : Int) := by
      rfl
    rw [isOffset, delivers]
    rfl

end FilePart

/-- What stands between the file part and the anonymous part. -/
structure FilePlaced
    (seg : Elf32Phdr) (space : Nat)
    (state loaded : VmState 32 Vnode) : Prop where
  ready : SpaceReady userMemory32 loaded space
  adds : AddsBlocks state loaded space seg.addr.toNat
      (seg.addr.toNat + seg.lenfile.toNat)
  noPte : ∀ address : BitVec 32,
      seg.addr.toNat + seg.lenfile.toNat ≤ address.toNat →
      loaded.translate space address = state.translate space address

/-- What the file part and the `memset` behind it leave. -/
structure FileLoaded
    (seg : Elf32Phdr) (content : List (BitVec 8)) (read : VnodeRead Vnode)
    (space : Nat)
    (state loaded : VmState 32 Vnode) : Prop where
  placed : FilePlaced seg space state loaded
  shows : ∀ index, index < seg.lenfile.toNat →
      Shows loaded space read (seg.addr + BitVec.ofNat 32 index)
        (fileByte seg content index)

variable {block : SmaBlock 32 VmMapping} {area : SmaArea 32 VmMapping}

theorem MapsRange.adds {call : MmapCall 32 Vnode} {file : Option (File Vnode)}
    (maps : MapsRange userMemory32 state space call file block area) :
    AddsBlocks state (vmSpaceMmap state space call) space
      call.request.start.toNat
      (call.request.start.toNat + call.request.length.toNat) := by
  have adds := @AddsBlocks.mapRegion _ state space block area
    call.request.flags (mmapRegion file call.request block)
  rw [maps.after, ← maps.fixed.start, ← maps.fixed.size]
  exact adds

theorem MapsRange.placed {file : Option (File Vnode)}
    (maps :
      MapsRange userMemory32 state space
        { filedes := filedes, request := seg.fileRequest fd } file block
        area) :
    FilePlaced seg space state
      (vmSpaceMmap state space
        { filedes := filedes, request := seg.fileRequest fd }) := by
  refine ⟨maps.ready, MapsRange.adds maps, ?_⟩
  intro address _
  exact congrFun (VmState.setArea_pageTable ..) _

theorem LoadSetting.file_full
    (setting : LoadSetting filedes fd vnode content read frames space seg state)
    (nonempty : seg.pMemsz ≠ 0) (hasFile : seg.lenfile ≠ 0)
    (near : seg.lenfile.toNat ≤ 2 ^ 31)
    (full : seg.lenfile.toNat = seg.delta.toNat + seg.pFilesz.toNat) :
    FileLoaded seg content read space state
      (vmSpaceMmap state space
        { filedes := filedes, request := seg.fileRequest fd }) := by
  have sizes := setting.header.sizes
  have lenfile := setting.lenfile_le
  obtain ⟨block, area, maps⟩ := setting.fileMapped nonempty hasFile
  refine ⟨MapsRange.placed maps, ?_⟩
  intro index inFile
  refine .unfetched (setting.unfetched_file nonempty maps near inFile) ?_
  rw [sizes.pageOffset_address (by omega), filePart_byte, fileByte,
    if_pos (by omega)]

theorem Elf32Phdr.FilePages.zeroStart_eq (pages : seg.FilePages) :
    seg.zeroStart =
      seg.addr + BitVec.ofNat 32 (seg.delta.toNat + seg.pFilesz.toNat) := by
  have start := pages.start
  apply BitVec.eq_of_toNat_eq
  rw [start, BitVec.toNat_add, BitVec.toNat_ofNat]
  omega

/-- A file part whose last page ends in cleared bytes. -/
theorem LoadSetting.file_cleared
    (setting : LoadSetting filedes fd vnode content read frames space seg state)
    (nonempty : seg.pMemsz ≠ 0) (more : seg.pFilesz < seg.lenfile)
    (near : seg.lenfile.toNat ≤ 2 ^ 31) (clears : seg.zeroLength ≠ 0) :
    ∃ loaded,
      clearBytes space read frames seg.zeroStart
          (vmSpaceMmap state space
            { filedes := filedes, request := seg.fileRequest fd })
          seg.zeroLength.toNat = (loaded, .returns (.ok ())) ∧
        FileLoaded seg content read space state loaded := by
  have sizes := setting.header.sizes
  have lenfile := setting.lenfile_le
  have pages := Elf32Phdr.filePages more
  have length := pages.length
  have tight := pages.tight
  have aligned := sizes.addr_aligned
  have lenfileAligned := pages.lenfile_aligned
  have positive : seg.zeroLength.toNat ≠ 0 := fun isZero =>
    clears (BitVec.eq_of_toNat_eq isZero)
  have hasFile : seg.lenfile ≠ 0 := by
    intro isZero
    have isZero : seg.lenfile.toNat = 0 := congrArg BitVec.toNat isZero
    omega
  obtain ⟨block, area, maps⟩ := setting.fileMapped nonempty hasFile
  have isStart := pages.zeroStart_eq
  generalize isFileEnd : seg.delta.toNat + seg.pFilesz.toNat = fileEnd
    at isStart length tight
  have inFile : fileEnd < seg.lenfile.toNat := by omega
  have startNat : seg.zeroStart.toNat = seg.addr.toNat + fileEnd := by
    rw [isStart, sizes.address_toNat (by omega)]
  have unfetched := setting.unfetched_file nonempty maps near inFile
  rw [← isStart] at unfetched
  -- The bytes to clear lie in the last page of the file part.
  have inPage : InOnePage seg.zeroStart seg.zeroLength.toNat := by
    have isAddress (index : Nat) (inRange : index < seg.zeroLength.toNat) :
        (seg.zeroStart + BitVec.ofNat 32 index).toNat =
          seg.addr.toNat + fileEnd + index := by
      have upper := sizes.upper
      have small : (BitVec.ofNat 32 index).toNat = index := by
        rw [BitVec.toNat_ofNat]
        omega
      rw [BitVec.toNat_add_of_lt (by omega), small, startNat]
    constructor
    · intro index inRange
      apply BitVec.eq_of_toNat_eq
      rw [pageRoundDown_toNat (Nat.le_refl _),
        pageRoundDown_toNat (Nat.le_refl _), isAddress index inRange,
        startNat, PAGE_SIZE]
      omega
    · intro index inRange
      rw [pageOffset, pageOffset, isAddress index inRange, startNat, PAGE_SIZE]
      omega
  have writable : VmMapping.has
        { flags := (seg.fileRequest fd).flags
          region := state.regions.next
          offset := 0 } protWrite = true := by
    unfold VmMapping.has Elf32Phdr.fileRequest Elf32Phdr.prot
    dsimp only
    split <;> split <;> split <;> decide
  have unused :
      (vmSpaceMmap state space
        { filedes := filedes, request := seg.fileRequest fd }).pages
          (frames seg.zeroStart) = none := by
    exact setting.unused seg.zeroStart
  obtain ⟨count, isCount⟩ : ∃ count, seg.zeroLength.toNat = count + 1 :=
    ⟨seg.zeroLength.toNat - 1, by omega⟩
  obtain ⟨loaded, isLoaded, cleared⟩ :=
    @Unfetched.clearBytes _ _ space read frames _ _ _ _ _ unfetched
      maps.ready.sound writable _ inPage count (by omega)
  rw [← isCount] at isLoaded cleared
  have sameAreas : (loaded.spaces space).area =
        ((vmSpaceMmap state space
          { filedes := filedes
            request := seg.fileRequest fd }).spaces space).area := by
    rw [cleared.spaces]
    simp [fetchedPage]
  refine ⟨loaded, isLoaded, ⟨⟨?_, ?_, ?_⟩, ?_, ?_⟩, ?_⟩
  · exact cleared.sound (unfetched.sound_fetchedPage maps.ready.sound unused)
  · rw [sameAreas]
    exact maps.ready.mapped
  · rw [sameAreas]
    exact maps.ready.aligned
  · obtain ⟨added, isAdded, covers⟩ := MapsRange.adds maps
    exact ⟨added, by rw [sameAreas]; exact isAdded, covers⟩
  · intro address behind
    have otherPage : pageRoundDown address ≠ pageRoundDown seg.zeroStart := by
      intro same
      have sameNat := congrArg BitVec.toNat same
      rw [pageRoundDown_toNat (Nat.le_refl _),
        pageRoundDown_toNat (Nat.le_refl _), startNat, PAGE_SIZE] at sameNat
      omega
    rw [VmState.translate, cleared.spaces]
    refine ((Unfetched.translate_fetchedPage _ address).trans
      (if_neg otherPage)).trans ?_
    exact congrFun (VmState.setArea_pageTable ..) _
  · intro index inFile
    have isAddress := sizes.address_toNat (Nat.lt_of_lt_of_le inFile lenfile)
    have isOffset := sizes.pageOffset_address
      (Nat.lt_of_lt_of_le inFile lenfile)
    have startOffset : pageOffset seg.zeroStart = fileEnd % 0x1000 := by
      rw [pageOffset, startNat, PAGE_SIZE]
      omega
    have here := setting.unfetched_file nonempty maps near inFile
    by_cases samePage : pageRoundDown (seg.addr + BitVec.ofNat 32 index) =
          pageRoundDown seg.zeroStart
    · have samePageNat := congrArg BitVec.toNat samePage
      rw [pageRoundDown_toNat (Nat.le_refl _),
        pageRoundDown_toNat (Nat.le_refl _), isAddress, startNat,
        PAGE_SIZE] at samePageNat
      have shown := @ClearedPage.shows _ _ space read _ _ _ _ _ _ _ _
        cleared samePage
      have isByte :
          (if pageOffset seg.zeroStart ≤
                pageOffset (seg.addr + BitVec.ofNat 32 index) ∧
              pageOffset (seg.addr + BitVec.ofNat 32 index) <
                pageOffset seg.zeroStart + seg.zeroLength.toNat then 0
            else filePart seg content fileEnd
              (pageOffset (seg.addr + BitVec.ofNat 32 index))) =
            fileByte seg content index := by
        rw [startOffset, isOffset, fileByte, isFileEnd]
        by_cases inside : index < fileEnd
        · have samePart : filePart seg content fileEnd =
              filePart seg content index := by
            have sameIndex : fileEnd / PAGE_SIZE = index / PAGE_SIZE := by
              simp only [PAGE_SIZE]
              omega
            rw [filePart, filePart, sameIndex]
          rw [if_neg (by omega), if_pos inside, samePart, filePart_byte]
        · rw [if_pos (by omega), if_neg inside]
      rw [← isByte]
      exact shown
    · have otherPage : index / 0x1000 ≠ fileEnd / 0x1000 := by
        intro same
        apply samePage
        apply BitVec.eq_of_toNat_eq
        rw [pageRoundDown_toNat (Nat.le_refl _),
          pageRoundDown_toNat (Nat.le_refl _), isAddress, startNat,
          PAGE_SIZE]
        omega
      have shown := ClearedPage.shows_elsewhere maps.ready.sound unfetched
        here cleared samePage
      rw [isOffset, filePart_byte] at shown
      rw [fileByte, if_pos (by omega)]
      exact shown

/-- The space after the second mapping, if there is one. -/
def anonMapped (filedes : Int → Option (File Vnode))
    (space : Nat) (seg : Elf32Phdr)
    (loaded : VmState 32 Vnode) : VmState 32 Vnode :=
  if 0 < seg.lenmem then
    vmSpaceMmap loaded space { filedes := filedes, request := seg.anonRequest }
  else loaded

theorem FilePlaced.used {loaded : VmState 32 Vnode}
    (placed : FilePlaced seg space state loaded) {address : Nat} :
    (∃ block ∈ (loaded.spaces space).area.usedList, block.Covers address) ↔
      (seg.addr.toNat ≤ address ∧
          address < seg.addr.toNat + seg.lenfile.toNat) ∨
        ∃ block ∈ (state.spaces space).area.usedList, block.Covers address := by
  obtain ⟨added, isAdded, covers⟩ := placed.adds
  rw [← covers address]
  constructor
  · rintro ⟨block, member, holds⟩
    rcases List.mem_append.mp (isAdded.mem_iff.mp member) with new | old
    · exact .inl ⟨block, new, holds⟩
    · exact .inr ⟨block, old, holds⟩
  · rintro (⟨block, new, holds⟩ | ⟨block, old, holds⟩)
    · exact ⟨block, isAdded.mem_iff.mpr (List.mem_append_left _ new), holds⟩
    · exact ⟨block, isAdded.mem_iff.mpr (List.mem_append_right _ old), holds⟩

variable {loaded : VmState 32 Vnode}

section

variable (placed : FilePlaced seg space state loaded)

include placed

theorem FilePlaced.free_iff
    (mapped : Mapped userMemory32 (state.spaces space).area) {address : Nat}
    (behind : seg.addr.toNat + seg.lenfile.toNat ≤ address) :
    (∃ block ∈ (loaded.spaces space).area.freeList, block.Covers address) ↔
      ∃ block ∈ (state.spaces space).area.freeList, block.Covers address := by
  have sameArea : (loaded.spaces space).area.Covers address ↔
        (state.spaces space).area.Covers address := by
    rw [SmaArea.Covers, SmaArea.Covers, placed.ready.mapped.start,
      placed.ready.mapped.size, mapped.start, mapped.size]
  have isUsed := @FilePlaced.used _ space seg state loaded placed address
  rw [placed.ready.mapped.free_iff, mapped.free_iff, sameArea, isUsed]
  refine and_congr Iff.rfl (not_congr ?_)
  constructor
  · rintro (⟨-, inFile⟩ | old)
    · omega
    · exact old
  · exact .inr

theorem FilePlaced.anonFree
    (setting : LoadSetting filedes fd vnode content read frames space seg state)
    (nonempty : seg.pMemsz ≠ 0)
    (fits : seg.lenfile.toNat + seg.lenmem.toNat ≤ seg.pageBytes.toNat) :
    FreeRange (loaded.spaces space).area (seg.addr + seg.lenfile)
      seg.lenmem := by
  have sizes := setting.header.sizes
  have upper := sizes.upper
  have isStart : (seg.addr + seg.lenfile).toNat =
      seg.addr.toNat + seg.lenfile.toNat :=
    BitVec.toNat_add_of_lt (by omega)
  have wholeRange := setting.freeRange nonempty (Nat.le_refl _)
  intro address first stop
  obtain ⟨inArea, unused⟩ := wholeRange address (by omega) (by omega)
  rw [SmaArea.Covers, setting.ready.mapped.start,
    setting.ready.mapped.size] at inArea
  refine ⟨?_, ?_⟩
  · rw [SmaArea.Covers, placed.ready.mapped.start, placed.ready.mapped.size]
    exact inArea
  · intro block member covers
    have isUsed := @FilePlaced.used _ space seg state loaded placed address
    rcases isUsed.mp ⟨block, member, covers⟩ with
      ⟨-, inFile⟩ | ⟨other, old, otherCovers⟩
    · omega
    · exact unused other old otherCovers

theorem FilePlaced.anonMaps
    (setting : LoadSetting filedes fd vnode content read frames space seg state)
    (nonempty : seg.pMemsz ≠ 0) (hasAnon : seg.lenmem ≠ 0)
    (fits : seg.lenfile.toNat + seg.lenmem.toNat ≤ seg.pageBytes.toNat) :
    ∃ block area,
      MapsRange userMemory32 loaded space
        { filedes := filedes, request := seg.anonRequest } none block
        area := by
  refine placed.ready.mmap (Nat.le_refl _) (by decide) (by decide)
    (Elf32Phdr.mmapFile_anonRequest hasAnon filedes)
    (if_pos seg.anonRequest_fixed) ?_
    (placed.anonFree setting nonempty fits)
  intro notAnonymous
  refine absurd ?_ notAnonymous
  unfold Elf32Phdr.anonRequest Elf32Phdr.prot
  dsimp only
  split <;> split <;> split <;> decide

/-- Where the anonymous part wraps around, a free block behind decides. -/
theorem FilePlaced.refused_iff
    (setting : LoadSetting filedes fd vnode content read frames space seg state)
    (wraps : seg.lenmem.toNat = 2 ^ 32 - 0x1000) :
    smaAlloc (loaded.spaces space).area (seg.addr + seg.lenfile) seg.lenmem
        smaAllocFixed = none ↔
      ∀ block ∈ (state.spaces space).area.freeList,
        ¬ block.Covers (seg.addr + seg.lenfile).toNat := by
  have sizes := setting.header.sizes
  have upper := sizes.upper
  have lower := sizes.addr_lower
  have lenfile := setting.lenfile_le
  have isStart : (seg.addr + seg.lenfile).toNat =
      seg.addr.toNat + seg.lenfile.toNat :=
    BitVec.toNat_add_of_lt (by omega)
  have isStop : (seg.addr + seg.lenfile + seg.lenmem).toNat =
      seg.addr.toNat + seg.lenfile.toNat - 0x1000 := by
    rw [BitVec.toNat_add, isStart]
    omega
  have free := placed.free_iff setting.ready.mapped (Nat.le_of_eq isStart.symm)
  have ends_lt {piece : SmaBlock 32 VmMapping}
      (member : piece ∈ (loaded.spaces space).area.freeList) :
      piece.ends < 2 ^ 32 := by
    have mapped := placed.ready.mapped
    have anyMember :=
      List.mem_append_right (loaded.spaces space).area.usedList member
    have within := mapped.sound.within anyMember fun empty =>
      mapped.areaNonempty (mapped.sound.nonempty piece anyMember empty)
    have isAreaStart : (loaded.spaces space).area.start.toNat = 0x400000 := by
      rw [mapped.start]
      rfl
    have isAreaSize : (loaded.spaces space).area.size.toNat =
        0xC0000000 - 0x400000 := by
      rw [mapped.size]
      rfl
    omega
  constructor
  · intro refused block member covers
    obtain ⟨piece, isFree, pieceCovers⟩ := free.mpr ⟨block, member, covers⟩
    have pieceEnds := ends_lt isFree
    obtain ⟨found, isFirst⟩ : ∃ found,
          firstFound (fun other => other.hits (seg.addr + seg.lenfile))
            (loaded.spaces space).area.freeList = some found := by
      rw [← Option.isSome_iff_exists, Option.isSome_iff_ne_none]
      intro nothing
      have misses := firstFound_eq_none_iff.mp nothing piece isFree
      rw [(SmaBlock.hits_iff_covers (Nat.le_of_lt pieceEnds)).mpr
        ⟨pieceCovers, pieceEnds⟩] at misses
      cases misses
    have foundEnds := ends_lt (firstFound_mem isFirst)
    have foundCovers := ((SmaBlock.hits_iff_covers (Nat.le_of_lt foundEnds)).mp
      (firstFound_some isFirst).2.1).1
    have notZero : seg.addr + seg.lenfile ≠ 0 := by
      intro isZero
      rw [isZero] at isStart
      have isStart : 0 = seg.addr.toNat + seg.lenfile.toNat := isStart
      omega
    have reaches : ¬ found.item.stop < seg.addr + seg.lenfile + seg.lenmem := by
      rw [BitVec.lt_def, SmaBlock.stop_toNat foundEnds, isStop]
      have stops := foundCovers.2
      omega
    have isFound : smaFind (loaded.spaces space).area
        (seg.addr + seg.lenfile) seg.lenmem smaAllocFixed = some found := by
      rw [smaFind, smaHinted, if_neg notZero, isFirst]
      simp [reaches]
    rw [smaAlloc, isFound] at refused
    cases refused
  · intro nothing
    cases isFound : smaFind (loaded.spaces space).area
        (seg.addr + seg.lenfile) seg.lenmem smaAllocFixed with
    | none =>
      rw [smaAlloc, isFound]
      rfl
    | some found =>
      have noFirstFit : smaFirstFit (loaded.spaces space).area seg.lenmem
            smaAllocFixed = none := by
        simp [smaFirstFit, smaAllocFixed]
      rw [smaFind, noFirstFit, Option.or_none] at isFound
      have isFirst := (smaHinted_some isFound).2.1
      have foundEnds := ends_lt (firstFound_mem isFirst)
      have covers := ((SmaBlock.hits_iff_covers (Nat.le_of_lt foundEnds)).mp
        (firstFound_some isFirst).2.1).1
      obtain ⟨block, member, blockCovers⟩ :=
        free.mp ⟨found.item, firstFound_mem isFirst, covers⟩
      exact absurd blockCovers (nothing block member)

end

/-- The pages that are mapped end with the segment. -/
def EndsRight (seg : Elf32Phdr) (area : SmaArea 32 VmMapping) : Prop :=
  pageRoundUp seg.pMemsz = seg.pageBytes ∨
    seg.lenfile = seg.pageBytes ∧
      ∀ block ∈ area.freeList, ¬ block.Covers (seg.addr + seg.lenfile).toNat

/-- What the second mapping leaves when the pages end with the segment. -/
inductive AnonPlaced
    (filedes : Int → Option (File Vnode))
    (space : Nat) (seg : Elf32Phdr)
    (loaded : VmState 32 Vnode) : Prop where
  | nothing (same : anonMapped filedes space seg loaded = loaded)
      (whole : seg.lenfile.toNat = seg.pageBytes.toNat)
  | maps {block : SmaBlock 32 VmMapping} {area : SmaArea 32 VmMapping}
      (isMapped :
        anonMapped filedes space seg loaded =
          vmSpaceMmap loaded space
            { filedes := filedes, request := seg.anonRequest })
      (maps :
        MapsRange userMemory32 loaded space
          { filedes := filedes, request := seg.anonRequest } none block
          area)
      (whole : seg.lenfile.toNat + seg.lenmem.toNat = seg.pageBytes.toNat)

/-- What both mappings cover, and when it is the pages of the segment. -/
theorem FilePlaced.anon (placed : FilePlaced seg space state loaded)
    (setting : LoadSetting filedes fd vnode content read frames space seg state)
    (nonempty : seg.pMemsz ≠ 0) :
    ∃ total,
      AddsBlocks state (anonMapped filedes space seg loaded) space
          seg.addr.toNat (seg.addr.toNat + total) ∧
        (total = seg.pageBytes.toNat ↔
          EndsRight seg (state.spaces space).area) ∧
        (total = seg.pageBytes.toNat →
          AnonPlaced filedes space seg loaded) := by
  have sizes := setting.header.sizes
  have upper := sizes.upper
  have lenfile := setting.lenfile_le
  have isMemsz := sizes.memsz
  have isPageBytes := sizes.pageBytes
  have isLenmem := sizes.lenmem
  have small := sizes.delta_small
  have isLenfile := sizes.lenfile
  have isStart : (seg.addr + seg.lenfile).toNat =
      seg.addr.toNat + seg.lenfile.toNat :=
    BitVec.toNat_add_of_lt (by omega)
  have sameEnd : pageRoundUp seg.pMemsz = seg.pageBytes ↔
        (pageRoundUp seg.pMemsz).toNat = seg.pageBytes.toNat :=
    ⟨congrArg BitVec.toNat, BitVec.eq_of_toNat_eq⟩
  have sameFile :
      seg.lenfile = seg.pageBytes ↔ seg.lenfile.toNat = seg.pageBytes.toNat :=
    ⟨congrArg BitVec.toNat, BitVec.eq_of_toNat_eq⟩
  by_cases wraps : (pageRoundUp seg.pMemsz).toNat < seg.lenfile.toNat
  · -- The file part alone reaches the last page.
    have whole : seg.lenfile.toNat = seg.pageBytes.toNat := by omega
    have large : seg.lenmem.toNat = 2 ^ 32 - 0x1000 := by omega
    have hasAnon : 0 < seg.lenmem := by
      show (0 : Nat) < seg.lenmem.toNat
      omega
    have refused := placed.refused_iff setting large
    have differs : ¬ pageRoundUp seg.pMemsz = seg.pageBytes := by
      rw [sameEnd]
      omega
    have ends : EndsRight seg (state.spaces space).area ↔
        ∀ block ∈ (state.spaces space).area.freeList,
          ¬ block.Covers (seg.addr + seg.lenfile).toNat := by
      rw [EndsRight, or_iff_right differs, sameFile]
      exact and_iff_right whole
    rw [ends, ← refused]
    have isFixed : mmapAllocFlags seg.anonRequest = smaAllocFixed :=
      if_pos seg.anonRequest_fixed
    cases allocated :
        smaAlloc (loaded.spaces space).area (seg.addr + seg.lenfile)
          seg.lenmem smaAllocFixed with
    | none =>
      have same : anonMapped filedes space seg loaded = loaded := by
        rw [anonMapped, if_pos hasAnon]
        exact vmSpaceMmap_of_refused (by rw [isFixed]; exact allocated)
      refine ⟨seg.lenfile.toNat, ?_, ?_, ?_⟩
      · rw [same]
        exact placed.adds
      · simp [whole]
      · exact fun _ => .nothing same whole
    | some pair =>
      obtain ⟨block, area⟩ := pair
      have fixed := smaAlloc_fixed allocated
      have isMapped : anonMapped filedes space seg loaded =
            Mm.mapRegion loaded space seg.anonRequest.flags
              (mmapRegion none seg.anonRequest block) block area := by
        rw [anonMapped, if_pos hasAnon]
        refine vmSpaceMmap_of_alloc ?_ (by rw [isFixed]; exact allocated)
        refine Elf32Phdr.mmapFile_anonRequest ?_ filedes
        intro isZero
        rw [isZero] at hasAnon
        exact absurd hasAnon (by decide)
      have adds := @AddsBlocks.mapRegion _ loaded space block area
        seg.anonRequest.flags (mmapRegion none seg.anonRequest block)
      rw [← isMapped, SmaBlock.ends, fixed.start, fixed.size, isStart] at adds
      refine ⟨seg.lenfile.toNat + seg.lenmem.toNat, ?_, ?_, ?_⟩
      · rw [← Nat.add_assoc]
        exact placed.adds.trans adds (by omega) (by omega)
      · constructor
        · intro isWhole
          omega
        · intro isNone
          cases isNone
      · intro isWhole
        omega
  · have reaches : seg.lenfile.toNat + seg.lenmem.toNat =
          (pageRoundUp seg.pMemsz).toNat := by omega
    have ends : EndsRight seg (state.spaces space).area ↔
        (pageRoundUp seg.pMemsz).toNat = seg.pageBytes.toNat := by
      rw [EndsRight, sameEnd, sameFile]
      constructor
      · rintro (same | ⟨whole, -⟩)
        · exact same
        · omega
      · exact .inl
    rw [ends, ← reaches]
    refine ⟨seg.lenfile.toNat + seg.lenmem.toNat, ?_, Iff.rfl, ?_⟩
    · by_cases hasAnon : 0 < seg.lenmem
      · have notZero : seg.lenmem ≠ 0 := by
          intro isZero
          rw [isZero] at hasAnon
          exact absurd hasAnon (by decide)
        obtain ⟨block, area, maps⟩ :=
          placed.anonMaps setting nonempty notZero (by omega)
        have adds := MapsRange.adds maps
        rw [anonMapped, if_pos hasAnon, ← Nat.add_assoc]
        refine placed.adds.trans ?_ (by omega) (by omega)
        rw [← isStart]
        exact adds
      · have isZero : seg.lenmem.toNat = 0 := by
          have hasAnon : ¬ (0 : Nat) < seg.lenmem.toNat := hasAnon
          omega
        rw [anonMapped, if_neg hasAnon, isZero, Nat.add_zero]
        exact placed.adds
    · intro whole
      by_cases hasAnon : 0 < seg.lenmem
      · have notZero : seg.lenmem ≠ 0 := by
          intro isZero
          rw [isZero] at hasAnon
          exact absurd hasAnon (by decide)
        obtain ⟨block, area, maps⟩ :=
          placed.anonMaps setting nonempty notZero (by omega)
        exact .maps (by rw [anonMapped, if_pos hasAnon]) maps whole
      · have isZero : seg.lenmem.toNat = 0 := by
          have hasAnon : ¬ (0 : Nat) < seg.lenmem.toNat := hasAnon
          omega
        exact .nothing (by rw [anonMapped, if_neg hasAnon]) (by omega)

theorem FilePlaced.held_anon {loaded : VmState 32 Vnode}
    (placed : FilePlaced seg space state loaded)
    (setting : LoadSetting filedes fd vnode content read frames space seg state)
    (nonempty : seg.pMemsz ≠ 0)
    {block : SmaBlock 32 VmMapping} {area : SmaArea 32 VmMapping}
    (maps :
      MapsRange userMemory32 loaded space
        { filedes := filedes, request := seg.anonRequest } none block area)
    (whole : seg.lenfile.toNat + seg.lenmem.toNat = seg.pageBytes.toNat)
    {index : Nat} (behind : seg.lenfile.toNat ≤ index)
    (inPages : index < seg.pageBytes.toNat) :
    Held
        (vmSpaceMmap loaded space
          { filedes := filedes, request := seg.anonRequest })
        space
        { block with
          dataptr :=
            some
              { flags := seg.anonRequest.flags
                region := loaded.regions.next
                offset := 0 } }
        { flags := seg.anonRequest.flags
          region := loaded.regions.next
          offset := 0 }
        (mmapRegion none seg.anonRequest block)
        (seg.addr + BitVec.ofNat 32 index) ∧
      (seg.addr + BitVec.ofNat 32 index).toNat - block.start.toNat =
        index - seg.lenfile.toNat := by
  have sizes := setting.header.sizes
  have upper := sizes.upper
  have isAddress := sizes.address_toNat inPages
  have start : block.start.toNat = seg.addr.toNat + seg.lenfile.toNat := by
    rw [maps.fixed.start]
    exact BitVec.toNat_add_of_lt (by omega)
  have size : block.size = seg.lenmem := maps.fixed.size
  have distance : (seg.addr + BitVec.ofNat 32 index).toNat - block.start.toNat =
        index - seg.lenfile.toNat := by
    omega
  refine ⟨?_, distance⟩
  rw [maps.after]
  refine ⟨?_, uses_mapRegion.mpr (.inl ⟨rfl, rfl, rfl⟩), ?_, ?_⟩
  · have unmapped := (setting.unmapped
      (seg.addr + BitVec.ofNat 32 index) (by
        exact (sizes.inPages_iff nonempty _).mpr ⟨by omega, by omega⟩)).2
    have before := placed.noPte (seg.addr + BitVec.ofNat 32 index) (by omega)
    exact ((congrFun (VmState.setArea_pageTable ..) _).trans
      before).trans unmapped
  · refine (SmaBlock.hits_iff_covers ?_).mpr ⟨⟨?_, ?_⟩, ?_⟩
    · show block.start.toNat + block.size.toNat ≤ 2 ^ 32
      rw [start, size]
      omega
    · show block.start.toNat ≤ _
      omega
    · show _ < block.start.toNat + block.size.toNat
      rw [isAddress, start, size]
      omega
    · show block.start.toNat + block.size.toNat < 2 ^ 32
      rw [start, size]
      omega
  · rw [cells_mapRegion, if_pos rfl]

theorem FilePlaced.shows_anon (placed : FilePlaced seg space state loaded)
    (setting : LoadSetting filedes fd vnode content read frames space seg state)
    (nonempty : seg.pMemsz ≠ 0)
    (maps :
      MapsRange userMemory32 loaded space
        { filedes := filedes, request := seg.anonRequest } none block area)
    (whole : seg.lenfile.toNat + seg.lenmem.toNat = seg.pageBytes.toNat)
    (near : seg.lenmem.toNat ≤ 2 ^ 31) (behind : seg.lenfile.toNat ≤ index)
    (inPages : index < seg.pageBytes.toNat) :
    Shows
      (vmSpaceMmap loaded space
        { filedes := filedes, request := seg.anonRequest })
      space read (seg.addr + BitVec.ofNat 32 index) 0 := by
  obtain ⟨held, distance⟩ :=
    placed.held_anon setting nonempty maps whole behind inPages
  have anonymous : seg.anonRequest.flags &&& mapAnonymous ≠ 0 := by
    unfold Elf32Phdr.anonRequest Elf32Phdr.prot
    dsimp only
    split <;> split <;> split <;> decide
  refine @Shows.unfetched _ _ _ _ _ _ _ _ _ zeroPage ⟨held, ?_, rfl, ?_⟩ rfl
  · show (seg.addr + BitVec.ofNat 32 index).toNat - block.start.toNat < 2 ^ 31
    omega
  · simp only [VmRegion.source, mmapRegion, if_pos anonymous, pageSource]

theorem elf32PhLoad_of_zeroed (nonempty : seg.pMemsz ≠ 0)
    (offset : ¬ seg.pOffset < seg.delta) {filed loaded : VmState 32 Vnode}
    (isFiled :
      (if 0 < seg.lenfile then
        vmSpaceMmap state space
          { filedes := filedes, request := seg.fileRequest fd }
      else state) = filed)
    (isLoaded :
      (if seg.pFilesz < seg.lenfile then
        clearBytes space read frames seg.zeroStart filed seg.zeroLength.toNat
      else (filed, .returns (.ok ()))) = (loaded, .returns (.ok ()))) :
    elf32PhLoad (paging filedes space read frames) fd seg state =
      (anonMapped filedes space seg loaded, .returns (.ok ())) := by
  simp only [elf32PhLoad, if_neg nonempty, if_neg offset, paging, isFiled,
    isLoaded, anonMapped]
  split <;> rfl

/-- The file part is loaded below two gigabytes. -/
theorem LoadSetting.loads_near
    (setting : LoadSetting filedes fd vnode content read frames space seg state)
    (nonempty : seg.pMemsz ≠ 0) (near : seg.lenfile.toNat ≤ 2 ^ 31) :
    ∃ loaded,
      FileLoaded seg content read space state loaded ∧
        elf32PhLoad (paging filedes space read frames) fd seg state =
          (anonMapped filedes space seg loaded, .returns (.ok ())) := by
  have sizes := setting.header.sizes
  have isLenfile := sizes.lenfile
  by_cases hasFile : 0 < seg.lenfile
  · have notZero : seg.lenfile ≠ 0 := by
      intro isZero
      rw [isZero] at hasFile
      exact absurd hasFile (by decide)
    by_cases more : seg.pFilesz < seg.lenfile
    · by_cases clears : seg.zeroLength = 0
      · have pages := Elf32Phdr.filePages more
        have length := pages.length
        rw [clears] at length
        have length : 0 = seg.lenfile.toNat -
            (seg.delta.toNat + seg.pFilesz.toNat) := length
        refine ⟨_, setting.file_full nonempty notZero near (by omega), ?_⟩
        refine elf32PhLoad_of_zeroed nonempty sizes.offset (if_pos hasFile) ?_
        rw [if_pos more, clears]
        rfl
      · obtain ⟨loaded, isLoaded, fileLoaded⟩ :=
          setting.file_cleared nonempty more near clears
        refine ⟨loaded, fileLoaded, ?_⟩
        refine elf32PhLoad_of_zeroed nonempty sizes.offset (if_pos hasFile) ?_
        rw [if_pos more]
        exact isLoaded
    · have notMore : ¬ seg.pFilesz.toNat < seg.lenfile.toNat := more
      refine ⟨_, setting.file_full nonempty notZero near (by omega), ?_⟩
      exact elf32PhLoad_of_zeroed nonempty sizes.offset (if_pos hasFile)
        (if_neg more)
  · have isZero : seg.lenfile.toNat = 0 := by
      have hasFile : ¬ (0 : Nat) < seg.lenfile.toNat := hasFile
      omega
    have more : ¬ seg.pFilesz < seg.lenfile := by
      rw [BitVec.lt_def]
      omega
    refine ⟨state, ⟨⟨setting.ready, ?_, fun _ _ => rfl⟩, ?_⟩, ?_⟩
    · rw [isZero, Nat.add_zero]
      exact .none rfl
    · intro index inFile
      omega
    · exact elf32PhLoad_of_zeroed nonempty sizes.offset (if_neg hasFile)
        (if_neg more)

theorem SegmentSizes.vaddr_add (sizes : SegmentSizes seg) (index : Nat) :
    seg.pVaddr + BitVec.ofNat 32 index =
      seg.addr + BitVec.ofNat 32 (seg.delta.toNat + index) := by
  have isVaddr := sizes.vaddr
  apply BitVec.eq_of_toNat_eq
  rw [BitVec.toNat_add, BitVec.toNat_add, BitVec.toNat_ofNat,
    BitVec.toNat_ofNat, isVaddr]
  omega

variable
  (setting : LoadSetting filedes fd vnode content read frames space seg state)
  (nonempty : seg.pMemsz ≠ 0)

include setting nonempty

/-- Two parts that end right and below two gigabytes are the segment. -/
theorem LoadSetting.segmentLoaded
    (fileLoaded : FileLoaded seg content read space state loaded)
    (ends : EndsRight seg (state.spaces space).area)
    (near :
      seg.lenfile.toNat + seg.lenmem.toNat = seg.pageBytes.toNat →
        seg.lenmem.toNat ≤ 2 ^ 31) :
    SegmentLoaded seg content read space state
      (anonMapped filedes space seg loaded) := by
  have sizes := setting.header.sizes
  have isPageBytes := sizes.pageBytes
  have placed := fileLoaded.placed
  obtain ⟨total, ⟨added, isAdded, covers⟩, endsIff, isPlaced⟩ :=
    placed.anon setting nonempty
  have whole := endsIff.mpr ends
  have anonPlaced := isPlaced whole
  -- The final space is sound, and every byte of the segment is shown in it.
  have sound : VmSound (anonMapped filedes space seg loaded) := by
    cases anonPlaced with
    | nothing same =>
      rw [same]
      exact placed.ready.sound
    | maps isMapped maps =>
      rw [isMapped]
      exact maps.ready.sound
  have shown (index : Nat) (inside : index < seg.pMemsz.toNat) :
      Shows (anonMapped filedes space seg loaded) space read
        (seg.pVaddr + BitVec.ofNat 32 index)
        (fileByte seg content (seg.delta.toNat + index)) := by
    have inPages : seg.delta.toNat + index < seg.pageBytes.toNat := by
      omega
    rw [sizes.vaddr_add index]
    by_cases inFile : seg.delta.toNat + index < seg.lenfile.toNat
    · have isShown := fileLoaded.shows _ inFile
      cases anonPlaced with
      | nothing same =>
        rw [same]
        exact isShown
      | maps isMapped maps =>
        rw [isMapped, maps.after]
        exact isShown.mapRegion _ _ _ _
    · have isLenfile := sizes.lenfile
      have isZero : fileByte seg content (seg.delta.toNat + index) = 0 :=
        if_neg (by omega)
      rw [isZero]
      cases anonPlaced with
      | nothing same reaches =>
        omega
      | maps isMapped maps reaches =>
        rw [isMapped]
        exact placed.shows_anon setting nonempty maps reaches
          (near reaches) (by omega) inPages
  refine ⟨⟨added, isAdded, ?_⟩, ?_, ?_⟩
  · intro address
    rw [covers address, whole, sizes.inPages_iff nonempty]
  · intro index inFile frame
    have filesz := setting.header.filesz
    have isOff := sizes.off
    have isByte : fileByte seg content (seg.delta.toNat + index) =
        content[seg.pOffset.toNat + index]?.getD 0 := by
      rw [fileByte, if_pos (by omega), ← Nat.add_assoc, isOff]
    rw [← isByte]
    exact (shown index (by omega)).reads sound frame
  · intro index behind inside frame
    have isByte : fileByte seg content (seg.delta.toNat + index) = 0 :=
      if_neg (by omega)
    rw [← isByte]
    exact (shown index inside).reads sound frame

/-- A file part of more than two gigabytes is not read. -/
theorem LoadSetting.not_faithful_far (far : 2 ^ 31 < seg.lenfile.toNat) :
    ¬ LoadsFaithfully filedes fd content read frames space seg state := by
  have sizes := setting.header.sizes
  have isLenfile := sizes.lenfile
  have small := sizes.delta_small
  have hasFile : 0 < seg.lenfile := by
    show (0 : Nat) < seg.lenfile.toNat
    omega
  have notZero : seg.lenfile ≠ 0 := by
    intro isZero
    rw [isZero] at hasFile
    exact absurd hasFile (by decide)
  obtain ⟨block, area, maps⟩ := setting.fileMapped nonempty notZero
  have isFar {index : Nat} (inFile : index < seg.lenfile.toNat)
      (behind : 2 ^ 31 ≤ index) :
      Far
        (vmSpaceMmap state space
          { filedes := filedes, request := seg.fileRequest fd })
        space (seg.addr + BitVec.ofNat 32 index)
        (fileBlock seg fd state block)
        { flags := (seg.fileRequest fd).flags
          region := state.regions.next
          offset := 0 }
        (mmapRegion (some { vnode := some vnode }) (seg.fileRequest fd)
          block) := by
    refine ⟨setting.held_file nonempty maps inFile, ?_⟩
    rw [setting.distance_file maps inFile]
    exact behind
  rintro ⟨isDefined, isLoaded⟩
  by_cases clears : seg.pFilesz < seg.lenfile ∧ seg.zeroLength ≠ 0
  · obtain ⟨more, clears⟩ := clears
    have pages := Elf32Phdr.filePages more
    have length := pages.length
    have positive : seg.zeroLength.toNat ≠ 0 := fun isZero =>
      clears (BitVec.eq_of_toNat_eq isZero)
    have isFarStart := @isFar (seg.delta.toNat + seg.pFilesz.toNat)
      (by omega) (by omega)
    rw [← pages.zeroStart_eq] at isFarStart
    have writable : VmMapping.has
          { flags := (seg.fileRequest fd).flags
            region := state.regions.next
            offset := 0 } protWrite = true := by
      unfold VmMapping.has Elf32Phdr.fileRequest Elf32Phdr.prot
      dsimp only
      split <;> split <;> split <;> decide
    obtain ⟨count, isCount⟩ : ∃ count, seg.zeroLength.toNat = count + 1 :=
      ⟨seg.zeroLength.toNat - 1, by omega⟩
    have undefined := isFarStart.clearBytes maps.ready.sound writable read
      frames count
    apply isDefined
    simp only [elf32PhLoad, if_neg nonempty, if_neg sizes.offset, paging,
      if_pos hasFile, if_pos more, isCount, undefined]
  · have isZeroed :
        (if seg.pFilesz < seg.lenfile then
          clearBytes space read frames seg.zeroStart
            (vmSpaceMmap state space
              { filedes := filedes, request := seg.fileRequest fd })
            seg.zeroLength.toNat
        else
          (vmSpaceMmap state space
            { filedes := filedes, request := seg.fileRequest fd },
            .returns (.ok ()))) =
          (vmSpaceMmap state space
            { filedes := filedes, request := seg.fileRequest fd },
            .returns (.ok ())) := by
      split
      next more =>
        have isZero : seg.zeroLength = 0 :=
          Decidable.not_not.mp fun some => clears ⟨more, some⟩
        rw [isZero]
        rfl
      · rfl
    have returns := elf32PhLoad_of_zeroed nonempty sizes.offset
      (if_pos hasFile) isZeroed
    rw [returns] at isLoaded
    have segmentLoaded := isLoaded rfl
    have placed := MapsRange.placed maps
    obtain ⟨total, adds, -, isPlaced⟩ := placed.anon setting nonempty
    have whole : total = seg.pageBytes.toNat := by
      have pages := adds.eq_pages segmentLoaded.pages
      have isTotal := pages (seg.addr.toNat + total)
      have isBytes := pages (seg.addr.toNat + seg.pageBytes.toNat)
      rw [sizes.inPages_iff nonempty] at isTotal isBytes
      omega
    have anonPlaced := isPlaced whole
    have lastFar := @isFar (seg.delta.toNat + (seg.pFilesz.toNat - 1))
      (by omega) (by omega)
    have readsNothing :
        reads (anonMapped filedes space seg
            (vmSpaceMmap state space
              { filedes := filedes, request := seg.fileRequest fd }))
          space read 0
          (seg.addr + BitVec.ofNat 32
            (seg.delta.toNat + (seg.pFilesz.toNat - 1))) = none := by
      cases anonPlaced with
      | nothing same =>
        rw [same]
        exact lastFar.reads maps.ready.sound read 0
      | maps isMapped anonMaps =>
        have sound := anonMaps.ready.sound
        rw [isMapped]
        rw [anonMaps.after] at sound ⊢
        exact Far.reads
          ⟨lastFar.toHeld.mapRegion _ _ _ _, lastFar.far⟩ sound read 0
    have readsByte := segmentLoaded.file (seg.pFilesz.toNat - 1) (by omega) 0
    rw [sizes.vaddr_add, readsNothing] at readsByte
    cases readsByte

theorem LoadSetting.anon_near (placed : FilePlaced seg space state loaded)
    (segmentLoaded :
      SegmentLoaded seg content read space state
        (anonMapped filedes space seg loaded))
    (anonPlaced : AnonPlaced filedes space seg loaded)
    (reaches : seg.lenfile.toNat + seg.lenmem.toNat = seg.pageBytes.toNat) :
    seg.lenmem.toNat ≤ 2 ^ 31 := by
  have sizes := setting.header.sizes
  have isPageBytes := sizes.pageBytes
  have isLenfile := sizes.lenfile
  apply Nat.le_of_not_lt
  intro far
  cases anonPlaced with
  | nothing same whole =>
    omega
  | maps isMapped maps whole =>
    obtain ⟨held, distance⟩ :=
      @FilePlaced.held_anon _ filedes fd vnode content read frames space
        seg state loaded placed setting nonempty _ _ maps whole
        (seg.delta.toNat + (seg.pMemsz.toNat - 1)) (by omega) (by omega)
    have readsNothing :=
      Far.reads ⟨held, by
        rw [distance]
        omega⟩ maps.ready.sound read 0
    have readsByte := segmentLoaded.zeros (seg.pMemsz.toNat - 1)
      (by omega) (by omega) 0
    rw [isMapped, sizes.vaddr_add, readsNothing] at readsByte
    cases readsByte

theorem LoadSetting.fits
    (faithful :
      LoadsFaithfully filedes fd content read frames space seg state) :
    SegmentFits seg (state.spaces space).area := by
  have sizes := setting.header.sizes
  have near : seg.lenfile.toNat ≤ 2 ^ 31 := Nat.le_of_not_lt fun far =>
    setting.not_faithful_far nonempty far faithful
  obtain ⟨loaded, fileLoaded, returns⟩ := setting.loads_near nonempty near
  have placed := fileLoaded.placed
  rw [LoadsFaithfully, returns] at faithful
  have segmentLoaded := faithful.2 rfl
  obtain ⟨total, adds, endsIff, isPlaced⟩ := placed.anon setting nonempty
  have whole : total = seg.pageBytes.toNat := by
    have pages := adds.eq_pages segmentLoaded.pages
    have isTotal := pages (seg.addr.toNat + total)
    have isBytes := pages (seg.addr.toNat + seg.pageBytes.toNat)
    rw [sizes.inPages_iff nonempty] at isTotal isBytes
    omega
  refine .inr ⟨near, (endsIff.mp whole).imp_left fun same => ⟨same, ?_⟩⟩
  refine setting.anon_near nonempty placed segmentLoaded (isPlaced whole) ?_
  have isLenmem := sizes.lenmem
  have lenfile := setting.lenfile_le
  rw [same] at isLenmem
  omega

theorem LoadSetting.faithful
    (fits : SegmentFits seg (state.spaces space).area) :
    LoadsFaithfully filedes fd content read frames space seg state := by
  obtain ⟨near, fits⟩ := fits.resolve_left nonempty
  obtain ⟨loaded, fileLoaded, returns⟩ := setting.loads_near nonempty near
  rw [LoadsFaithfully, returns]
  refine ⟨fun isUndefined => (by cases isUndefined), fun _ => ?_⟩
  refine setting.segmentLoaded nonempty fileLoaded (fits.imp_left And.left) ?_
  intro reaches
  rcases fits with ⟨-, anonNear⟩ | ⟨same, -⟩
  · exact anonNear
  · rw [same] at reaches
    omega

end Setting

theorem loadsFaithfully_empty (isEmpty : seg.pMemsz = 0)
    (filesz : seg.pFilesz.toNat ≤ seg.pMemsz.toNat)
    (filedes : Int → Option (File Vnode))
    (fd : Int) (content : List (BitVec 8)) (read : VnodeRead Vnode)
    (frames : BitVec 32 → Nat) (space : Nat) (state : VmState 32 Vnode) :
    LoadsFaithfully filedes fd content read frames space seg state := by
  have isZero : seg.pMemsz.toNat = 0 := congrArg BitVec.toNat isEmpty
  unfold LoadsFaithfully elf32PhLoad
  rw [if_pos isEmpty]
  refine ⟨fun isUndefined => (by cases isUndefined), fun _ => ⟨?_, ?_, ?_⟩⟩
  · refine ⟨[], List.Perm.refl _, ?_⟩
    intro address
    constructor
    · rintro ⟨block, member, -⟩
      cases member
    · rintro ⟨byte, lower, upper, -⟩
      omega
  · intro index inFile
    omega
  · intro index _ inside
    omega

/--
A segment of user memory that is not mapped is loaded faithfully exactly when
its parts fit.
-/
theorem elf32PhLoad_faithful_iff
    {filedes : Int → Option (File Vnode)} {fd : Int} {vnode : Vnode}
    {content : List (BitVec 8)} {read : VnodeRead Vnode}
    {frames : BitVec 32 → Nat} {space : Nat} {seg : Elf32Phdr}
    {state : VmState 32 Vnode}
    (setting :
      LoadSetting filedes fd vnode content read frames space seg state) :
    LoadsFaithfully filedes fd content read frames space seg state ↔
      SegmentFits seg (state.spaces space).area := by
  by_cases isEmpty : seg.pMemsz = 0
  · exact ⟨fun _ => .inl isEmpty, fun _ =>
      loadsFaithfully_empty isEmpty setting.header.filesz ..⟩
  exact ⟨setting.fits isEmpty, setting.faithful isEmpty⟩

/-- A writable segment of user memory, loaded from the start of the file. -/
def dataSegment (delta filesz memsz : BitVec 32) : Elf32Phdr where
  pType := PT_LOAD
  pOffset := delta
  pVaddr := 0x400000 + delta
  pFilesz := filesz
  pMemsz := memsz
  pFlags := PF_R ||| PF_W

/-- A file that delivers these bytes. -/
def fileOf (content : List (BitVec 8)) : VnodeRead Unit :=
  fun _ offset => .ok ((content.drop offset.toNat).take PAGE_SIZE)

/-- No page is in use before the first program is loaded. -/
def blankSpaces : VmState 32 Unit := .boot userMemory32 fun _ => zeroPage

theorem blankSpaces_setting {delta filesz memsz : BitVec 32}
    (header : (dataSegment delta filesz memsz).WellFormed)
    (content : List (BitVec 8)) :
    LoadSetting (fun _ => some { vnode := some () }) 3 () content
      (fileOf content) (fun _ => 0) 0 (dataSegment delta filesz memsz)
      blankSpaces := by
  have setUp : SetUp userMemory32 blankSpaces :=
    setUp_boot (Nat.le_refl 32) userMemory32 fun _ => zeroPage
  refine ⟨header, ⟨setUp.sound (by decide), setUp.areas 0,
    setUp.aligned 0⟩, ?_, ⟨by decide, by decide, rfl⟩, ?_, fun _ => rfl⟩
  · intro address _
    refine ⟨?_, rfl⟩
    intro block member
    cases member
  · intro offset
    rfl

/-- One byte of a file and one of zeros, at the start of a page. -/
theorem twoBytes_loaded :
    LoadsFaithfully (fun _ => some { vnode := some () }) 3 [7]
      (fileOf [7]) (fun _ => 0) 0 (dataSegment 0 1 2) blankSpaces :=
  (elf32PhLoad_faithful_iff (blankSpaces_setting
    ⟨by decide, by decide, by decide, by decide⟩ [7])).mpr
    (.inr ⟨by decide, .inl ⟨by decide, by decide⟩⟩)

/-- The last byte of a page of zeros and the first of the next one. -/
theorem straddlingPages_not_loaded :
    ¬ ∀ (fd : Int) (content : List (BitVec 8)) (frames : BitVec 32 → Nat)
        (space : Nat) (seg : Elf32Phdr) (state : VmState 32 Unit),
        LoadSetting (fun _ => some { vnode := some () }) fd () content
          (fileOf content) frames space seg state →
        LoadsFaithfully (fun _ => some { vnode := some () }) fd content
          (fileOf content) frames space seg state := by
  intro always
  have setting :=
    @blankSpaces_setting 0xFFF 1 2 ⟨by decide, by decide, by decide, by decide⟩
      (List.replicate PAGE_SIZE 7)
  have faithful := always 3 _ (fun _ => 0) 0 (dataSegment 0xFFF 1 2)
    blankSpaces setting
  rcases setting.fits (by decide) faithful with isEmpty | ⟨-, fits⟩
  · exact absurd isEmpty (by decide)
  · rcases fits with ⟨samePages, -⟩ | ⟨samePages, -⟩
    · exact absurd samePages (by decide)
    · exact absurd samePages (by decide)

end Idylla.Exec
