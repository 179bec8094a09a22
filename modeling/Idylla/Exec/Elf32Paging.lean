import Idylla.Exec.Elf32
import Idylla.Mm.VmMapped

namespace Idylla.Exec

open Idylla.Lib Idylla.Mm

/-!
# Loading into a paged address space

`vm_mmap` and `memset` in the address space that is built: `memset` takes page
faults like any other access, and the bytes behind it are those that a later
access of the program reads.
-/

variable {Vnode : Type}

/-- A byte of a frame replaced. -/
def setByte (state : VmState 32 Vnode) (frame offset : Nat)
    (byte : BitVec 8) : VmState 32 Vnode :=
  { state with
    bytes := fun other position =>
      if other = frame ∧ position = offset then byte
      else state.bytes other position }

/-- The kernel clears a byte; nothing where it would fault. -/
def clear (state : VmState 32 Vnode) (space : Nat)
    (address : BitVec 32) : Option (VmState 32 Vnode) :=
  match state.translate space address with
  | none => none
  | some pte =>
    if pte.rw then some (setByte state pte.frame (pageOffset address) 0)
    else none

/--
One byte of `memset`: a fault is served and the write tried again, and a fault
that cannot be served ends in a panic.
-/
def clearByte (space : Nat) (read : VnodeRead Vnode) (frames : BitVec 32 → Nat)
    (state : VmState 32 Vnode)
    (address : BitVec 32) : VmState 32 Vnode × LoadResult Unit :=
  match clear state space address with
  | some cleared => (cleared, .returns (.ok ()))
  | none =>
    match vmPagefault state space address true read (frames address) with
    | none => (state, .undefined)
    | some (served, result) =>
      if result ≠ 0 then
        (served, .panics)
      else
        match clear served space address with
        | some cleared => (cleared, .returns (.ok ()))
        -- the write faults again and again
        | none => (served, .undefined)

/-- The first bytes of `memset`, from the lowest address up. -/
def clearBytes (space : Nat) (read : VnodeRead Vnode) (frames : BitVec 32 → Nat)
    (start : BitVec 32)
    (state : VmState 32 Vnode) : Nat → VmState 32 Vnode × LoadResult Unit
  | 0 => (state, .returns (.ok ()))
  | count + 1 =>
    match clearBytes space read frames start state count with
    | (before, .returns _) =>
      clearByte space read frames before (start + BitVec.ofNat 32 count)
    | failed => failed

/--
The loader of the source in an address space.  `read` is what the files
deliver, `frames` the frame `phys_alloc` hands out for a fault.
-/
def paging (filedes : Int → Option (File Vnode))
    (space : Nat) (read : VnodeRead Vnode)
    (frames : BitVec 32 → Nat) : Loader (VmState 32 Vnode) where
  mmap := fun request state =>
    vmSpaceMmap state space { filedes := filedes, request := request }
  zero := fun start length state =>
    clearBytes space read frames start state length.toNat

/-- The byte the program reads at an address, after a page fault if need be. -/
def reads (state : VmState 32 Vnode) (space : Nat) (read : VnodeRead Vnode)
    (frame : Nat) (address : BitVec 32) : Option (BitVec 8) :=
  match state.load space address with
  | some byte => some byte
  | none =>
    match vmPagefault state space address false read frame with
    | none => none
    | some (served, result) =>
      if result ≠ 0 then none else served.load space address

/-- A mapping with a live region holds the address, and no entry shows it. -/
structure Held
    (state : VmState 32 Vnode) (space : Nat) (block : SmaBlock 32 VmMapping)
    (mapping : VmMapping) (region : VmRegion 32 Vnode)
    (address : BitVec 32) : Prop where
  noPte : state.translate space address = none
  uses : state.Uses space block mapping
  hits : block.hits address = true
  live : state.regions.cells mapping.region = some region

/--
A page that has not been fetched yet: the mapping that holds the address has
no page there, and the first fault fills the page with `content`.
-/
structure Unfetched
    (state : VmState 32 Vnode) (space : Nat) (read : VnodeRead Vnode)
    (block : SmaBlock 32 VmMapping) (mapping : VmMapping)
    (region : VmRegion 32 Vnode) (address : BitVec 32)
    (content : PageBytes) : Prop
    extends Held state space block mapping region address where
  near : address.toNat - block.start.toNat < 2 ^ 31
  noPage : region.pages ((address.toNat - block.start.toNat) / PAGE_SIZE) = none
  isContent :
    region.source ((address.toNat - block.start.toNat) / PAGE_SIZE) read =
      some (.ok content)

theorem Held.mapRegion
    {state : VmState 32 Vnode} {space : Nat} {block : SmaBlock 32 VmMapping}
    {mapping : VmMapping} {region : VmRegion 32 Vnode} {address : BitVec 32}
    (held : Held state space block mapping region address) (flags : BitVec 16)
    (fresh : VmRegion 32 Vnode) (added : SmaBlock 32 VmMapping)
    (area : SmaArea 32 VmMapping) :
    Held (Mm.mapRegion state space flags fresh added area) space block
      mapping region address := by
  refine ⟨?_, uses_mapRegion.mpr (.inr held.uses), held.hits, ?_⟩
  · exact (congrFun (VmState.setArea_pageTable ..) _).trans held.noPte
  · rw [cells_mapRegion, if_neg (Nat.ne_of_lt (Heap.lt_next held.live))]
    exact held.live

/-- What the first fault on a page leaves. -/
def fetchedPage
    (state : VmState 32 Vnode) (space : Nat) (block : SmaBlock 32 VmMapping)
    (mapping : VmMapping) (address : BitVec 32) (content : PageBytes)
    (frame : Nat) : VmState 32 Vnode :=
  (((state.newPage frame content).mapPage space (pageRoundDown address)
    { frame := frame, user := false, rw := true }).setSlot mapping.region
    ((address.toNat - block.start.toNat) / PAGE_SIZE) (some frame)).mapPage
    space (pageRoundDown address) { frame := frame, user := true, rw := true }

namespace Unfetched

variable {state : VmState 32 Vnode} {space : Nat} {read : VnodeRead Vnode}
  {block : SmaBlock 32 VmMapping} {mapping : VmMapping}
  {region : VmRegion 32 Vnode} {address : BitVec 32} {content : PageBytes}

theorem fault
    (unfetched :
      Unfetched state space read block mapping region address content)
    (sound : VmSound state) (rw : Bool)
    (allowed : rw = true → mapping.has protWrite = true) (frame : Nat) :
    vmPagefault state space address rw read frame =
      some
        (fetchedPage state space block mapping address content frame, 0) := by
  obtain ⟨next, result, returns, bounded, isPage, served⟩ :=
    sound.vmPagefault_near (Nat.le_refl _) unfetched.uses unfetched.hits
      unfetched.live unfetched.near rw read frame
  rw [returns]
  cases served with
  | refused readOnly write =>
    rw [allowed write] at readOnly
    cases readOnly
  | shows holds isPrivate | copies holds isPrivate =>
    rw [unfetched.noPage] at holds
    cases holds
  | @fetches fetched missing isContent =>
    rw [unfetched.isContent] at isContent
    obtain rfl := Except.ok.inj (Option.some.inj isContent)
    rw [isPage]
    rfl
  | fails missing isError =>
    rw [unfetched.isContent] at isError
    cases isError

theorem translate_fetchedPage (frame : Nat) (other : BitVec 32) :
    (fetchedPage state space block mapping address content frame).translate
        space other =
      if pageRoundDown other = pageRoundDown address then
        some { frame := frame, user := true, rw := true }
      else state.translate space other := by
  simp only [VmState.translate, fetchedPage, VmState.mapPage_pageTable,
    VmState.setSlot_spaces, VmState.newPage_spaces, true_and]
  split
  · rfl
  · rfl

theorem bytes_fetchedPage (frame other : Nat) :
    (fetchedPage state space block mapping address content frame).bytes other =
      if other = frame then content else state.bytes other :=
  rfl

theorem reads
    (unfetched :
      Unfetched state space read block mapping region address content)
    (sound : VmSound state) (frame : Nat) :
    Exec.reads state space read frame address =
      some (content (pageOffset address)) := by
  have notLoaded : state.load space address = none := by
    rw [VmState.load, unfetched.noPte]
  rw [Exec.reads, notLoaded,
    unfetched.fault sound false (fun isWrite => by cases isWrite) frame]
  simp only [ne_eq, not_true_eq_false, ↓reduceIte]
  rw [VmState.load, translate_fetchedPage, if_pos rfl]
  simp only [↓reduceIte, bytes_fetchedPage]

end Unfetched

/-- The addresses of a range that lies in one page. -/
structure InOnePage (start : BitVec 32) (length : Nat) : Prop where
  page : ∀ index, index < length →
      pageRoundDown (start + BitVec.ofNat 32 index) = pageRoundDown start
  offset : ∀ index, index < length →
      pageOffset (start + BitVec.ofNat 32 index) = pageOffset start + index

/-- A fetched page with some of its bytes cleared. -/
structure ClearedPage
    (fetched after : VmState 32 Vnode)
    (frame first count : Nat) : Prop where
  regions : after.regions = fetched.regions
  pages : after.pages = fetched.pages
  spaces : after.spaces = fetched.spaces
  bytes : ∀ other offset,
      after.bytes other offset =
        if other = frame ∧ first ≤ offset ∧ offset < first + count then 0
        else fetched.bytes other offset

section Clear

variable {state : VmState 32 Vnode} {space : Nat} {read : VnodeRead Vnode}
  {frames : BitVec 32 → Nat} {block : SmaBlock 32 VmMapping}
  {mapping : VmMapping} {region : VmRegion 32 Vnode} {start : BitVec 32}
  {content : PageBytes}

theorem ClearedPage.clear
    {fetched before : VmState 32 Vnode} {frame first count : Nat}
    (cleared : ClearedPage fetched before frame first count)
    {address : BitVec 32}
    (isPte :
      fetched.translate space address =
        some { frame := frame, user := true, rw := true })
    (next : pageOffset address = first + count) :
    ∃ after,
      Exec.clear before space address = some after ∧
        ClearedPage fetched after frame first (count + 1) := by
  have isPteNow : before.translate space address =
      some { frame := frame, user := true, rw := true } := by
    rw [VmState.translate, cleared.spaces]
    exact isPte
  refine ⟨setByte before frame (pageOffset address) 0, ?_, cleared.regions,
    cleared.pages, cleared.spaces, ?_⟩
  · rw [Exec.clear, isPteNow]
    rfl
  · intro other offset
    show (if other = frame ∧ offset = pageOffset address then 0
      else before.bytes other offset) = _
    rw [cleared.bytes, next]
    by_cases isFrame : other = frame
    · subst isFrame
      by_cases isNext : offset = first + count
      · rw [if_pos ⟨rfl, isNext⟩, if_pos ⟨rfl, by omega, by omega⟩]
      · rw [if_neg (fun both => isNext both.2)]
        by_cases inRange : first ≤ offset ∧ offset < first + count
        · rw [if_pos ⟨rfl, inRange⟩, if_pos ⟨rfl, inRange.1, by omega⟩]
        · rw [if_neg (fun both => inRange both.2),
            if_neg (fun both => inRange ⟨both.2.1, by omega⟩)]
    · rw [if_neg (fun both => isFrame both.1),
        if_neg (fun both => isFrame both.1),
        if_neg (fun both => isFrame both.1)]

theorem Unfetched.clearBytes
    (unfetched : Unfetched state space read block mapping region start content)
    (sound : VmSound state) (writable : mapping.has protWrite = true)
    {length : Nat} (inPage : InOnePage start length) (count : Nat)
    (bounded : count < length) :
    ∃ after,
      Exec.clearBytes space read frames start state (count + 1) =
          (after, .returns (.ok ())) ∧
        ClearedPage
          (fetchedPage state space block mapping start content (frames start))
          after (frames start) (pageOffset start) (count + 1) := by
  have isPte {index : Nat}
      (inRange : index < length) :
      (fetchedPage state space block mapping start content
          (frames start)).translate space
          (start + BitVec.ofNat 32 index) =
        some { frame := frames start, user := true, rw := true } := by
    rw [translate_fetchedPage, if_pos (inPage.page index inRange)]
  induction count with
  | zero =>
    have isStart : start + BitVec.ofNat 32 0 = start := by simp
    have faults : Exec.clear state space start = none := by
      rw [Exec.clear, unfetched.noPte]
    have untouched : ClearedPage
          (fetchedPage state space block mapping start content (frames start))
          (fetchedPage state space block mapping start content (frames start))
          (frames start) (pageOffset start) 0 := by
      refine ⟨rfl, rfl, rfl, ?_⟩
      intro other offset
      rw [if_neg (by omega)]
    have isPteHere := isPte bounded
    rw [isStart] at isPteHere
    obtain ⟨after, isAfter, cleared⟩ :=
      untouched.clear isPteHere (Nat.add_zero _).symm
    refine ⟨after, ?_, cleared⟩
    simp only [Exec.clearBytes]
    rw [isStart, clearByte, faults,
      unfetched.fault sound true (fun _ => writable)]
    simp only [ne_eq, not_true_eq_false, ↓reduceIte, isAfter]
  | succ count ih =>
    obtain ⟨before, isBefore, clearedBefore⟩ := ih (Nat.lt_of_succ_lt bounded)
    obtain ⟨after, isAfter, cleared⟩ :=
      clearedBefore.clear (isPte bounded) (inPage.offset _ bounded)
    refine ⟨after, ?_, cleared⟩
    rw [Exec.clearBytes, isBefore]
    simp only [clearByte, isAfter]

theorem Unfetched.sound_fetchedPage
    (unfetched : Unfetched state space read block mapping region start content)
    (sound : VmSound state) {frame : Nat} (unused : state.pages frame = none) :
    VmSound (fetchedPage state space block mapping start content frame) := by
  have bounded :=
    ((sound.layout space).page_of_hits (Nat.le_refl _) unfetched.uses.1
      unfetched.hits).1
  obtain ⟨cell, isCell, sameSize, -⟩ := sound.live _ _ _ unfetched.uses
  obtain rfl := Option.some.inj (unfetched.live.symm.trans isCell)
  have isPage :=
    ((sound.layout space).page_of_hits (Nat.le_refl _) unfetched.uses.1
      unfetched.hits).2
  have served :=
    @Served.fetches _ _ state space block.start mapping region
      ((start.toNat - block.start.toNat) / PAGE_SIZE) false read frame
      content (.inl unfetched.noPage) unfetched.isContent
  rw [isPage] at served
  refine sound.served unfetched.live ?_ unused served
  rw [sameSize]
  exact bounded

theorem ClearedPage.sound
    {fetched after : VmState 32 Vnode} {frame first count : Nat}
    (cleared : ClearedPage fetched after frame first count)
    (sound : VmSound fetched) : VmSound after :=
  sound.congr (fun _ => by rw [cleared.spaces]) cleared.regions cleared.pages

end Clear

/-- The byte an address shows: in its page, or in the page a fault fetches. -/
inductive Shows
    (state : VmState 32 Vnode) (space : Nat) (read : VnodeRead Vnode)
    (address : BitVec 32)
    (byte : BitVec 8) : Prop where
  | loaded {pte : Pte} (isPte : state.translate space address = some pte)
      (user : pte.user = true)
      (isByte : state.bytes pte.frame (pageOffset address) = byte)
  | unfetched {block : SmaBlock 32 VmMapping} {mapping : VmMapping}
      {region : VmRegion 32 Vnode}
      {content : PageBytes}
      (unfetched :
        Unfetched state space read block mapping region address content)
      (isByte : content (pageOffset address) = byte)

section Shown

variable {state : VmState 32 Vnode} {space : Nat} {read : VnodeRead Vnode}
  {address : BitVec 32} {byte : BitVec 8}

theorem Shows.reads
    (isShown : Shows state space read address byte) (sound : VmSound state)
    (frame : Nat) : Exec.reads state space read frame address = some byte := by
  cases isShown with
  | loaded isPte user isByte =>
    have isLoaded : state.load space address = some byte := by
      rw [VmState.load, isPte]
      simp [user, isByte]
    rw [Exec.reads, isLoaded]
  | unfetched unfetched isByte =>
    rw [unfetched.reads sound frame, isByte]

theorem Shows.mapRegion
    (isShown : Shows state space read address byte) (flags : BitVec 16)
    (fresh : VmRegion 32 Vnode) (added : SmaBlock 32 VmMapping)
    (area : SmaArea 32 VmMapping) :
    Shows (Mm.mapRegion state space flags fresh added area) space read
      address byte := by
  have samePte :
      (Mm.mapRegion state space flags fresh added area).translate space
          address = state.translate space address :=
    congrFun (VmState.setArea_pageTable ..) _
  cases isShown with
  | loaded isPte user isByte =>
    exact .loaded (samePte.trans isPte) user isByte
  | unfetched unfetched isByte =>
    exact .unfetched
      ⟨unfetched.toHeld.mapRegion flags fresh added area, unfetched.near,
        unfetched.noPage, unfetched.isContent⟩ isByte

theorem ClearedPage.shows
    {block : SmaBlock 32 VmMapping} {mapping : VmMapping} {start : BitVec 32}
    {content : PageBytes} {frame count : Nat} {after : VmState 32 Vnode}
    (cleared :
      ClearedPage
        (fetchedPage state space block mapping start content frame) after
        frame (pageOffset start) count)
    (samePage : pageRoundDown address = pageRoundDown start) :
    Shows after space read address
      (if pageOffset start ≤ pageOffset address ∧
          pageOffset address < pageOffset start + count then 0
        else content (pageOffset address)) := by
  have isPte : after.translate space address =
        some { frame := frame, user := true, rw := true } := by
    rw [VmState.translate, cleared.spaces]
    exact
      (Unfetched.translate_fetchedPage frame address).trans (if_pos samePage)
  refine .loaded isPte rfl ?_
  rw [cleared.bytes, Unfetched.bytes_fetchedPage, if_pos rfl]
  simp

theorem ClearedPage.shows_elsewhere
    {block : SmaBlock 32 VmMapping} {mapping : VmMapping}
    {region : VmRegion 32 Vnode} {start : BitVec 32} {content other : PageBytes}
    {frame first count : Nat} {after : VmState 32 Vnode} (sound : VmSound state)
    (unfetched : Unfetched state space read block mapping region start content)
    (elsewhere : Unfetched state space read block mapping region address other)
    (cleared :
      ClearedPage
        (fetchedPage state space block mapping start content frame) after
        frame first count)
    (otherPage : pageRoundDown address ≠ pageRoundDown start) :
    Shows after space read address (other (pageOffset address)) := by
  have layout := sound.layout space
  have startPage :=
    (layout.page_of_hits (Nat.le_refl _) unfetched.uses.1 unfetched.hits).2
  have addressPage :=
    (layout.page_of_hits (Nat.le_refl _) elsewhere.uses.1 elsewhere.hits).2
  have otherIndex : (address.toNat - block.start.toNat) / PAGE_SIZE ≠
        (start.toNat - block.start.toNat) / PAGE_SIZE := by
    intro same
    rw [same] at addressPage
    exact otherPage (addressPage.symm.trans startPage)
  have sameAreas : (after.spaces space).area = (state.spaces space).area := by
    rw [cleared.spaces]
    simp [fetchedPage]
  have isRegion : after.regions.cells mapping.region =
        some
          (region.setPage ((start.toNat - block.start.toNat) / PAGE_SIZE)
            (some frame)) := by
    rw [cleared.regions]
    exact VmState.setSlot_cells_same unfetched.live _ _
  refine @Shows.unfetched _ _ _ _ _ _ block mapping _ other
    ⟨⟨?_, ⟨by rw [sameAreas]; exact elsewhere.uses.1, elsewhere.uses.2⟩,
      elsewhere.hits, isRegion⟩, elsewhere.near, ?_, elsewhere.isContent⟩ rfl
  · rw [VmState.translate, cleared.spaces]
    exact ((Unfetched.translate_fetchedPage frame address).trans
      (if_neg otherPage)).trans elsewhere.noPte
  · exact (if_neg otherIndex).trans elsewhere.noPage

end Shown

/-- An address whose page index is negative when it is cut to 32 bits. -/
structure Far
    (state : VmState 32 Vnode) (space : Nat) (address : BitVec 32)
    (block : SmaBlock 32 VmMapping) (mapping : VmMapping)
    (region : VmRegion 32 Vnode) : Prop
    extends Held state space block mapping region address where
  far : 2 ^ 31 ≤ address.toNat - block.start.toNat

namespace Far

variable {state : VmState 32 Vnode} {space : Nat} {address : BitVec 32}
  {block : SmaBlock 32 VmMapping} {mapping : VmMapping}
  {region : VmRegion 32 Vnode}

/-- A fault there looks in front of the page array. -/
theorem fault (isFar : Far state space address block mapping region)
    (sound : VmSound state) (rw : Bool)
    (allowed : rw = true → mapping.has protWrite = true)
    (read : VnodeRead Vnode) (frame : Nat) :
    vmPagefault state space address rw read frame = none := by
  obtain ⟨⟨-, ⟨member, isMapping⟩, hits, live⟩, far⟩ := isFar
  have layout := sound.layout space
  have shaped := layout.shaped block member
  have distance :
      (address - block.start).toNat = address.toNat - block.start.toNat :=
    BitVec.toNat_sub_of_le
      ((SmaBlock.hits_iff_covers (Nat.le_of_lt shaped.fits)).mp hits).1.1
  have offset : (pageRoundDown (address - block.start)).toNat =
        (address.toNat - block.start.toNat) / PAGE_SIZE * PAGE_SIZE := by
    rw [pageRoundDown_toNat (Nat.le_refl _), distance]
  have negative :
      ((pageRoundDown (address - block.start)).setWidth 32).toInt.tdiv
        PAGE_SIZE < 0 := by
    rcases pageOffset_cases (Nat.le_refl _) (address - block.start) with
      ⟨index, atPage, -⟩ | ⟨-, negative⟩
    · have large : ¬ 2 * (pageRoundDown (address - block.start)).toNat <
          2 ^ 32 := by
        rw [offset]
        simp only [PAGE_SIZE]
        omega
      rw [BitVec.setWidth_eq, BitVec.toInt_eq_toNat_cond, if_neg large]
        at atPage
      omega
    · exact negative
  have notRefused : ¬ (¬ mapping.has protWrite ∧ rw) := by
    rintro ⟨readOnly, write⟩
    exact readOnly (allowed write)
  unfold vmPagefault
  rw [layout.smaGetblock_eq member hits]
  simp only [shaped.used, isMapping, ne_eq, not_true_eq_false, ↓reduceIte]
  unfold vmGetpage
  rw [if_neg notRefused]
  simp only [live]
  rw [if_pos (.inl negative)]

theorem reads (isFar : Far state space address block mapping region)
    (sound : VmSound state) (read : VnodeRead Vnode) (frame : Nat) :
    Exec.reads state space read frame address = none := by
  have notLoaded : state.load space address = none := by
    rw [VmState.load, isFar.noPte]
  rw [Exec.reads, notLoaded,
    isFar.fault sound false (fun isWrite => by cases isWrite)]

end Far

theorem Far.clearBytes
    {state : VmState 32 Vnode} {space : Nat} {start : BitVec 32}
    {block : SmaBlock 32 VmMapping} {mapping : VmMapping}
    {region : VmRegion 32 Vnode}
    (isFar : Far state space start block mapping region) (sound : VmSound state)
    (writable : mapping.has protWrite = true) (read : VnodeRead Vnode)
    (frames : BitVec 32 → Nat) (count : Nat) :
    Exec.clearBytes space read frames start state (count + 1) =
      (state, .undefined) := by
  induction count with
  | zero =>
    have isStart : start + BitVec.ofNat 32 0 = start := by simp
    have faults : Exec.clear state space start = none := by
      rw [Exec.clear, isFar.noPte]
    simp only [Exec.clearBytes]
    rw [isStart, clearByte, faults, isFar.fault sound true (fun _ => writable)]
  | succ count ih =>
    rw [Exec.clearBytes, ih]

end Idylla.Exec
