import Idylla.Mm.VmCloned
import Idylla.Mm.VmServed
import Idylla.Mm.VmSetup

namespace Idylla.Mm

open Idylla.Lib

/-!
# Copy on write against full copies

In the reference a clone copies the whole memory of an address space.  With
private writable mappings the spaces built from shared pages show the same
bytes, as long as no fault lies two gigabytes or more into its mapping: there
the page index of `vm_getpage` leaves the array.
-/

variable {w : Nat} {Vnode : Type}

/-- Where the first content of a page comes from. -/
structure PageOrigin (Vnode : Type) where
  ops : VmOps
  vnode : Option Vnode
  offset : Int

/-- An address space of the reference, by page address. -/
structure RefSpace (w : Nat) (Vnode : Type) where
  mapped : BitVec w → Option (PageOrigin Vnode)
  memory : BitVec w → Option PageBytes

/-- The address spaces of the reference. -/
abbrev RefState (w : Nat) (Vnode : Type) := Nat → RefSpace w Vnode

namespace RefState

/-- The page at an address replaced. -/
def setPage (reference : RefState w Vnode) (space : Nat) (virt : BitVec w)
    (content : PageBytes) : RefState w Vnode :=
  fun other =>
    if other = space then
      { reference space with
        memory := fun address =>
          if address = virt then some content
          else (reference space).memory address }
    else
      reference other

/-- A page that is touched for the first time is filled from its origin. -/
def touch (reference : RefState w Vnode) (space : Nat) (virt : BitVec w)
    (read : VnodeRead Vnode) : RefState w Vnode :=
  match (reference space).memory virt, (reference space).mapped virt with
  | none, some origin =>
    match pageSource origin.ops origin.vnode origin.offset read with
    | some (.ok content) => reference.setPage space virt content
    | _ => reference
  | _, _ => reference

/-- A clone is a full and independent copy. -/
def step (reference : RefState w Vnode) :
    VmLabel w Vnode → RefState w Vnode
  | .clone dest src =>
    fun other => if other = dest then reference src else reference other
  | .fault space address _ read _ result =>
    if result = 0 then
      reference.touch space (pageRoundDown address) read
    else
      reference
  | .store space address byte =>
    match (reference space).memory (pageRoundDown address) with
    | none => reference
    | some content =>
      reference.setPage space (pageRoundDown address) fun offset =>
        if offset = pageOffset address then byte else content offset

/-- The byte at an address. -/
def load (reference : RefState w Vnode) (space : Nat)
    (address : BitVec w) : Option (BitVec 8) :=
  ((reference space).memory (pageRoundDown address)).map fun content =>
    content (pageOffset address)

end RefState

/-- The origin of the page at an address of an address space. -/
def VmState.origin (state : VmState w Vnode) (space : Nat)
    (virt : BitVec w) : Option (PageOrigin Vnode) :=
  match firstFound (fun block => block.hits virt)
      (state.spaces space).area.usedList with
  | none => none
  | some found =>
    match found.item.dataptr with
    | none => none
    | some mapping =>
      (state.regions.cells mapping.region).map fun region =>
        { ops := region.ops
          vnode := region.vnode
          offset := region.offset + ((virt - found.item.start).toNat : Int) }

/-- The reference before anything has been touched. -/
def VmState.reference (state : VmState w Vnode) : RefState w Vnode :=
  fun space =>
    { mapped := state.origin space
      memory := fun _ => none }

/--
Address spaces with private writable mappings in which no page is present
yet.
-/
structure PrivateSpaces (state : VmState w Vnode) : Prop where
  sound : VmSound state
  isPrivate : ∀ space block mapping, state.Uses space block mapping →
      mapping.has protWrite = true ∧ mapping.has mapShared = false
  no_pages : ∀ region index, state.slot region index = none
  no_entries : ∀ space address, (state.spaces space).pageTable address = none

/-- A page of a mapping of an address space. -/
structure PageOf
    (state : VmState w Vnode) (space : Nat) (block : SmaBlock w VmMapping)
    (mapping : VmMapping) (region : VmRegion w Vnode)
    (index : Nat) : Prop where
  uses : state.Uses space block mapping
  live : state.regions.cells mapping.region = some region
  bounded : index < pageCount block.size

/--
The spaces show what the reference holds: each slot has the content of its
page, an entry shows the page of its slot, and a writable entry belongs to
the only slot that holds its page.
-/
structure Mirrors
    (state : VmState w Vnode)
    (reference : RefState w Vnode) : Prop where
  isPrivate : ∀ space block mapping, state.Uses space block mapping →
      mapping.has protWrite = true ∧ mapping.has mapShared = false
  origin : ∀ {space block mapping region index},
      PageOf state space block mapping region index →
      (reference space).mapped (pageAddress block.start index) =
        some
          { ops := region.ops
            vnode := region.vnode
            offset := region.offset + (index * PAGE_SIZE : Nat) }
  memory : ∀ {space block mapping region index},
      PageOf state space block mapping region index →
      (reference space).memory (pageAddress block.start index) =
        (region.pages index).map state.bytes
  entry : ∀ space address pte,
      (state.spaces space).pageTable address = some pte →
      ∃ block mapping region index,
        PageOf state space block mapping region index ∧
          address = pageAddress block.start index ∧
          region.pages index = some pte.frame ∧
          (pte.rw = true →
            ∀ owner position, state.slot owner position = some pte.frame →
              owner = mapping.region ∧ position = index)

theorem sharesRegion_eq_false {mapping : VmMapping}
    (writable : mapping.has protWrite = true)
    (isPrivate : mapping.has mapShared = false) (region : VmRegion w Vnode) :
    sharesRegion mapping region = false := by
  have noFlag : mapping.flags &&& mapShared = 0 := by
    apply Decidable.byContradiction
    intro notClear
    have isSet : mapping.flags &&& mapShared = mapShared :=
      flag_set_of_ne_zero (by decide : mapShared = BitVec.twoPow 16 4) notClear
    simp [VmMapping.has, isSet] at isPrivate
  simp [sharesRegion, writable, noFlag]

namespace RefState

variable {reference : RefState w Vnode} {space : Nat} {virt : BitVec w}
  {content : PageBytes}

@[simp] theorem setPage_mapped (other : Nat) :
    (reference.setPage space virt content other).mapped =
      (reference other).mapped := by
  by_cases same : other = space <;> simp [setPage, same]

theorem setPage_memory (other : Nat) (address : BitVec w) :
    (reference.setPage space virt content other).memory address =
      if other = space ∧ address = virt then some content
      else (reference other).memory address := by
  by_cases same : other = space <;> simp [setPage, same]

theorem touch_of_memory (touched : (reference space).memory virt = some content)
    (read : VnodeRead Vnode) : reference.touch space virt read = reference := by
  simp [touch, touched]

theorem setPage_self (touched : (reference space).memory virt = some content) :
    reference.setPage space virt content = reference := by
  funext other
  by_cases same : other = space
  · subst same
    have sameMemory :
        (fun address =>
            if address = virt then some content
            else (reference other).memory address) =
          (reference other).memory := by
      funext address
      by_cases here : address = virt <;> simp [here, touched]
    simp [setPage, sameMemory]
  · simp [setPage, same]

end RefState

variable {state : VmState w Vnode}

theorem VmSound.origin_of_pageOf (sound : VmSound state)
    {space index : Nat} {block : SmaBlock w VmMapping} {mapping : VmMapping}
    {region : VmRegion w Vnode}
    (page : PageOf state space block mapping region index) :
    state.origin space (pageAddress block.start index) =
      some
        { ops := region.ops
          vnode := region.vnode
          offset := region.offset + (index * PAGE_SIZE : Nat) } := by
  have layout := sound.layout space
  obtain ⟨member, isMapping⟩ := page.uses
  have shaped := layout.shaped block member
  have covers := shaped.covers_pageAddress page.bounded
  have hits : block.hits (pageAddress block.start index) = true :=
    (SmaBlock.hits_iff_covers (Nat.le_of_lt shaped.fits)).mpr
      ⟨covers, shaped.fits⟩
  have distance : (pageAddress block.start index - block.start).toNat =
        index * PAGE_SIZE := by
    rw [BitVec.toNat_sub_of_le covers.1, shaped.pageAddress_toNat page.bounded]
    omega
  obtain ⟨found, isFound, isBlock⟩ := layout.firstFound_hits member hits
  rw [VmState.origin, isFound]
  simp only [isBlock, isMapping, page.live, Option.map_some, distance]

theorem PrivateSpaces.mirrors (spaces : PrivateSpaces state) :
    Mirrors state state.reference where
  isPrivate := spaces.isPrivate
  origin := fun page => spaces.sound.origin_of_pageOf page
  memory := by
    intro space block mapping region index page
    have empty := spaces.no_pages mapping.region index
    rw [VmState.slot_of_live page.live] at empty
    rw [empty]
    rfl
  entry := by
    intro space address pte present
    rw [spaces.no_entries] at present
    simp at present

section Steps

variable {state next : VmState w Vnode} {reference : RefState w Vnode}
  {space index : Nat} {block : SmaBlock w VmMapping} {mapping : VmMapping}
  {region : VmRegion w Vnode}

theorem Mirrors.same_owner
    (mirrors : Mirrors state reference) (sound : VmSound state)
    (page : PageOf state space block mapping region index)
    {otherSpace otherIndex : Nat} {other : SmaBlock w VmMapping}
    {otherMapping : VmMapping} {otherRegion : VmRegion w Vnode}
    (otherPage :
      PageOf state otherSpace other otherMapping otherRegion otherIndex)
    (sameRegion : otherMapping.region = mapping.region) :
    otherSpace = space ∧ other = block ∧ otherRegion = region := by
  obtain ⟨writable, isPrivate⟩ := mirrors.isPrivate _ _ _ otherPage.uses
  obtain ⟨sameSpace, sameBlock⟩ :=
    sound.alone _ _ _ _ _ _ otherRegion otherPage.uses page.uses sameRegion
      otherPage.live (sharesRegion_eq_false writable isPrivate _)
  have live := otherPage.live
  rw [sameRegion, page.live, Option.some.injEq] at live
  exact ⟨sameSpace, sameBlock, live.symm⟩

theorem VmSound.same_page (sound : VmSound state)
    (page : PageOf state space block mapping region index)
    {otherIndex : Nat} {other : SmaBlock w VmMapping} {otherMapping : VmMapping}
    {otherRegion : VmRegion w Vnode}
    (otherPage : PageOf state space other otherMapping otherRegion otherIndex)
    (sameAddress :
      pageAddress other.start otherIndex = pageAddress block.start index) :
    other = block ∧ otherMapping = mapping ∧ otherRegion = region ∧
      otherIndex = index := by
  obtain ⟨rfl, sameIndex⟩ :=
    (sound.layout space).pageAddress_unique otherPage.uses.1 page.uses.1
      otherPage.bounded page.bounded sameAddress
  have sameMapping := otherPage.uses.2.symm.trans page.uses.2
  rw [Option.some.injEq] at sameMapping
  subst sameMapping
  have sameRegion := otherPage.live.symm.trans page.live
  rw [Option.some.injEq] at sameRegion
  exact ⟨rfl, rfl, sameRegion, sameIndex⟩

theorem Mirrors.store
    (mirrors : Mirrors state reference) (sound : VmSound state)
    {address : BitVec w} {byte : BitVec 8}
    (writes : state.store space address byte = some next) :
    Mirrors next (reference.step (.store space address byte)) := by
  obtain ⟨pte, present, writable, sameRegions, -, sameSpaces, bytes⟩ :=
    VmState.store_some writes
  obtain ⟨block, mapping, region, index, page, atPage, holds, alone⟩ :=
    mirrors.entry space _ pte present
  have content : (reference space).memory (pageRoundDown address) =
        some (state.bytes pte.frame) := by
    rw [atPage, mirrors.memory page, holds, Option.map_some]
  have stepped : reference.step (.store space address byte) =
        reference.setPage space (pageRoundDown address)
          (next.bytes pte.frame) := by
    simp only [RefState.step, content]
    congr 1
    funext offset
    simp [bytes]
  have sameBytes :
      ∀ frame, frame ≠ pte.frame → next.bytes frame = state.bytes frame := by
    intro frame different
    funext offset
    simp [bytes, different]
  have samePages : ∀ {space block mapping region index},
        PageOf next space block mapping region index →
        PageOf state space block mapping region index := by
    intro space block mapping region index newPage
    obtain ⟨uses, live, bounded⟩ := newPage
    rw [VmState.Uses, sameSpaces] at uses
    rw [sameRegions] at live
    exact ⟨uses, live, bounded⟩
  rw [stepped]
  refine ⟨?_, ?_, ?_, ?_⟩
  · intro space block mapping uses
    rw [VmState.Uses, sameSpaces] at uses
    exact mirrors.isPrivate space block mapping uses
  · intro space block mapping region index newPage
    rw [RefState.setPage_mapped]
    exact mirrors.origin (samePages newPage)
  · intro otherSpace other otherMapping otherRegion otherIndex newPage
    have otherPage := samePages newPage
    rw [RefState.setPage_memory, mirrors.memory otherPage]
    by_cases here : otherSpace = space ∧
          pageAddress other.start otherIndex = pageRoundDown address
    · obtain ⟨rfl, sameAddress⟩ := here
      obtain ⟨rfl, rfl, rfl, rfl⟩ :=
        sound.same_page page otherPage (sameAddress.trans atPage)
      rw [if_pos ⟨rfl, sameAddress⟩, holds, Option.map_some]
    · rw [if_neg here]
      cases otherHolds : otherRegion.pages otherIndex with
      | none =>
        rfl
      | some frame =>
        rw [Option.map_some, Option.map_some, sameBytes]
        rintro rfl
        -- the written page has one owner, and that is the page written
        obtain ⟨sameRegion, rfl⟩ := alone writable otherMapping.region
          otherIndex
          ((VmState.slot_of_live otherPage.live _).trans otherHolds)
        obtain ⟨rfl, rfl, -⟩ :=
          mirrors.same_owner sound page otherPage sameRegion
        exact here ⟨rfl, atPage.symm⟩
  · intro otherSpace otherAddress otherPte otherPresent
    rw [sameSpaces] at otherPresent
    obtain ⟨other, otherMapping, otherRegion, otherIndex, otherPage,
      otherAt, otherHolds, otherAlone⟩ :=
      mirrors.entry otherSpace otherAddress otherPte otherPresent
    refine ⟨other, otherMapping, otherRegion, otherIndex, ?_, otherAt,
      otherHolds, ?_⟩
    · obtain ⟨uses, live, bounded⟩ := otherPage
      exact ⟨by rw [VmState.Uses, sameSpaces]; exact uses,
        by rw [sameRegions]; exact live, bounded⟩
    · rw [VmState.slot_congr sameRegions]
      exact otherAlone

/--
One page of a mapping has been served: its slot and its entry are replaced,
and the reference holds the content of the new slot.
-/
structure ServedPage
    (state next : VmState w Vnode) (reference after : RefState w Vnode)
    (space : Nat) (virt : BitVec w) (pointer index : Nat) (slot : Option Nat)
    (entry : Option Pte) : Prop
    extends PageChange state next space virt pointer index slot entry where
  bytes : ∀ owner position frame, state.slot owner position = some frame →
      next.bytes frame = state.bytes frame
  mapped : ∀ other, (after other).mapped = (reference other).mapped
  memory : ∀ other address,
      (after other).memory address =
        if other = space ∧ address = virt then slot.map next.bytes
        else (reference other).memory address
  fresh : slot = state.slot pointer index ∨
      ∃ frame, slot = some frame ∧
        ∀ owner position, state.slot owner position ≠ some frame
  shows : ∀ pte, entry = some pte →
      slot = some pte.frame ∧
        (pte.rw = true →
          ∀ owner position, state.slot owner position ≠ some pte.frame)

namespace ServedPage

variable {after : RefState w Vnode} {virt : BitVec w} {pointer : Nat}
  {slot : Option Nat} {entry : Option Pte}

theorem pageOf_iff
    (served :
      ServedPage state next reference after space virt pointer index slot entry)
    {other position : Nat} {block : SmaBlock w VmMapping} {mapping : VmMapping}
    {changed : VmRegion w Vnode} :
    PageOf next other block mapping changed position ↔
      ∃ old,
        PageOf state other block mapping old position ∧
          changed = if mapping.region = pointer then old.setPage index slot
            else old := by
  have sameUses :
      next.Uses other block mapping ↔ state.Uses other block mapping :=
    served.uses_iff
  constructor
  · rintro ⟨uses, live, bounded⟩
    rw [served.cells] at live
    obtain ⟨old, isOld, rfl⟩ := Option.map_eq_some_iff.mp live
    exact ⟨old, ⟨sameUses.mp uses, isOld, bounded⟩, rfl⟩
  · rintro ⟨old, ⟨uses, isOld, bounded⟩, rfl⟩
    exact ⟨sameUses.mpr uses, by rw [served.cells, isOld]; rfl, bounded⟩

theorem pages_other (mirrors : Mirrors state reference) (sound : VmSound state)
    (page : PageOf state space block mapping region index)
    {other position : Nat} {otherBlock : SmaBlock w VmMapping}
    {otherMapping : VmMapping} {old : VmRegion w Vnode}
    (otherPage : PageOf state other otherBlock otherMapping old position)
    (elsewhere :
      ¬ (other = space ∧
        pageAddress otherBlock.start position =
          pageAddress block.start index)) :
    (if otherMapping.region = mapping.region then old.setPage index slot
      else old).pages position = old.pages position := by
  by_cases sameRegion : otherMapping.region = mapping.region
  · obtain ⟨rfl, rfl, -⟩ := mirrors.same_owner sound page otherPage sameRegion
    have different : position ≠ index := by
      rintro rfl
      exact elsewhere ⟨rfl, rfl⟩
    simp [sameRegion, VmRegion.setPage, different]
  · rw [if_neg sameRegion]

theorem mirrors (mirrors : Mirrors state reference) (sound : VmSound state)
    (page : PageOf state space block mapping region index)
    (served :
      ServedPage state next reference after space
        (pageAddress block.start index) mapping.region index slot entry) :
    Mirrors next after := by
  refine ⟨?_, ?_, ?_, ?_⟩
  · intro other otherBlock otherMapping uses
    exact mirrors.isPrivate other otherBlock otherMapping
      (served.uses_iff.mp uses)
  · intro other otherBlock otherMapping changed position newPage
    obtain ⟨old, oldPage, rfl⟩ := served.pageOf_iff.mp newPage
    rw [served.mapped, mirrors.origin oldPage]
    split <;> rfl
  · intro other otherBlock otherMapping changed position newPage
    obtain ⟨old, oldPage, rfl⟩ := served.pageOf_iff.mp newPage
    rw [served.memory]
    by_cases here : other = space ∧
          pageAddress otherBlock.start position = pageAddress block.start index
    · obtain ⟨rfl, sameAddress⟩ := here
      obtain ⟨rfl, rfl, rfl, rfl⟩ := sound.same_page page oldPage sameAddress
      simp [VmRegion.setPage]
    · rw [if_neg here, mirrors.memory oldPage,
        pages_other mirrors sound page oldPage here]
      cases holds : old.pages position with
      | none =>
        rfl
      | some frame =>
        rw [Option.map_some, Option.map_some, served.bytes
          otherMapping.region position frame
          ((VmState.slot_of_live oldPage.live _).trans holds)]
  · intro other address pte present
    rw [served.table] at present
    by_cases here : other = space ∧ address = pageAddress block.start index
    · obtain ⟨rfl, rfl⟩ := here
      rw [if_pos ⟨rfl, rfl⟩] at present
      obtain ⟨isSlot, alone⟩ := served.shows pte present
      refine ⟨block, mapping, _, index,
        served.pageOf_iff.mpr ⟨region, page, rfl⟩, rfl, ?_, ?_⟩
      · simp [VmRegion.setPage, isSlot]
      · intro writable owner position holds
        rw [served.slot_eq page.live] at holds
        by_cases same : owner = mapping.region ∧ position = index
        · exact same
        · rw [if_neg same] at holds
          exact absurd holds (alone writable owner position)
    · rw [if_neg here] at present
      obtain ⟨otherBlock, otherMapping, old, position, oldPage, isAt, holds,
        alone⟩ := mirrors.entry other address pte present
      rw [isAt] at here
      refine ⟨otherBlock, otherMapping, _, position,
        served.pageOf_iff.mpr ⟨old, oldPage, rfl⟩, isAt,
        (pages_other mirrors sound page oldPage here).trans holds, ?_⟩
      intro writable owner held stillHolds
      rw [served.slot_eq page.live] at stillHolds
      by_cases same : owner = mapping.region ∧ held = index
      · rw [if_pos same] at stillHolds
        obtain ⟨rfl, rfl⟩ := same
        rcases served.fresh with isOld | ⟨frame, isNew, unused⟩
        · exact alone writable mapping.region held (isOld.symm.trans stillHolds)
        · have inUse := (VmState.slot_of_live oldPage.live position).trans holds
          rw [← stillHolds, isNew] at inUse
          exact absurd inUse (unused otherMapping.region position)
      · rw [if_neg same] at stillHolds
        exact alone writable owner held stillHolds

end ServedPage

theorem Mirrors.filled
    (mirrors : Mirrors state reference) (sound : VmSound state)
    (page : PageOf state space block mapping region index)
    {frame : Nat} {content : PageBytes}
    (notHeld : ∀ owner position, state.slot owner position ≠ some frame)
    (change :
      PageChange state next space (pageAddress block.start index)
        mapping.region index (some frame)
        (some { frame := frame, user := true, rw := true }))
    (bytes :
      ∀ other,
        next.bytes other =
          if other = frame then content else state.bytes other) :
    Mirrors next
      (reference.setPage space (pageAddress block.start index) content) := by
  refine ServedPage.mirrors mirrors sound page
    (ServedPage.mk change ?_ ?_ ?_ (.inr ⟨frame, rfl, notHeld⟩) ?_)
  · intro owner position other holds
    rw [bytes, if_neg]
    rintro rfl
    exact notHeld owner position holds
  · exact RefState.setPage_mapped
  · intro other address
    rw [RefState.setPage_memory, Option.map_some, bytes, if_pos rfl]
  · intro pte isPte
    rw [Option.some.injEq] at isPte
    subst isPte
    exact ⟨rfl, fun _ => notHeld⟩

/-- A served fault keeps what the spaces show. -/
theorem Mirrors.served
    (mirrors : Mirrors state reference) (sound : VmSound state)
    (page : PageOf state space block mapping region index)
    {rw : Bool} {read : VnodeRead Vnode} {frame : Nat} {result : Int}
    (unused : state.pages frame = none)
    (isServed :
      Served state space block.start mapping region index rw read frame
        next result) :
    Mirrors next
      (if result = 0 then
        reference.touch space (pageAddress block.start index) read
      else reference) := by
  obtain ⟨writable, isPrivate⟩ := mirrors.isPrivate _ _ _ page.uses
  have isSlot : state.slot mapping.region index = region.pages index :=
    VmState.slot_of_live page.live index
  have content := mirrors.memory page
  have notHeld : ∀ owner position, state.slot owner position ≠ some frame :=
    fun owner position => sound.counted.unused unused
  have missing : region.pages index = none ∨ mapping.has mapShared = true →
        region.pages index = none := by
    rintro (none | shared)
    · exact none
    · rw [isPrivate] at shared
      simp at shared
  cases isServed with
  | refused readOnly write =>
    rw [writable] at readOnly
    simp at readOnly
  | @shows shown holds _ reads =>
    rw [holds, Option.map_some] at content
    rw [if_pos rfl, RefState.touch_of_memory content]
    refine ServedPage.mirrors mirrors sound page
      (ServedPage.mk (.shown page.live holds _) ?_ ?_ ?_ ?_ ?_)
    · exact fun _ _ _ _ => rfl
    · exact fun _ => rfl
    · intro other address
      by_cases here : other = space ∧ address = pageAddress block.start index
      · rw [if_pos here, here.1, here.2, content]
        rfl
      · rw [if_neg here]
    · exact .inl (holds.symm.trans isSlot.symm)
    · intro pte isPte
      rw [Option.some.injEq] at isPte
      subst isPte
      simp
  | @copies shown holds _ writes =>
    rw [holds, Option.map_some] at content
    rw [if_pos rfl, RefState.touch_of_memory content,
      ← RefState.setPage_self content]
    exact mirrors.filled sound page notHeld
      (.copied page.live shown frame) fun _ => rfl
  | @fetches filled isMissing isContent =>
    rw [missing isMissing, Option.map_none] at content
    have touched : reference.touch space (pageAddress block.start index) read =
          reference.setPage space (pageAddress block.start index) filled := by
      rw [VmRegion.source] at isContent
      simp only [RefState.touch, content, mirrors.origin page, isContent]
    rw [if_pos rfl, touched]
    exact mirrors.filled sound page notHeld
      (.fetched page.live frame filled) fun _ => rfl
  | @fails err isMissing isError =>
    rw [missing isMissing, Option.map_none] at content
    rw [if_neg (by decide)]
    refine ServedPage.mirrors mirrors sound page
      (ServedPage.mk (.failed page.live) ?_ ?_ ?_ ?_ ?_)
    · exact fun _ _ _ _ => rfl
    · exact fun _ => rfl
    · intro other address
      by_cases here : other = space ∧ address = pageAddress block.start index
      · rw [if_pos here, here.1, here.2, content]
        rfl
      · rw [if_neg here]
    · exact .inl ((missing isMissing).symm.trans isSlot.symm)
    · intro pte isPte
      simp at isPte

end Steps

/-- Every page fault lies less than two gigabytes into its mapping. -/
def NearFault (state : VmState w Vnode) : VmLabel w Vnode → Prop
  | .fault space address _ _ _ _ =>
    ∀ block ∈ (state.spaces space).area.usedList, block.hits address = true →
      address.toNat - block.start.toNat < 2 ^ 31
  | _ => True

instance
    (state : VmState w Vnode)
    (label : VmLabel w Vnode) :
    Decidable (NearFault state label) :=
  match label with
  | .clone _ _ => isTrue trivial
  | .fault space address _ _ _ _ =>
    inferInstanceAs
      (Decidable
        (∀ block ∈ (state.spaces space).area.usedList,
          block.hits address = true →
          address.toNat - block.start.toNat < 2 ^ 31))
  | .store _ _ _ => isTrue trivial

theorem Mirrors.fault (wide : 32 ≤ w)
    {state next : VmState w Vnode} {reference : RefState w Vnode}
    (mirrors : Mirrors state reference) (sound : VmSound state)
    {space frame : Nat} {address : BitVec w} {rw : Bool}
    {read : VnodeRead Vnode} {result : Int}
    (near : NearFault state (.fault space address rw read frame result))
    (unused : state.pages frame = none)
    (returns :
      vmPagefault state space address rw read frame = some (next, result)) :
    Mirrors next
      (reference.step (.fault space address rw read frame result)) := by
  rcases sound.vmPagefault_served wide returns with
    ⟨rfl, failed⟩ | ⟨block, mapping, region, index, uses, hits, live,
      bounded, -, served, atPage⟩
  · rw [RefState.step, if_neg failed]
    exact mirrors
  · obtain ⟨cell, isCell, sameSize, -⟩ := sound.live _ _ _ uses
    rw [live, Option.some.injEq] at isCell
    subst isCell
    have page : PageOf state space block mapping region index :=
      ⟨uses, live, by rw [← sameSize]; exact bounded⟩
    rw [RefState.step, ← atPage (near block uses.1 hits)]
    exact mirrors.served sound page unused served

namespace Cloning

variable {state : VmState w Vnode} {src dest : Nat}
  {front behind : List (SmaBlock w VmMapping)}
  {block newBlock : SmaBlock w VmMapping} {mapping : VmMapping}
  {region : VmRegion w Vnode} {area : SmaArea w VmMapping}

theorem slot_splitMapping (cloning : Cloning state src dest front block behind)
    (isMapping : block.dataptr = some mapping)
    (live : state.regions.cells mapping.region = some region)
    (splits : sharesRegion mapping region = false) {owner position frame : Nat}
    (holds :
      (splitMapping state src dest front block behind mapping region
        newBlock area).slot owner position = some frame) :
    state.slot mapping.region position = some frame ∨
      state.slot owner position = some frame ∧ owner ≠ mapping.region := by
  have split := splitRegion_of_cloning cloning isMapping live splits
  have held : (splitRegion state src block mapping.region region).slot
      owner position = some frame := holds
  have ofRegion : ∀ pointer,
        (splitRegion state src block mapping.region region).regions.cells
          pointer = some region →
        (splitRegion state src block mapping.region region).slot pointer
          position = some frame →
        state.slot mapping.region position = some frame := by
    intro pointer isRegion inRegion
    rw [VmState.slot_of_live isRegion] at inRegion
    exact (VmState.slot_of_live live position).trans inRegion
  by_cases isOld : owner = mapping.region
  · rw [isOld, VmState.slot, split.gone] at held
    simp at held
  · by_cases isParent : owner = state.regions.next
    · exact .inl (ofRegion _ split.parentCell (isParent ▸ held))
    · by_cases isChild : owner = state.regions.next + 1
      · exact .inl (ofRegion _ split.childCell (isChild ▸ held))
      · rw [VmState.slot, split.others _ isOld isParent isChild] at held
        exact .inr ⟨held, isOld⟩

/-- The clone of a block shows what the source shows. -/
theorem mirrors_splitMapping
    (cloning : Cloning state src dest front block behind)
    {reference : RefState w Vnode} (mirrors : Mirrors state reference)
    (copied : reference dest = reference src)
    (isMapping : block.dataptr = some mapping)
    (live : state.regions.cells mapping.region = some region)
    (fixed :
      FixedAlloc (state.spaces dest).area area block.start block.size newBlock)
    (splits : sharesRegion mapping region = false) :
    Mirrors
      (splitMapping state src dest front block behind mapping region
        newBlock area)
      reference := by
  have sound := cloning.sound
  have split := splitRegion_of_cloning cloning isMapping live splits
  have bytes :
      (splitMapping state src dest front block behind mapping region
        newBlock area).bytes = state.bytes := split.bytes
  have keptPage : ∀ {index}, index < pageCount block.size →
        PageOf
          (splitMapping state src dest front block behind mapping region
            newBlock area)
          src (keptBlock state block mapping)
          { mapping with region := state.regions.next } region index :=
    fun bounded => ⟨uses_keptBlock cloning split, split.parentCell, bounded⟩
  have oldPage : ∀ {space other otherMapping cell index},
        PageOf
          (splitMapping state src dest front block behind mapping region
            newBlock area)
          space other otherMapping cell index →
        ∃ oldSpace old oldMapping,
          PageOf state oldSpace old oldMapping cell index ∧
            old.start = other.start ∧
            reference oldSpace = reference space := by
    rintro space other otherMapping cell index ⟨used, isCell, bounded⟩
    obtain ⟨oldSpace, old, oldMapping, oldUses, sameStart, sameSize, -,
      sameCells, sameSpace⟩ :=
      origin_splitMapping cloning isMapping live fixed splits used
    refine ⟨oldSpace, old, oldMapping,
      ⟨oldUses, sameCells.symm.trans isCell, by rw [sameSize]; exact bounded⟩,
      sameStart, ?_⟩
    rcases sameSpace with rfl | ⟨rfl, rfl⟩
    · rfl
    · exact copied.symm
  refine ⟨?_, ?_, ?_, ?_⟩
  · intro space other otherMapping used
    obtain ⟨oldSpace, old, oldMapping, oldUses, -, -, sameFlags, -⟩ :=
      origin_splitMapping cloning isMapping live fixed splits used
    have isPrivate := mirrors.isPrivate oldSpace old oldMapping oldUses
    rw [VmMapping.has, VmMapping.has, sameFlags] at isPrivate
    exact isPrivate
  · intro space other otherMapping cell index newPage
    obtain ⟨oldSpace, old, oldMapping, page, sameStart, sameSpace⟩ :=
      oldPage newPage
    rw [← sameSpace, ← sameStart]
    exact mirrors.origin page
  · intro space other otherMapping cell index newPage
    obtain ⟨oldSpace, old, oldMapping, page, sameStart, sameSpace⟩ :=
      oldPage newPage
    rw [← sameSpace, ← sameStart, bytes]
    exact mirrors.memory page
  · intro space address pte present
    rw [pageTable_splitMapping] at present
    rcases split.table space address with
      same | ⟨index, bounded, frame, rfl, rfl, holds, isReadOnly⟩
    · obtain ⟨other, otherMapping, cell, index, page, isAt, holds, alone⟩ :=
        mirrors.entry space address pte (same.symm.trans present)
      by_cases here : space = src ∧ other = block
      · obtain ⟨rfl, rfl⟩ := here
        have sameMapping := page.uses.2.symm.trans isMapping
        rw [Option.some.injEq] at sameMapping
        subst sameMapping
        have sameCell := page.live.symm.trans live
        rw [Option.some.injEq] at sameCell
        subst sameCell
        refine ⟨_, _, cell, index, keptPage page.bounded, isAt, holds, ?_⟩
        -- the clone has made this entry read-only
        intro writable
        obtain ⟨shown, isShown, readOnly⟩ :=
          split.readOnly index page.bounded pte.frame holds
        rw [← isAt, present, Option.some.injEq] at isShown
        rw [← isShown, writable] at readOnly
        simp at readOnly
      · have apart : otherMapping.region ≠ mapping.region := by
          intro sameRegion
          obtain ⟨isSrc, isBlock⟩ :=
            sound.alone _ _ _ _ _ _ region (cloning.uses isMapping)
              page.uses sameRegion.symm live splits
          exact here ⟨isSrc.symm, isBlock.symm⟩
        have below := Heap.lt_next page.live
        refine ⟨other, otherMapping, cell, index,
          ⟨uses_splitMapping_of_old cloning split page.uses here, ?_,
            page.bounded⟩, isAt, holds, ?_⟩
        · exact (split.others _ apart (by omega) (by omega)).trans page.live
        · intro writable owner position stillHolds
          rcases slot_splitMapping cloning isMapping live splits
            stillHolds with ofSplit | ⟨old, -⟩
          · exact absurd (alone writable _ _ ofSplit).1.symm apart
          · exact alone writable owner position old
    · rw [isReadOnly, Option.some.injEq] at present
      subst present
      exact ⟨_, _, region, index, keptPage bounded, rfl, holds, by simp⟩

end Cloning

section Clones

variable {memory : UserMemory w} {state next : VmState w Vnode}
  {reference : RefState w Vnode} {src dest : Nat}

theorem Mirrors.copy (mirrors : Mirrors state reference)
    (fresh : state.spaces dest = vmSpaceCreate memory) (src : Nat) :
    Mirrors state (reference.step (.clone dest src)) := by
  have elsewhere : ∀ {space block mapping region index},
        PageOf state space block mapping region index → space ≠ dest := by
    rintro space block mapping region index page rfl
    have member := page.uses.1
    rw [fresh] at member
    simp [vmSpaceCreate, vmSpaceArea, smaAreaCreate] at member
  refine ⟨mirrors.isPrivate, ?_, ?_, mirrors.entry⟩
  · intro space block mapping region index page
    simp only [RefState.step, if_neg (elsewhere page)]
    exact mirrors.origin page
  · intro space block mapping region index page
    simp only [RefState.step, if_neg (elsewhere page)]
    exact mirrors.memory page

theorem Mirrors.vmClone (mirrors : Mirrors state reference)
    (copied : reference dest = reference src)
    {front behind : List (SmaBlock w VmMapping)}
    {block kept : SmaBlock w VmMapping}
    (cloning : Cloning state src dest front block behind)
    (returns :
      vmClone state src dest front block behind = some (next, .ok kept)) :
    Mirrors next reference := by
  obtain ⟨mapping, region, newBlock, area, isMapping, live, allocated,
    outcome⟩ := vmClone_ok returns
  obtain ⟨writable, isPrivate⟩ :=
    mirrors.isPrivate src block mapping (cloning.uses isMapping)
  have splits := sharesRegion_eq_false writable isPrivate region
  rcases outcome with ⟨shares, -⟩ | ⟨-, -, rfl⟩
  · rw [splits] at shares
    simp at shares
  · exact cloning.mirrors_splitMapping mirrors copied isMapping live
      (smaAlloc_fixed allocated) splits

theorem Mirrors.clone
    (mirrors : Mirrors state reference) (sound : VmSound state)
    (fresh : state.spaces dest = vmSpaceCreate memory) (different : dest ≠ src)
    (returns : vmSpaceClone state dest src = some (next, .ok ())) :
    Mirrors next (reference.step (.clone dest src)) := by
  have copied : reference.step (.clone dest src) dest =
        reference.step (.clone dest src) src := by
    simp [RefState.step]
  have keeps : ∀ {state next front block behind kept},
        Cloning state src dest front block behind →
        Mirrors state (reference.step (.clone dest src)) →
        Mm.vmClone state src dest front block behind = some (next, .ok kept) →
        Mirrors next (reference.step (.clone dest src)) :=
    fun cloning shown cloned => shown.vmClone copied cloning cloned
  exact (vmSpaceClone_preserves sound fresh different keeps
    (mirrors.copy fresh src) returns).2

theorem Mirrors.step (wide : 32 ≤ w) {label : VmLabel w Vnode}
    (mirrors : Mirrors state reference) (sound : VmSound state)
    (near : NearFault state label) (step : VmStep memory state label next) :
    Mirrors next (reference.step label) := by
  cases step with
  | clone fresh different returns =>
    exact mirrors.clone sound fresh different returns
  | fault unused returns =>
    exact mirrors.fault wide sound near unused returns
  | store writes =>
    exact mirrors.store sound writes

end Clones

/-- Every byte that an address space observes is that of the reference. -/
def ShowsReference (state : VmState w Vnode)
    (reference : RefState w Vnode) : Prop :=
  ∀ space address byte, state.load space address = some byte →
    reference.load space address = some byte

/--
Every page fault of a mapping that meets the condition succeeds when the
files can be read, maps the page with the access that was asked for, and
shows the reference.
-/
def ServesFaults (condition : VmState w Vnode → VmLabel w Vnode → Prop)
    (state : VmState w Vnode) (reference : RefState w Vnode) : Prop :=
  ∀ space block address rw read frame,
    block ∈ (state.spaces space).area.usedList →
    block.hits address = true →
    condition state (.fault space address rw read frame 0) →
    state.pages frame = none →
    (∀ file offset, ∃ data, read file offset = .ok data) →
    ∃ next pte,
      vmPagefault state space address rw read frame = some (next, 0) ∧
        next.translate space address = some pte ∧
        pte.user = true ∧ (rw = true → pte.rw = true) ∧
        ShowsReference next
          (reference.step (.fault space address rw read frame 0))

theorem Mirrors.shows {state : VmState w Vnode} {reference : RefState w Vnode}
    (mirrors : Mirrors state reference) : ShowsReference state reference := by
  intro space address byte loaded
  unfold VmState.load at loaded
  cases translated : state.translate space address with
  | none =>
    simp [translated] at loaded
  | some pte =>
    obtain ⟨block, mapping, region, index, page, isAt, holds, -⟩ :=
      mirrors.entry space _ pte translated
    have content := mirrors.memory page
    rw [holds, Option.map_some, ← isAt] at content
    simp only [translated] at loaded
    split at loaded
    · rw [RefState.load, content]
      exact loaded
    · simp at loaded

theorem Mirrors.servesFaults (wide : 32 ≤ w) {reference : RefState w Vnode}
    (mirrors : Mirrors state reference) (sound : VmSound state) :
    ServesFaults NearFault state reference := by
  intro space block address rw read frame member hits near unused readable
  obtain ⟨mapping, isMapping⟩ := sound.mapped space block member
  have uses : state.Uses space block mapping := ⟨member, isMapping⟩
  obtain ⟨writable, isPrivate⟩ := mirrors.isPrivate space block mapping uses
  obtain ⟨region, live, sameSize, hasVnode⟩ := sound.live _ _ _ uses
  obtain ⟨next, result, returns, -, atPage, served⟩ :=
    sound.vmPagefault_near wide uses hits live (near block member hits) rw
      read frame
  have shows : result = 0 →
      ShowsReference next
        (reference.step (.fault space address rw read frame 0)) := by
    rintro rfl
    exact (mirrors.fault wide sound near unused returns).shows
  cases served with
  | refused readOnly write =>
    rw [writable] at readOnly
    simp at readOnly
  | @shows page holds _ reads =>
    refine ⟨_, { frame := page, user := true, rw := false }, returns, ?_,
      rfl, by simp [reads], shows rfl⟩
    rw [VmState.translate, ← atPage, VmState.mapPage_pageTable,
      if_pos ⟨rfl, rfl⟩]
  | @copies page holds _ writes | fetches missing isContent =>
    refine ⟨_, { frame := frame, user := true, rw := true }, returns, ?_,
      rfl, fun _ => rfl, shows rfl⟩
    rw [VmState.translate, ← atPage, VmState.mapPage_pageTable,
      if_pos ⟨rfl, rfl⟩]
  | fails missing isError =>
    exact absurd isError (VmRegion.source_readable readable)

/--
In a run without far page faults every address space observes the bytes of
the reference, and every page that it has mapped can be faulted in.
-/
theorem vmSpaces_refine_copies (wide : 32 ≤ w)
    {memory : UserMemory w} {first last : VmState w Vnode}
    {labels : List (VmLabel w Vnode)} (spaces : PrivateSpaces first)
    (run : Run (Guarded NearFault (VmStep memory)) first labels last) :
    ShowsReference last (labels.foldl RefState.step first.reference) ∧
      ServesFaults NearFault last
        (labels.foldl RefState.step first.reference) := by
  have reached : VmSound last ∧
        Mirrors last (labels.foldl RefState.step first.reference) := by
    refine run.invariant
      (fun past state =>
        VmSound state ∧
          Mirrors state (past.foldl RefState.step first.reference))
      ⟨spaces.sound, spaces.mirrors⟩ ?_
    rintro past state label next ⟨sound, mirrors⟩ ⟨near, step⟩
    rw [List.foldl_append, List.foldl_cons, List.foldl_nil]
    exact ⟨step.sound wide sound, mirrors.step wide sound near step⟩
  obtain ⟨sound, mirrors⟩ := reached
  exact ⟨mirrors.shows, mirrors.servesFaults wide sound⟩

/-- The request asks for a private writable mapping. -/
def AsksPrivate (label : SpaceMmap w Vnode) : Prop :=
  label.call.request.flags &&& protWrite = protWrite ∧
    label.call.request.flags &&& mapShared ≠ mapShared

theorem privateSpaces_of_run (wide : 32 ≤ w) {memory : UserMemory w}
    (below : memory.start.toNat + memory.size.toNat < 2 ^ w)
    {bytes : Nat → PageBytes} {past : List (SpaceMmap w Vnode)}
    (run :
      Run
        (Guarded (fun source label =>
          SetUpStays source label ∧ AsksPrivate label) SetUpStep)
        (VmState.boot memory bytes) past state) : PrivateSpaces state := by
  have reached : SetUp memory state ∧
        ∀ space block mapping, state.Uses space block mapping →
          mapping.has protWrite = true ∧ mapping.has mapShared = false := by
    refine run.invariant
      (fun _ reached =>
        SetUp memory reached ∧
          ∀ space block mapping, reached.Uses space block mapping →
            mapping.has protWrite = true ∧ mapping.has mapShared = false)
      ⟨setUp_boot wide memory bytes, ?_⟩ ?_
    · rintro space block mapping ⟨member, -⟩
      simp [VmState.boot, vmSpaceCreate, vmSpaceArea, smaAreaCreate] at member
    · rintro _ source label _ ⟨setUp, isPrivate⟩
        ⟨⟨stays, writable, notShared⟩, rfl⟩
      refine ⟨setUp.vmSpaceMmap wide stays, ?_⟩
      intro space block mapping used
      rcases uses_vmSpaceMmap used with sameFlags | old
      · simp [VmMapping.has, sameFlags, writable, notShared]
      · exact isPrivate space block mapping old
  obtain ⟨setUp, isPrivate⟩ := reached
  refine ⟨setUp.sound below, isPrivate, ?_, setUp.no_entries⟩
  intro pointer index
  unfold VmState.slot
  cases isCell : state.regions.cells pointer with
  | none =>
    rfl
  | some region =>
    exact (setUp.unshared pointer region isCell).2 index

/-- One address space with anonymous memory from the start of user memory. -/
def mappedSpace (length : BitVec 32) : VmState 32 Unit :=
  vmSpaceMmap (VmState.boot userMemory32 fun _ => zeroPage) 0
    (mapFromStart length)

theorem mappedSpace_private {length : BitVec 32}
    (fits : 0x00400000 + length.toNat ≤ 0xC0000000) :
    PrivateSpaces (mappedSpace length) := by
  have stays : SetUpStays (VmState.boot userMemory32 fun _ => zeroPage)
        ⟨0, mapFromStart length⟩ := by
    refine ⟨boot_staysInBlock fits, ?_⟩
    intro fd file isOpen
    simp [mapFromStart] at isOpen
  have asks : AsksPrivate (⟨0, mapFromStart length⟩ : SpaceMmap 32 Unit) :=
    ⟨(by decide :
        (protRead ||| protWrite ||| mapAnonymous) &&& protWrite = protWrite),
      (by decide :
        (protRead ||| protWrite ||| mapAnonymous) &&& mapShared ≠ mapShared)⟩
  exact privateSpaces_of_run (by decide) (by decide)
    (Run.single ⟨⟨stays, asks⟩, rfl⟩)

/-- A file system without files. -/
def noFiles : VnodeRead Unit := fun _ _ => .ok []

/-- The state after a label, or the same state where it is undefined. -/
def VmState.after (state : VmState w Vnode) : VmLabel w Vnode → VmState w Vnode
  | .clone dest src =>
    ((vmSpaceClone state dest src).map Prod.fst).getD state
  | .fault space address rw read frame _ =>
    ((vmPagefault state space address rw read frame).map Prod.fst).getD state
  | .store space address byte => (state.store space address byte).getD state

/-- A page is written, cloned, and written again in the clone. -/
def writeCloneWrite : List (VmLabel 32 Unit) :=
  [.fault 0 0x00400000 true noFiles 1 0, .store 0 0x00400000 7, .clone 1 0,
    .fault 1 0x00400000 true noFiles 2 0,
    .store 1 0x00400000 9]

/-- The source of the clone keeps its byte. -/
theorem writeCloneWrite_isolated :
    (writeCloneWrite.foldl VmState.after (mappedSpace 0x1000)).load 0
        0x00400000 = some 7 ∧
      ShowsReference (writeCloneWrite.foldl VmState.after (mappedSpace 0x1000))
        (writeCloneWrite.foldl RefState.step
          (mappedSpace 0x1000).reference) := by
  have run : Run (Guarded NearFault (VmStep userMemory32)) (mappedSpace 0x1000)
        writeCloneWrite
        (writeCloneWrite.foldl VmState.after (mappedSpace 0x1000)) :=
    .extend (.extend (.extend (.extend (.extend .start
      ⟨by decide, .fault rfl rfl⟩) ⟨trivial, .store rfl⟩)
      ⟨trivial, .clone rfl (by decide) rfl⟩)
      ⟨by decide, .fault rfl rfl⟩) ⟨trivial, .store rfl⟩
  exact ⟨rfl,
    (vmSpaces_refine_copies (by decide) (mappedSpace_private (by decide))
      run).1⟩

/--
A mapping of more than two gigabytes has pages that no fault can bring in:
their index leaves `region->pages`.
-/
theorem vmPagefault_leaves_page_array :
    ¬ ∀ {first last : VmState 32 Unit} {labels : List (VmLabel 32 Unit)},
      PrivateSpaces first →
      Run (VmStep userMemory32) first labels last →
      ShowsReference last (labels.foldl RefState.step first.reference) ∧
        ServesFaults (fun _ _ => True) last
          (labels.foldl RefState.step first.reference) := by
  intro isolated
  have spaces : PrivateSpaces (mappedSpace 0x90000000) :=
    mappedSpace_private (by decide)
  have serves := (isolated spaces .start).2
  have member : SmaBlock.mk smaFlagsUsed 0x00400000 0x90000000
          (some
            { flags := protRead ||| protWrite ||| mapAnonymous
              region := 0
              offset := 0 }) ∈
        ((mappedSpace 0x90000000).spaces 0).area.usedList :=
    List.mem_singleton.mpr rfl
  obtain ⟨next, pte, returns, -⟩ :=
    serves 0 _ 0x80400000 true noFiles 1 member (by decide) trivial rfl
      fun _ _ => ⟨[], rfl⟩
  have undefined :
      vmPagefault (mappedSpace 0x90000000) 0 0x80400000 true noFiles 1 = none :=
    rfl
  rw [undefined] at returns
  simp at returns

end Idylla.Mm
