import Idylla.Mm.VmSpace

namespace Idylla.Mm

open Idylla.Lib

/-!
# Page reference counts

A page is never freed while a region still holds it: the reference count of a
frame bounds the number of region slots that hold it.  A slot that is
overwritten without a release makes the bound loose, which is safe.
-/

variable {w : Nat} {Vnode : Type}

/-- One entry of a table of slots replaced. -/
def setEntry (slot : Nat → Nat → Option Nat) (region index : Nat)
    (page : Option Nat) : Nat → Nat → Option Nat :=
  fun other position =>
    if other = region ∧ position = index then page
    else slot other position

/-- Every slot that holds a frame is counted by the page of the frame. -/
def CountedBy (pages : Nat → Option Nat)
    (slot : Nat → Nat → Option Nat) : Prop :=
  ∀ frame, ∃ owners : List (Nat × Nat),
    owners.length ≤ (pages frame).getD 0 ∧
      ∀ region index, slot region index = some frame → (region, index) ∈ owners

/-- The reference counts of a state cover its slots. -/
def Counted (state : VmState w Vnode) : Prop :=
  CountedBy state.pages state.slot

namespace CountedBy

variable {pages after : Nat → Option Nat} {slot : Nat → Nat → Option Nat}
  {region index frame : Nat}

variable (counted : CountedBy pages slot)

include counted

theorem unused (free : pages frame = none) :
    slot region index ≠ some frame := by
  intro holds
  obtain ⟨owners, bounded, covers⟩ := counted frame
  have member := covers region index holds
  rw [free, Option.getD_none, Nat.le_zero, List.length_eq_zero_iff] at bounded
  simp [bounded] at member

theorem clear (region index : Nat) :
    CountedBy pages (setEntry slot region index none) := by
  intro frame
  obtain ⟨owners, bounded, covers⟩ := counted frame
  refine ⟨owners, bounded, ?_⟩
  intro other position holds
  unfold setEntry at holds
  split at holds
  · simp at holds
  · exact covers other position holds

theorem fill (raised : (pages frame).getD 0 + 1 ≤ (after frame).getD 0)
    (others : ∀ other, other ≠ frame → after other = pages other)
    (region index : Nat) :
    CountedBy after (setEntry slot region index (some frame)) := by
  intro other
  obtain ⟨owners, bounded, covers⟩ := counted other
  by_cases same : other = frame
  · subst same
    refine ⟨(region, index) :: owners, ?_, ?_⟩
    · rw [List.length_cons]
      omega
    · intro owner position holds
      unfold setEntry at holds
      split at holds
      next here => simp [here.1, here.2]
      · exact List.mem_cons_of_mem _ (covers owner position holds)
  · refine ⟨owners, by rw [others other same]; exact bounded, ?_⟩
    intro owner position holds
    unfold setEntry at holds
    split at holds
    · exact absurd (Option.some.inj holds).symm same
    · exact covers owner position holds

theorem release (holds : slot region index = some frame)
    (lowered : (pages frame).getD 0 ≤ (after frame).getD 0 + 1)
    (others : ∀ other, other ≠ frame → after other = pages other) :
    CountedBy after (setEntry slot region index none) := by
  intro other
  obtain ⟨owners, bounded, covers⟩ := counted other
  by_cases same : other = frame
  · subst same
    have member := covers region index holds
    refine ⟨owners.erase (region, index), ?_, ?_⟩
    · rw [List.length_erase_of_mem member]
      omega
    · intro owner position stillHolds
      unfold setEntry at stillHolds
      split at stillHolds
      · simp at stillHolds
      next elsewhere =>
        refine (List.mem_erase_of_ne ?_).mpr (covers owner position stillHolds)
        rintro ⟨rfl, rfl⟩
        exact elsewhere ⟨rfl, rfl⟩
  · refine ⟨owners, by rw [others other same]; exact bounded, ?_⟩
    intro owner position stillHolds
    unfold setEntry at stillHolds
    split at stillHolds
    · simp at stillHolds
    · exact covers owner position stillHolds

end CountedBy

namespace VmState

variable {state : VmState w Vnode} {region : Nat} {cell : VmRegion w Vnode}

theorem slot_setSlot_eq (live : state.regions.cells region = some cell)
    (index : Nat) (page : Option Nat) :
    (state.setSlot region index page).slot =
      setEntry state.slot region index page := by
  funext other position
  exact slot_setSlot region index page live other position

theorem setSlot_cells_same (live : state.regions.cells region = some cell)
    (index : Nat) (page : Option Nat) :
    (state.setSlot region index page).regions.cells region =
      some
        { cell with
          pages := fun other =>
            if other = index then page else cell.pages other } := by
  simp [setSlot, live]

theorem setSlot_cells_other {other : Nat} (different : other ≠ region)
    (index : Nat) (page : Option Nat) :
    (state.setSlot region index page).regions.cells other =
      state.regions.cells other := by
  simp [setSlot, Heap.cells_modify_of_ne different]

theorem slot_of_live (live : state.regions.cells region = some cell)
    (index : Nat) : state.slot region index = cell.pages index := by
  simp [slot, live]

end VmState

namespace Counted

variable {state : VmState w Vnode} {region : Nat} {cell : VmRegion w Vnode}

section

variable (counted : Counted state)

include counted

theorem congr {after : VmState w Vnode} (samePages : after.pages = state.pages)
    (sameSlots : after.slot = state.slot) : Counted after := by
  unfold Counted
  rw [samePages, sameSlots]
  exact counted

variable {frame : Nat}

theorem in_use {index : Nat} (holds : state.slot region index = some frame) :
    state.pages frame ≠ none :=
  fun free => counted.unused free holds

theorem holdSlot (live : state.regions.cells region = some cell)
    (inUse : state.pages frame ≠ none) (index : Nat) :
    Counted ((state.holdPage frame).setSlot region index (some frame)) := by
  have slots : ((state.holdPage frame).setSlot region index (some frame)).slot =
        setEntry state.slot region index (some frame) :=
    @VmState.slot_setSlot_eq _ _ (state.holdPage frame) _ _ live index _
  unfold Counted
  rw [slots]
  refine CountedBy.fill counted ?_ ?_ region index
  · obtain ⟨refs, isRefs⟩ := Option.ne_none_iff_exists'.mp inUse
    simp [VmState.holdPage, isRefs]
  · intro other different
    simp [VmState.holdPage, different]

theorem newSlot (live : state.regions.cells region = some cell)
    (unused : state.pages frame = none) (content : PageBytes) (index : Nat) :
    Counted
      ((state.newPage frame content).setSlot region index (some frame)) := by
  have slots :
      ((state.newPage frame content).setSlot region index (some frame)).slot =
        setEntry state.slot region index (some frame) :=
    @VmState.slot_setSlot_eq _ _ (state.newPage frame content) _ _ live index _
  unfold Counted
  rw [slots]
  refine CountedBy.fill counted ?_ ?_ region index
  · simp [VmState.newPage, unused]
  · intro other different
    simp [VmState.newPage, different]

theorem clearSlot (live : state.regions.cells region = some cell)
    (index : Nat) : Counted (state.setSlot region index none) := by
  unfold Counted
  rw [VmState.slot_setSlot_eq live]
  exact CountedBy.clear counted region index

end

theorem releasePage_getD (state : VmState w Vnode) (frame : Nat) :
    (state.pages frame).getD 0 ≤
      ((state.releasePage frame).pages frame).getD 0 + 1 := by
  cases isRefs : state.pages frame with
  | none =>
    simp
  | some refs =>
    by_cases last : refs - 1 = 0
    · simp [VmState.releasePage, isRefs, last]
      omega
    · simp [VmState.releasePage, isRefs, last]
      omega

theorem releasePage_other (state : VmState w Vnode) {frame other : Nat}
    (different : other ≠ frame) :
    (state.releasePage frame).pages other = state.pages other := by
  simp [VmState.releasePage, different]

theorem releaseSlot (counted : Counted state)
    (live : state.regions.cells region = some cell) (index : Nat) :
    Counted (Mm.releaseSlot state region index) := by
  unfold Mm.releaseSlot
  cases holds : state.slot region index with
  | none =>
    exact counted
  | some frame =>
    have slots : ((state.releasePage frame).setSlot region index none).slot =
          setEntry state.slot region index none :=
      @VmState.slot_setSlot_eq _ _ (state.releasePage frame) _ _ live index _
    unfold Counted
    rw [slots]
    exact CountedBy.release counted holds (releasePage_getD state frame)
      (fun other different => releasePage_other state different)

/--
A slot whose page is copied: the new page takes the place of the old one,
which is released.
-/
theorem copySlot (counted : Counted state)
    (live : state.regions.cells region = some cell) {index old frame : Nat}
    (holds : state.slot region index = some old)
    (unused : state.pages frame = none) (space : Nat) (virt : BitVec w) :
    Counted
      ((vmCopyPage state space virt old frame).setSlot region index
        (some frame)) := by
  have different : frame ≠ old := by
    rintro rfl
    exact counted.in_use holds unused
  have released : CountedBy (state.releasePage old).pages
        (setEntry state.slot region index none) :=
    CountedBy.release counted holds (releasePage_getD state old)
      (fun other differs => releasePage_other state differs)
  have filled : CountedBy (vmCopyPage state space virt old frame).pages
        (setEntry (setEntry state.slot region index none) region index
          (some frame)) := by
    refine CountedBy.fill released ?_ ?_ region index
    · rw [releasePage_other state different, unused]
      simp [vmCopyPage, VmState.releasePage, VmState.newPage, different]
    · intro other differs
      simp [vmCopyPage, VmState.releasePage, VmState.newPage, differs,
        Ne.symm different]
  have slots :
      ((vmCopyPage state space virt old frame).setSlot region index
          (some frame)).slot =
        setEntry (setEntry state.slot region index none) region index
          (some frame) := by
    have once :
        ((vmCopyPage state space virt old frame).setSlot region index
            (some frame)).slot =
          setEntry state.slot region index (some frame) :=
      @VmState.slot_setSlot_eq _ _
        (vmCopyPage state space virt old frame) _ _ live index _
    rw [once]
    funext other position
    unfold setEntry
    split <;> rfl
  unfold Counted
  rw [slots]
  exact filled

end Counted

namespace VmRegion

/-- A region with one page slot replaced. -/
def setPage (region : VmRegion w Vnode) (index : Nat)
    (page : Option Nat) : VmRegion w Vnode :=
  { region with
    pages := fun other =>
      if other = index then page else region.pages other }

/-- A region that keeps its first pages only. -/
def firstPages (region : VmRegion w Vnode) (count : Nat) : VmRegion w Vnode :=
  { region with
    pages := fun index =>
      if index < count then region.pages index else none }

/-- A region that has lost its first pages. -/
def laterPages (region : VmRegion w Vnode) (count : Nat) : VmRegion w Vnode :=
  { region with
    pages := fun index =>
      if index < count then none else region.pages index }

theorem pages_firstPages {region : VmRegion w Vnode} {count : Nat}
    (within : ∀ index, count ≤ index → region.pages index = none) :
    (region.firstPages count).pages = region.pages := by
  funext index
  by_cases isFirst : index < count
  · simp [firstPages, isFirst]
  · simp [firstPages, isFirst, within index (Nat.not_lt.mp isFirst)]

theorem firstPages_succ (region : VmRegion w Vnode) (count : Nat) :
    region.firstPages (count + 1) =
      (region.firstPages count).setPage count (region.pages count) := by
  simp only [firstPages, setPage, mk.injEq, true_and, and_true]
  funext other
  by_cases here : other = count
  · simp [here]
  · have same : other < count + 1 ↔ other < count := by omega
    simp [here, same]

theorem laterPages_succ (region : VmRegion w Vnode) (count : Nat) :
    region.laterPages (count + 1) =
      (region.laterPages count).setPage count none := by
  simp only [laterPages, setPage, mk.injEq, true_and, and_true]
  funext other
  by_cases here : other = count
  · simp [here]
  · have same : other < count + 1 ↔ other < count := by omega
    simp [here, same]

theorem setPage_self
    {region : VmRegion w Vnode} {index : Nat} {page : Option Nat}
    (holds : region.pages index = page) :
    region.setPage index page = region := by
  subst holds
  simp only [setPage]
  congr 1
  funext other
  by_cases here : other = index <;> simp [here]

end VmRegion

section Loops

variable {state : VmState w Vnode} {old parent child : Nat}
  {region : VmRegion w Vnode}

/-- What the release of the first pages of a region leaves. -/
structure ReleasedSlots
    (state after : VmState w Vnode) (old : Nat) (region : VmRegion w Vnode)
    (count : Nat) : Prop where
  counted : Counted after
  bytes : after.bytes = state.bytes
  spaces : after.spaces = state.spaces
  cell : after.regions.cells old = some (region.laterPages count)
  others :
    ∀ other, other ≠ old → after.regions.cells other = state.regions.cells other

theorem releaseSlots_spec (counted : Counted state)
    (live : state.regions.cells old = some region) (count : Nat) :
    ReleasedSlots state (releaseSlots state old count) old region count := by
  induction count with
  | zero =>
    refine ⟨counted, rfl, rfl, ?_, fun _ _ => rfl⟩
    simp [releaseSlots, live, VmRegion.laterPages]
  | succ count ih =>
    have cell := ih.cell
    have slot := VmState.slot_of_live cell count
    have counted := ih.counted.releaseSlot cell count
    rw [releaseSlots]
    unfold releaseSlot at counted ⊢
    cases holds : (releaseSlots state old count).slot old count with
    | none =>
      rw [holds] at slot counted
      refine ⟨counted, ih.bytes, ih.spaces, ?_, ih.others⟩
      rw [VmRegion.laterPages_succ, VmRegion.setPage_self slot.symm]
      exact cell
    | some frame =>
      rw [holds] at counted
      refine ⟨counted, ih.bytes, ih.spaces, ?_, ?_⟩
      · rw [VmRegion.laterPages_succ]
        exact VmState.setSlot_cells_same cell count none
      · intro other different
        rw [VmState.setSlot_cells_other different]
        exact ih.others other different

/-- What a page put into one more slot leaves. -/
structure HeldSlot
    (state after : VmState w Vnode) (owner : Nat) (cell : VmRegion w Vnode)
    (index frame : Nat) : Prop where
  counted : Counted after
  bytes : after.bytes = state.bytes
  spaces : after.spaces = state.spaces
  holds : after.slot owner index = some frame
  cell : after.regions.cells owner = some (cell.setPage index (some frame))
  others : ∀ other, other ≠ owner →
      after.regions.cells other = state.regions.cells other

theorem heldSlot {owner frame : Nat} {cell : VmRegion w Vnode}
    (counted : Counted state) (live : state.regions.cells owner = some cell)
    (inUse : state.pages frame ≠ none) (index : Nat) :
    HeldSlot state ((state.holdPage frame).setSlot owner index (some frame))
      owner cell index frame := by
  have liveAfter : (state.holdPage frame).regions.cells owner = some cell :=
    live
  refine ⟨counted.holdSlot live inUse index, rfl, rfl, ?_, ?_, ?_⟩
  · rw [VmState.slot_setSlot _ _ _ liveAfter, if_pos ⟨rfl, rfl⟩]
  · exact VmState.setSlot_cells_same liveAfter index _
  · intro other different
    rw [VmState.setSlot_cells_other different]
    rfl

/-- What handing the first pages to two new regions leaves. -/
structure SharedSlots
    (state after : VmState w Vnode) (old parent child : Nat)
    (region fresh : VmRegion w Vnode)
    (count : Nat) : Prop where
  counted : Counted after
  bytes : after.bytes = state.bytes
  spaces : after.spaces = state.spaces
  source : after.regions.cells old = some region
  parentCell : after.regions.cells parent =
      some { fresh with pages := (region.firstPages count).pages }
  childCell : after.regions.cells child =
      some { fresh with pages := (region.firstPages count).pages }
  others : ∀ other, other ≠ parent → other ≠ child →
      after.regions.cells other = state.regions.cells other

/-- A region and two others without pages, which are to get its pages. -/
structure FreshPair
    (state : VmState w Vnode) (old parent child : Nat)
    (region fresh : VmRegion w Vnode) : Prop where
  source : state.regions.cells old = some region
  empty : ∀ index, fresh.pages index = none
  parentCell : state.regions.cells parent = some fresh
  childCell : state.regions.cells child = some fresh
  oldNotParent : old ≠ parent
  oldNotChild : old ≠ child
  parentNotChild : parent ≠ child

variable {fresh : VmRegion w Vnode}

/-- The loop that hands the pages to both new regions. -/
theorem shareSlots_spec (counted : Counted state)
    (pair : FreshPair state old parent child region fresh) (count : Nat) :
    SharedSlots state (shareSlots state old parent child count) old
      parent child region fresh count := by
  induction count with
  | zero =>
    have noPages :
        { fresh with pages := (region.firstPages 0).pages } = fresh := by
      have same : (region.firstPages 0).pages = fresh.pages := by
        funext index
        simp [VmRegion.firstPages, pair.empty]
      rw [same]
    exact ⟨counted, rfl, rfl, pair.source,
      by rw [noPages]; exact pair.parentCell,
      by rw [noPages]; exact pair.childCell,
      fun _ _ _ => rfl⟩
  | succ count ih =>
    rw [shareSlots]
    generalize shareSlots state old parent child count = before at ih
    have slot := VmState.slot_of_live ih.source count
    have empty : (region.firstPages count).pages count = none := by
      simp [VmRegion.firstPages]
    unfold shareSlot
    cases holds : before.slot old count with
    | none =>
      rw [holds] at slot
      have same : region.firstPages (count + 1) = region.firstPages count := by
        rw [VmRegion.firstPages_succ, VmRegion.setPage_self (empty.trans slot)]
      refine ⟨ih.counted, ih.bytes, ih.spaces, ih.source, ?_, ?_, ih.others⟩
      · rw [same]
        exact ih.parentCell
      · rw [same]
        exact ih.childCell
    | some frame =>
      rw [holds] at slot
      have first := heldSlot ih.counted ih.parentCell
        (ih.counted.in_use holds) count
      have childLive :=
        (first.others child (Ne.symm pair.parentNotChild)).trans ih.childCell
      have second := heldSlot first.counted childLive
        (first.counted.in_use first.holds) count
      refine ⟨second.counted, ?_, ?_, ?_, ?_, ?_, ?_⟩
      · rw [second.bytes, first.bytes, ih.bytes]
      · rw [second.spaces, first.spaces, ih.spaces]
      · rw [second.others old pair.oldNotChild,
          first.others old pair.oldNotParent]
        exact ih.source
      · rw [second.others parent pair.parentNotChild, first.cell,
          VmRegion.firstPages_succ, ← slot]
        rfl
      · rw [second.cell, VmRegion.firstPages_succ, ← slot]
        rfl
      · intro other notParent notChild
        rw [second.others other notChild, first.others other notParent]
        exact ih.others other notParent notChild

/-- What mapping the first pages of a region read-only leaves. -/
structure ProtectedSlots
    (state after : VmState w Vnode) (src : Nat) (start : BitVec w)
    (region count : Nat) : Prop where
  regions : after.regions = state.regions
  pages : after.pages = state.pages
  bytes : after.bytes = state.bytes
  area : ∀ space, (after.spaces space).area = (state.spaces space).area
  table : ∀ space address,
      (after.spaces space).pageTable address =
          (state.spaces space).pageTable address ∨
        ∃ index < count, ∃ frame,
          space = src ∧ address = pageAddress start index ∧
            state.slot region index = some frame ∧
            (after.spaces space).pageTable address =
              some { frame := frame, user := true, rw := false }
  readOnly : ∀ index < count, ∀ frame, state.slot region index = some frame →
      ∃ pte,
        (after.spaces src).pageTable (pageAddress start index) = some pte ∧
          pte.rw = false

/-- The loop that maps the pages of the source read-only. -/
theorem protectSlots_spec
    (state : VmState w Vnode) (src : Nat) (start : BitVec w)
    (region count : Nat) :
    ProtectedSlots state (protectSlots state src start region count) src
      start region count := by
  induction count with
  | zero =>
    exact ⟨rfl, rfl, rfl, fun _ => rfl, fun _ _ => .inl rfl,
      fun _ bounded => absurd bounded (Nat.not_lt_zero _)⟩
  | succ count ih =>
    rw [protectSlots]
    generalize protectSlots state src start region count = before at ih
    have slots := VmState.slot_congr ih.regions
    have earlier : ∀ index, index < count + 1 → index < count ∨ index = count :=
      fun index bounded => Nat.lt_succ_iff_lt_or_eq.mp bounded
    cases holds : before.slot region count with
    | none =>
      refine ⟨ih.regions, ih.pages, ih.bytes, ih.area, ?_, ?_⟩
      · intro space address
        rcases ih.table space address with
          same | ⟨index, bounded, rest⟩
        · exact .inl same
        · exact .inr ⟨index, by omega, rest⟩
      · intro index bounded frame isPage
        rcases earlier index bounded with before' | rfl
        · exact ih.readOnly index before' frame isPage
        · rw [← slots, holds] at isPage
          simp at isPage
    | some page =>
      refine ⟨ih.regions, ih.pages, ih.bytes, ?_, ?_, ?_⟩
      · intro space
        rw [VmState.mapPage_area]
        exact ih.area space
      · intro space address
        rw [VmState.mapPage_pageTable]
        by_cases here : space = src ∧ address = pageAddress start count
        · rw [if_pos here]
          exact .inr ⟨count, by omega, page, here.1, here.2,
            by rw [← slots, holds], rfl⟩
        · rw [if_neg here]
          rcases ih.table space address with
            same | ⟨index, bounded, rest⟩
          · exact .inl same
          · exact .inr ⟨index, by omega, rest⟩
      · intro index bounded frame isPage
        rw [VmState.mapPage_pageTable]
        by_cases here :
            src = src ∧ pageAddress start index = pageAddress start count
        · rw [if_pos here]
          exact ⟨_, rfl, rfl⟩
        · rw [if_neg here]
          rcases earlier index bounded with before' | rfl
          · exact ih.readOnly index before' frame isPage
          · exact absurd ⟨rfl, rfl⟩ here

theorem Counted.allocRegion (counted : Counted state)
    (empty : ∀ index, fresh.pages index = none) :
    Counted (state.allocRegion fresh) := by
  refine counted.congr rfl ?_
  funext owner index
  by_cases isNew : owner = state.regions.next
  · subst isNew
    have unallocated :=
      state.regions.unallocated state.regions.next (Nat.le_refl _)
    simp [VmState.slot, VmState.allocRegion, unallocated, empty]
  · simp [VmState.slot, VmState.allocRegion, Heap.alloc, isNew]

theorem Counted.dropRegion (counted : Counted state)
    (live : state.regions.cells old = some region) :
    Counted (state.dropRegion old) := by
  refine counted.congr rfl ?_
  funext owner index
  by_cases isOld : owner = old
  · simp [VmState.slot, VmState.dropRegion, isOld, live]
  · simp [VmState.slot, VmState.dropRegion, Heap.cells_modify_of_ne isOld]

/-- What destroying a region leaves. -/
structure DestroyedRegion
    (state after : VmState w Vnode)
    (old : Nat) : Prop where
  counted : Counted after
  bytes : after.bytes = state.bytes
  spaces : after.spaces = state.spaces
  gone : after.regions.cells old = none
  others :
    ∀ other, other ≠ old → after.regions.cells other = state.regions.cells other

theorem vmDestroyRegion_spec (counted : Counted state)
    (live : state.regions.cells old = some region) {count : Nat}
    (within : ∀ index, count ≤ index → region.pages index = none) :
    DestroyedRegion state (vmDestroyRegion state old count) old := by
  have released := releaseSlots_spec counted live count
  have empty :
      ∀ index, (releaseSlots state old count).slot old index = none := by
    intro index
    rw [VmState.slot_of_live released.cell]
    by_cases inLoop : index < count
    · simp [VmRegion.laterPages, inLoop]
    · simp [VmRegion.laterPages, inLoop, within index (by omega)]
  refine ⟨released.counted.congr rfl ?_, released.bytes, released.spaces,
    by simp [vmDestroyRegion], ?_⟩
  · funext owner index
    by_cases isOld : owner = old
    · subst isOld
      rw [empty]
      simp [VmState.slot, vmDestroyRegion]
    · simp [VmState.slot, vmDestroyRegion, Heap.cells_free_of_ne isOld]
  · intro other different
    rw [← released.others other different]
    simp [vmDestroyRegion, Heap.cells_free_of_ne different]

/-- What splitting a region that belongs to one mapping leaves. -/
structure SplitRegion
    (state after : VmState w Vnode) (src : Nat) (block : SmaBlock w VmMapping)
    (old : Nat)
    (region : VmRegion w Vnode) : Prop where
  counted : Counted after
  bytes : after.bytes = state.bytes
  area : ∀ space, (after.spaces space).area = (state.spaces space).area
  gone : after.regions.cells old = none
  parentCell : after.regions.cells state.regions.next = some region
  childCell : after.regions.cells (state.regions.next + 1) = some region
  others : ∀ other, other ≠ old → other ≠ state.regions.next →
      other ≠ state.regions.next + 1 →
      after.regions.cells other = state.regions.cells other
  table : ∀ space address,
      (after.spaces space).pageTable address =
          (state.spaces space).pageTable address ∨
        ∃ index < pageCount block.size, ∃ frame,
          space = src ∧ address = pageAddress block.start index ∧
            region.pages index = some frame ∧
            (after.spaces space).pageTable address =
              some { frame := frame, user := true, rw := false }
  readOnly : ∀ index < pageCount block.size, ∀ frame,
      region.pages index = some frame →
      ∃ pte,
        (after.spaces src).pageTable (pageAddress block.start index) =
            some pte ∧
          pte.rw = false

/-- What handing all pages of a region to two new ones leaves. -/
structure HandedOver
    (state after : VmState w Vnode) (old : Nat)
    (region : VmRegion w Vnode) : Prop where
  counted : Counted after
  bytes : after.bytes = state.bytes
  spaces : after.spaces = state.spaces
  source : after.regions.cells old = some region
  parentCell :
    after.regions.cells state.regions.next = some { region with refs := 1 }
  childCell : after.regions.cells (state.regions.next + 1) =
      some { region with refs := 1 }
  others :
    ∀ other, other ≠ state.regions.next → other ≠ state.regions.next + 1 →
      after.regions.cells other = state.regions.cells other

theorem freshPair_allocated (live : state.regions.cells old = some region)
    (empty : ∀ index, fresh.pages index = none) :
    FreshPair ((state.allocRegion fresh).allocRegion fresh) old
      state.regions.next (state.regions.next + 1) region fresh := by
  have below := Heap.lt_next live
  exact
    { source := Heap.cells_alloc_of_some (Heap.cells_alloc_of_some live)
      empty := empty
      parentCell := Heap.cells_alloc_of_some Heap.cells_alloc_next
      childCell := Heap.cells_alloc_next
      oldNotParent := by omega
      oldNotChild := by omega
      parentNotChild := by omega }

theorem handedOver (counted : Counted state)
    (live : state.regions.cells old = some region)
    (within :
      ∀ index, pageCount region.size ≤ index → region.pages index = none)
    (isFresh : fresh = { region with refs := 1, pages := fun _ => none }) :
    HandedOver state
      (shareSlots ((state.allocRegion fresh).allocRegion fresh) old
        state.regions.next (state.regions.next + 1)
        (pageCount region.size))
      old region := by
  have empty : ∀ index, fresh.pages index = none := fun index => isFresh ▸ rfl
  have shared :=
    shareSlots_spec ((counted.allocRegion empty).allocRegion empty)
      (freshPair_allocated live empty) (pageCount region.size)
  have allPages :
      { fresh with
        pages := (region.firstPages (pageCount region.size)).pages } =
        { region with refs := 1 } := by
    rw [VmRegion.pages_firstPages within, isFresh]
  refine ⟨shared.counted, shared.bytes, shared.spaces, shared.source,
    shared.parentCell.trans (congrArg some allPages),
    shared.childCell.trans (congrArg some allPages), ?_⟩
  intro other notParent notChild
  rw [shared.others other notParent notChild]
  simp [VmState.allocRegion, Heap.alloc, notParent, notChild]

/--
Splitting a region with one reference replaces it by two regions that hold
its pages, and maps these read-only in the source.
-/
theorem splitRegion_spec (counted : Counted state)
    (live : state.regions.cells old = some region) (single : region.refs = 1)
    (within :
      ∀ index, pageCount region.size ≤ index → region.pages index = none)
    (src : Nat) (block : SmaBlock w VmMapping) :
    SplitRegion state (splitRegion state src block old region) src block
      old region := by
  let fresh : VmRegion w Vnode :=
    { region with refs := 1, pages := fun _ => none }
  let sharedState :=
    shareSlots ((state.allocRegion fresh).allocRegion fresh) old
      state.regions.next (state.regions.next + 1) (pageCount region.size)
  let mappedState :=
    protectSlots sharedState src block.start old (pageCount block.size)
  have oldBelow := Heap.lt_next live
  have notParent : state.regions.next ≠ old := by omega
  have notChild : state.regions.next + 1 ≠ old := by omega
  have shared : HandedOver state sharedState old region :=
    handedOver counted live within rfl
  have isRegion : { region with refs := 1 } = region := by
    rw [← single]
  have mapped :=
    protectSlots_spec sharedState src block.start old (pageCount block.size)
  have isSplit : splitRegion state src block old region =
        vmDestroyRegion (mappedState.dropRegion old) old
          (pageCount region.size) :=
    if_pos (by omega)
  rw [isSplit]
  have mappedLive : mappedState.regions.cells old = some region :=
    mapped.regions ▸ shared.source
  have mappedCounted : Counted mappedState :=
    shared.counted.congr mapped.pages (VmState.slot_congr mapped.regions)
  have droppedLive : (mappedState.dropRegion old).regions.cells old =
        some { region with refs := region.refs - 1 } := by
    simp [VmState.dropRegion, mappedLive]
  have destroyed :=
    vmDestroyRegion_spec (mappedCounted.dropRegion mappedLive)
      droppedLive within
  have dropped : ∀ other, other ≠ old →
        (mappedState.dropRegion old).regions.cells other =
          sharedState.regions.cells other := by
    intro other different
    rw [← mapped.regions]
    exact Heap.cells_modify_of_ne different
  have slots : ∀ index, sharedState.slot old index = region.pages index :=
    VmState.slot_of_live shared.source
  have sharedTables : ∀ space, sharedState.spaces space = state.spaces space :=
    congrFun shared.spaces
  have finalSpaces : ∀ space,
        (vmDestroyRegion (mappedState.dropRegion old) old
          (pageCount region.size)).spaces space =
          mappedState.spaces space := by
    intro space
    rw [destroyed.spaces]
    rfl
  refine ⟨destroyed.counted, ?_, ?_, destroyed.gone, ?_, ?_, ?_, ?_, ?_⟩
  · rw [destroyed.bytes]
    exact mapped.bytes.trans shared.bytes
  · intro space
    rw [finalSpaces, mapped.area, sharedTables]
  · rw [destroyed.others _ notParent, dropped _ notParent,
      shared.parentCell, isRegion]
  · rw [destroyed.others _ notChild, dropped _ notChild,
      shared.childCell, isRegion]
  · intro other notOld notParent notChild
    rw [destroyed.others other notOld, dropped other notOld,
      shared.others other notParent notChild]
  · intro space address
    rw [finalSpaces, ← sharedTables]
    rcases mapped.table space address with
      same | ⟨index, bounded, frame, inSrc, here, isPage, entry⟩
    · exact .inl same
    · exact .inr ⟨index, bounded, frame, inSrc, here,
        (slots index).symm.trans isPage, entry⟩
  · intro index bounded frame isPage
    rw [finalSpaces]
    exact mapped.readOnly index bounded frame ((slots index).trans isPage)

end Loops

end Idylla.Mm
