import Idylla.Mm.FaultState
import Idylla.Mm.VmPages

namespace Idylla.Mm

open Idylla.Lib

/-!
# What a page fault that fails leaves behind

A page fault gives everything back where the slot is empty, `phys_alloc` has a
frame for the page and a page table is there or cannot be had.  A page that is
copied or mapped again is lost or taken for mapped, a frame that is not there
is taken for the frame 0, and a page table stays where the file cannot be read.
-/

/-- Something that has been asked for has failed. -/
def Fails (log : List FaultEvent) : Prop :=
  ∃ event ∈ log, event.fails = true

/--
Regions, pages and allocated frames are as before, and the frame 0 has been
neither mapped nor written.
-/
structure FaultUndone {Vnode : Type} (before after : FaultState Vnode) :
    Prop where
  regions : after.regions.cells = before.regions.cells
  pages : after.pages.cells = before.pages.cells
  frames : after.frames = before.frames
  notMapped : FaultEvent.mapPage 0 true ∉ after.log
  notWritten : FaultEvent.write 0 ∉ after.log

namespace FaultRun

variable {Vnode Result : Type}

/-- The state in which a call has returned or is stuck. -/
def state : FaultRun Vnode Result → FaultState Vnode
  | .returns _ state => state
  | .stuck state => state

/-- The page fault is refused and nothing has changed. -/
def Harmless (before : FaultState Vnode) : FaultRun Vnode Int → Prop
  | .returns code after => code ≠ 0 ∧ FaultUndone before after
  | .stuck _ => False

end FaultRun

namespace FaultState

variable {Vnode : Type} {source : FrameSource} {state : FaultState Vnode}

/-- The directory has no page table for the address and does not get one. -/
def LacksTable
    (source : FrameSource) (state : FaultState Vnode) (dataptr : Option Nat)
    (virt : BitVec 32) : Prop :=
  state.tables dataptr (PGDIR_ENTRY virt) = false ∧
    state.nextFrame source = none

/--
The slot is empty.  Without a page table `phys_alloc` has a frame for the page
or the frame 0 is free; otherwise it has a frame for the page, and the page
table has been there.
-/
def Recovers (source : FrameSource) (state : FaultState Vnode) (space : Nat)
    (virt : BitVec 32) (slot : Option Nat) : Prop :=
  slot = none ∧
    (LacksTable source (state.physAlloc source) (some space) virt ∧
        (state.nextFrame source ≠ none ∨ state.frames 0 = false) ∨
      state.tables (some space) (PGDIR_ENTRY virt) = true ∧
        state.nextFrame source ≠ none)

section Operations

variable {frame region index : Nat} {cell : VmRegion 32 Vnode}

theorem frames_physFree_iff :
    (state.physFree frame).frames = state.frames ↔
      state.frames frame = false := by
  constructor
  · intro same
    rw [← same]
    exact if_pos rfl
  · intro isFree
    funext other
    by_cases isFrame : other = frame
    · subst isFrame
      exact (if_pos rfl).trans isFree.symm
    · exact if_neg isFrame

theorem frames_physAlloc_physFree
    (found : state.nextFrame source = some frame) :
    ((state.physAlloc source).physFree frame).frames = state.frames := by
  have isFree := (source.fresh found).2
  funext other
  unfold physAlloc
  rw [found]
  by_cases isFrame : other = frame
  · subst isFrame
    exact (if_pos rfl).trans isFree.symm
  · exact (if_neg isFrame).trans (if_neg isFrame)

theorem cells_alloc_free (heap : Heap VmPage) (page : VmPage) :
    ((heap.alloc page).free heap.next).cells = heap.cells := by
  funext other
  by_cases isNew : other = heap.next
  · subst isNew
    rw [Heap.cells_free_same]
    exact (heap.unallocated _ (Nat.le_refl _)).symm
  · rw [Heap.cells_free_of_ne isNew]
    exact if_neg isNew

theorem cells_setSlot_same (live : state.regions.cells region = some cell)
    (page : Option Nat) :
    (state.setSlot region index page).regions.cells region =
      some (cell.setPage index page) := by
  unfold setSlot
  rw [Heap.cells_modify_same, live]
  rfl

theorem cells_setSlot_none (live : state.regions.cells region = some cell)
    (empty : cell.pages index = none) :
    (state.setSlot region index none).regions.cells = state.regions.cells := by
  funext other
  by_cases isRegion : other = region
  · subst isRegion
    rw [cells_setSlot_same live, live, VmRegion.setPage_self empty]
  · exact Heap.cells_modify_of_ne isRegion

theorem physAlloc_rest :
    (state.physAlloc source).regions = state.regions ∧
      (state.physAlloc source).pages = state.pages ∧
      (state.physAlloc source).tables = state.tables := by
  unfold physAlloc
  cases state.nextFrame source with
  | none | some frame =>
    exact ⟨rfl, rfl, rfl⟩

theorem physAlloc_log :
    (state.physAlloc source).log =
      .physAlloc (state.nextFrame source) :: state.log := by
  unfold physAlloc
  cases state.nextFrame source with
  | none =>
    rfl
  | some frame =>
    rfl

variable {dataptr : Option Nat} {virt : BitVec 32} {pte : Pte} {table : Nat}

theorem pagingMapPage_present
    (present : state.tables dataptr (PGDIR_ENTRY virt) = true) :
    state.pagingMapPage source dataptr virt pte =
      ((state.setEntry dataptr virt (some pte)).record
        (.mapPage pte.frame true), true) :=
  if_pos present

theorem pagingMapPage_lacks (lacks : LacksTable source state dataptr virt) :
    state.pagingMapPage source dataptr virt pte =
      ((state.record (.physAlloc none)).record (.mapPage pte.frame false),
        false) := by
  unfold pagingMapPage physAlloc
  rw [lacks.1, lacks.2]
  rfl

theorem pagingMapPage_linked
    (absent : state.tables dataptr (PGDIR_ENTRY virt) = false)
    (found : state.nextFrame source = some table) :
    state.pagingMapPage source dataptr virt pte =
      (((((state.setFrame table true).record
        (.physAlloc (some table))).setTable dataptr virt).setEntry dataptr virt
        (some pte)).record (.mapPage pte.frame true), true) := by
  unfold pagingMapPage physAlloc
  rw [absent, found]
  rfl

end Operations

section NewPage

variable {space : Nat} {virt : BitVec 32} {offset : Int}

/-- The frame of a new page; the frame 0 where there is none. -/
def newFrame (source : FrameSource) (state : FaultState Vnode) : Nat :=
  (state.nextFrame source).getD 0

theorem newFrame_of_found {frame : Nat}
    (found : state.nextFrame source = some frame) :
    newFrame source state = frame := by
  unfold newFrame
  rw [found]
  rfl

/-- What is the same however a new page has been mapped. -/
structure NewMapped
    (source : FrameSource) (state : FaultState Vnode) (space : Nat)
    (virt : BitVec 32)
    (mapped : FaultState Vnode) : Prop where
  regions : mapped.regions = state.regions
  pages : ∃ page, mapped.pages = state.pages.alloc page
  table : mapped.tables (some space) (PGDIR_ENTRY virt) = true

/-- The outcomes of mapping a new page. -/
inductive NewPage
    (source : FrameSource) (state : FaultState Vnode) (space : Nat)
    (virt : BitVec 32) : FaultState Vnode × Bool → Prop where
  | lacks {failed : FaultState Vnode}
      (lacks : LacksTable source (state.physAlloc source) (some space) virt)
      (regions : failed.regions = state.regions)
      (pages : ∃ page, failed.pages = state.pages.alloc page)
      (frames : failed.frames = (state.physAlloc source).frames)
      (log :
        failed.log =
          .mapPage (newFrame source state) false :: .physAlloc none ::
            (state.physAlloc source).log) :
      NewPage source state space virt (failed, false)
  | there {mapped : FaultState Vnode}
      (present : state.tables (some space) (PGDIR_ENTRY virt) = true)
      (new : NewMapped source state space virt mapped)
      (frames : mapped.frames = (state.physAlloc source).frames)
      (log :
        mapped.log =
          .mapPage (newFrame source state) true ::
            (state.physAlloc source).log) :
      NewPage source state space virt (mapped, true)
  | linked {mapped : FaultState Vnode} {table : Nat}
      (absent : state.tables (some space) (PGDIR_ENTRY virt) = false)
      (found : (state.physAlloc source).nextFrame source = some table)
      (new : NewMapped source state space virt mapped)
      (frames :
        mapped.frames = ((state.physAlloc source).setFrame table true).frames) :
      NewPage source state space virt (mapped, true)

theorem mapNewPage_cases :
    NewPage source state space virt
      (state.mapNewPage source space virt offset) := by
  obtain ⟨regions, pages, tables⟩ := @physAlloc_rest _ source state
  unfold mapNewPage
  dsimp only
  generalize VmPage.mk 1 offset ((state.nextFrame source).getD 0) = page
  have tablesNow :
      ((state.physAlloc source).newPage page).tables = state.tables :=
    tables
  have pagesNow :
      ((state.physAlloc source).newPage page).pages = state.pages.alloc page :=
    congrArg (fun heap => Heap.alloc heap page) pages
  cases present : state.tables (some space) (PGDIR_ENTRY virt) with
  | true =>
    rw [← tablesNow] at present
    rw [pagingMapPage_present present]
    exact .there (tablesNow ▸ present) ⟨regions, ⟨page, pagesNow⟩, present⟩
      rfl rfl
  | false =>
    rw [← tablesNow] at present
    cases found : ((state.physAlloc source).newPage page).nextFrame source with
    | none =>
      rw [pagingMapPage_lacks ⟨present, found⟩]
      exact .lacks ⟨present, found⟩ regions ⟨page, pagesNow⟩ rfl rfl
    | some table =>
      rw [pagingMapPage_linked present found]
      exact .linked (tablesNow ▸ present) found
        ⟨regions, ⟨page, pagesNow⟩, if_pos ⟨rfl, rfl⟩⟩ rfl

/-- The outcomes of fetching a page. -/
inductive Fetched
    (source : FrameSource) (state : FaultState Vnode) (space : Nat)
    (virt : BitVec 32) : FaultRun Vnode (Option Nat) → Prop where
  | refused {failed : FaultState Vnode}
      (new : NewPage source state space virt (failed, false)) :
      Fetched source state space virt
        (.returns none
          (failed.dropNewPage state.pages.next (newFrame source state)))
  | unread {mapped dropped : FaultState Vnode}
      (new : NewPage source state space virt (mapped, true))
      (regions : dropped.regions = mapped.regions)
      (pages : dropped.pages = mapped.pages.free state.pages.next)
      (frames :
        dropped.frames = (mapped.physFree (newFrame source state)).frames)
      (log : dropped.log = .read false :: mapped.log) :
      Fetched source state space virt (.returns none dropped)
  | stuck {mapped filled : FaultState Vnode}
      (new : NewPage source state space virt (mapped, true))
      (log : ∀ event ∈ filled.log, event.fails = true → event ∈ mapped.log) :
      Fetched source state space virt (.stuck filled)
  | delivered {mapped filled : FaultState Vnode}
      (new : NewPage source state space virt (mapped, true))
      (tables : filled.tables = mapped.tables)
      (log : ∀ event ∈ filled.log, event.fails = true → event ∈ mapped.log) :
      Fetched source state space virt (.returns (some state.pages.next) filled)

theorem writePage_fails
    {dataptr : Option Nat} {content : PageBytes} {written : FaultState Vnode}
    (result : state.writePage dataptr virt content = some written) :
    written.tables = state.tables ∧
      ∀ event ∈ written.log, event.fails = true → event ∈ state.log := by
  obtain ⟨pte, -, rfl⟩ := Option.map_eq_some_iff.mp result
  refine ⟨rfl, ?_⟩
  intro event isEvent fails
  rcases List.mem_cons.mp isEvent with rfl | before
  · cases fails
  · exact before

theorem pagingUnmapPage_rest {dataptr : Option Nat} :
    (state.pagingUnmapPage dataptr virt).regions = state.regions ∧
      (state.pagingUnmapPage dataptr virt).pages = state.pages ∧
      (state.pagingUnmapPage dataptr virt).frames = state.frames ∧
      (state.pagingUnmapPage dataptr virt).log = state.log := by
  unfold pagingUnmapPage
  split
  next present => exact ⟨rfl, rfl, rfl, rfl⟩
  next absent => exact ⟨rfl, rfl, rfl, rfl⟩

theorem vmMmapAnonGetpage_cases :
    Fetched source state space virt
      (state.vmMmapAnonGetpage source space virt) := by
  have new := @mapNewPage_cases _ source state space virt 0
  unfold vmMmapAnonGetpage
  split
  next failed isFailed =>
    rw [isFailed] at new
    exact .refused new
  next mapped isMapped =>
    rw [isMapped] at new
    cases result : mapped.writePage (some space) virt zeroPage with
    | none =>
      exact .stuck new fun _ isEvent _ => isEvent
    | some zeroed =>
      obtain ⟨tables, log⟩ := writePage_fails result
      exact .delivered new tables log

theorem vmMmapVfsGetpage_cases {vnode : Option Vnode} {read : VnodeRead Vnode} :
    Fetched source state space virt
      (state.vmMmapVfsGetpage source space virt vnode offset read) := by
  have new := @mapNewPage_cases _ source state space virt offset
  unfold vmMmapVfsGetpage
  split
  next failed isFailed =>
    rw [isFailed] at new
    exact .refused new
  next mapped isMapped =>
    rw [isMapped] at new
    cases vnode with
    | none =>
      exact .stuck new fun _ isEvent _ => isEvent
    | some vnode =>
      dsimp only
      cases read vnode offset with
      | error err =>
        obtain ⟨regions, pages, frames, log⟩ :=
          @pagingUnmapPage_rest _ (mapped.record (.read false)) virt
            (some space)
        exact .unread new regions
          (congrArg (fun heap => Heap.free heap state.pages.next) pages)
          (congrArg
            (fun (frames : Nat → Bool) other =>
              if other = newFrame source state then false
              else frames other) frames)
          log
      | ok data =>
        have readLog : ∀ event ∈ (mapped.record (.read true)).log,
              event.fails = true → event ∈ mapped.log := by
          intro event isEvent fails
          rcases List.mem_cons.mp isEvent with rfl | before
          · cases fails
          · exact before
        dsimp only
        cases result : (mapped.record (.read true)).writePage (some space) virt
              (filePage data) with
        | none =>
          exact .stuck new readLog
        | some filled =>
          obtain ⟨tables, log⟩ := writePage_fails result
          refine .delivered new tables ?_
          intro event isEvent fails
          exact readLog event (log event isEvent fails) fails

theorem getpage_cases {region : VmRegion 32 Vnode} {read : VnodeRead Vnode} :
    Fetched source state space virt
      (state.getpage source space virt region offset read) := by
  unfold getpage
  cases region.ops with
  | anon =>
    exact vmMmapAnonGetpage_cases
  | vfs =>
    exact vmMmapVfsGetpage_cases

end NewPage

section PageFaults

variable {space index : Nat} {virt : BitVec 32} {mapping : VmMapping}
  {region : VmRegion 32 Vnode}

theorem showPage_not_harmless {before : FaultState Vnode} {pointer : Nat}
    {rw : Bool} :
    ¬ (state.showPage source space virt pointer rw).Harmless before := by
  unfold showPage
  intro harmless
  split at harmless
  next missing => exact harmless
  next page isPage => exact harmless.1 rfl

variable {failed : FaultState Vnode}

theorem empty_of_undone
    (live : state.regions.cells mapping.region = some region)
    (kept : failed.regions = state.regions)
    (undone : FaultUndone state (failed.setSlot mapping.region index none)) :
    region.pages index = none := by
  have liveNow : failed.regions.cells mapping.region = some region := by
    rw [kept]
    exact live
  have same : some (region.setPage index none) = some region := by
    rw [← cells_setSlot_same liveNow, undone.regions, live]
  have isSame : region.setPage index none = region := Option.some.inj same
  rw [← isSame]
  exact if_pos rfl

theorem undone_iff (live : state.regions.cells mapping.region = some region)
    (empty : region.pages index = none) (kept : failed.regions = state.regions)
    (pages : failed.pages.cells = state.pages.cells) :
    (fillSlot source space virt mapping.region index
        (.returns none failed)).Harmless state ↔
      failed.frames = state.frames ∧ FaultEvent.mapPage 0 true ∉ failed.log ∧
        FaultEvent.write 0 ∉ failed.log := by
  have liveNow : failed.regions.cells mapping.region = some region := by
    rw [kept]
    exact live
  have regions := cells_setSlot_none liveNow empty
  rw [kept] at regions
  constructor
  · intro harmless
    exact ⟨harmless.2.frames, harmless.2.notMapped, harmless.2.notWritten⟩
  · rintro ⟨frames, notMapped, notWritten⟩
    exact ⟨by decide, regions, pages, frames, notMapped, notWritten⟩

theorem frames_dropped_iff :
    ((state.physAlloc source).physFree (newFrame source state)).frames =
        state.frames ↔
      state.nextFrame source ≠ none ∨ state.frames 0 = false := by
  unfold newFrame
  cases found : state.nextFrame source with
  | some frame =>
    refine ⟨fun _ => .inl (Option.some_ne_none frame), fun _ => ?_⟩
    exact frames_physAlloc_physFree found
  | none =>
    have same : (state.physAlloc source).frames = state.frames := by
      unfold physAlloc
      rw [found]
      rfl
    have isFree : ((state.physAlloc source).physFree 0).frames = state.frames ↔
          state.frames 0 = false := by
      rw [← same]
      exact frames_physFree_iff
    refine isFree.trans ⟨.inr, fun either => ?_⟩
    exact either.resolve_left fun isSome => isSome rfl

theorem frame_of_linked {table : Nat}
    (found : (state.physAlloc source).nextFrame source = some table) :
    table ≠ newFrame source state ∧ state.frames table = false := by
  obtain ⟨nonzero, isFree⟩ := source.fresh found
  unfold newFrame
  unfold physAlloc at isFree
  cases taken : state.nextFrame source with
  | none =>
    rw [taken] at isFree
    exact ⟨nonzero, isFree⟩
  | some frame =>
    rw [taken] at isFree
    by_cases isFrame : table = frame
    · exact absurd ((if_pos isFrame).symm.trans isFree) Bool.noConfusion
    · exact ⟨isFrame, (if_neg isFrame).symm.trans isFree⟩

theorem cells_dropped (pages : ∃ page, failed.pages = state.pages.alloc page) :
    (failed.pages.free state.pages.next).cells = state.pages.cells := by
  obtain ⟨page, isPages⟩ := pages
  rw [isPages]
  exact cells_alloc_free state.pages page

theorem recovers_of_present
    (present : state.tables (some space) (PGDIR_ENTRY virt) = true) :
    Recovers source state space virt none ↔ state.nextFrame source ≠ none := by
  constructor
  · rintro ⟨-, ⟨lacks, -⟩ | ⟨-, found⟩⟩
    · have absent := lacks.1
      rw [physAlloc_rest.2.2, present] at absent
      cases absent
    · exact found
  · intro found
    exact ⟨rfl, .inr ⟨present, found⟩⟩

theorem not_recovers_of_linked {table : Nat}
    (absent : state.tables (some space) (PGDIR_ENTRY virt) = false)
    (found : (state.physAlloc source).nextFrame source = some table) :
    ¬ Recovers source state space virt none := by
  rintro ⟨-, ⟨lacks, -⟩ | ⟨present, -⟩⟩
  · exact absurd (found.symm.trans lacks.2) (Option.some_ne_none table)
  · rw [absent] at present
    cases present

theorem showPage_fails {pointer : Nat} {rw : Bool}
    (present : state.tables (some space) (PGDIR_ENTRY virt) = true)
    (fails : Fails (state.showPage source space virt pointer rw).state.log) :
    Fails state.log := by
  unfold showPage at fails
  split at fails
  next missing => exact fails
  next page isPage =>
    rw [pagingMapPage_present present] at fails
    obtain ⟨event, isEvent, fails⟩ := fails
    rcases List.mem_cons.mp isEvent with rfl | before
    · cases fails
    · exact ⟨event, before, fails⟩

variable {fetched : FaultRun Vnode (Option Nat)}

theorem fetched_not_harmless {page : Nat}
    (live : state.regions.cells mapping.region = some region)
    (occupied : region.pages index = some page)
    (cases_ : Fetched source state space virt fetched) :
    ¬ (fillSlot source space virt mapping.region index fetched).Harmless
      state := by
  have notEmpty {failed : FaultState Vnode}
      (kept : failed.regions = state.regions) :
      ¬ (fillSlot source space virt mapping.region index
        (.returns none failed)).Harmless state := by
    intro harmless
    have empty := empty_of_undone live kept harmless.2
    rw [occupied] at empty
    cases empty
  cases cases_ with
  | refused new =>
    cases new with
    | lacks _ regions =>
      exact notEmpty regions
  | unread new regions =>
    refine notEmpty (regions.trans ?_)
    cases new with
    | there _ new | linked _ _ new =>
      exact new.regions
  | stuck =>
    exact not_false
  | delivered =>
    exact showPage_not_harmless

theorem copied_not_harmless {page : Nat}
    (live : state.regions.cells mapping.region = some region)
    (occupied : region.pages index = some page) :
    ¬ (fillSlot source space virt mapping.region index
      (state.vmCopyPage source space virt page)).Harmless state := by
  unfold vmCopyPage
  split
  next missing => exact not_false
  next oldpage isOld =>
    split
    next noFrame =>
      intro harmless
      have empty := empty_of_undone live physAlloc_rest.1 harmless.2
      rw [occupied] at empty
      cases empty
    next frame isFrame =>
      dsimp only
      split
      next buf content isBuf isContent =>
        split
        next notWritten => exact not_false
        next copied isCopied =>
          split
          next endless => exact not_false
          next unmapped isUnmapped => exact showPage_not_harmless
      next notMapped => exact not_false

variable (begins : state.log = [])
include begins

theorem NewPage.no_failure {mapped : FaultState Vnode}
    (new : NewPage source state space virt (mapped, true))
    (recovers : Recovers source state space virt none) :
    ¬ Fails mapped.log := by
  rintro ⟨event, isEvent, fails⟩
  cases new with
  | there present _ frames log =>
    have found := (recovers_of_present present).mp recovers
    rw [log, physAlloc_log, begins] at isEvent
    obtain rfl | rfl | isNone : event = .mapPage (newFrame source state) true ∨
          event = .physAlloc (state.nextFrame source) ∨ event ∈ [] := by
      simpa using isEvent
    · cases fails
    · exact found (Option.isNone_iff_eq_none.mp fails)
    · cases isNone
  | linked absent found _ frames =>
    exact not_recovers_of_linked absent found recovers

variable (live : state.regions.cells mapping.region = some region)
  (empty : region.pages index = none)

include live empty

/-- A fetch that is given up at an empty slot. -/
theorem refused_harmless_iff
    (new : NewPage source state space virt (failed, false)) :
    (fillSlot source space virt mapping.region index
        (.returns none
          (failed.dropNewPage state.pages.next
            (newFrame source state)))).Harmless state ↔
      Recovers source state space virt none := by
  cases new with
  | lacks lacks regions pages frames log =>
    have absent : state.tables (some space) (PGDIR_ENTRY virt) = false := by
      rw [← physAlloc_rest.2.2]
      exact lacks.1
    have sameFrames :
        (failed.dropNewPage state.pages.next (newFrame source state)).frames =
          ((state.physAlloc source).physFree
            (newFrame source state)).frames := by
      unfold dropNewPage freePage physFree setFrame
      rw [frames]
    have isLog :
        (failed.dropNewPage state.pages.next (newFrame source state)).log =
          [.mapPage (newFrame source state) false, .physAlloc none,
            .physAlloc (state.nextFrame source)] := by
      rw [← begins, ← physAlloc_log]
      exact log
    have regionsNow :
        (failed.dropNewPage state.pages.next (newFrame source state)).regions =
          state.regions :=
      regions
    have pagesNow :
        (failed.dropNewPage state.pages.next
            (newFrame source state)).pages.cells =
          state.pages.cells :=
      cells_dropped pages
    refine (undone_iff live empty regionsNow pagesNow).trans ?_
    rw [sameFrames, frames_dropped_iff, isLog]
    constructor
    · rintro ⟨given, -, -⟩
      exact ⟨rfl, .inl ⟨lacks, given⟩⟩
    · rintro ⟨-, ⟨-, given⟩ | ⟨present, -⟩⟩
      · exact ⟨given, by simp, by simp⟩
      · rw [absent] at present
        cases present

/-- A fetch that is given up when the file cannot be read. -/
theorem unread_harmless_iff {mapped dropped : FaultState Vnode}
    (new : NewPage source state space virt (mapped, true))
    (regions : dropped.regions = mapped.regions)
    (pages : dropped.pages = mapped.pages.free state.pages.next)
    (frames : dropped.frames = (mapped.physFree (newFrame source state)).frames)
    (log : dropped.log = .read false :: mapped.log) :
    (fillSlot source space virt mapping.region index
        (.returns none dropped)).Harmless state ↔
      Recovers source state space virt none := by
  have sameRegions : dropped.regions = state.regions := by
    rw [regions]
    cases new with
    | there _ new | linked _ _ new =>
      exact new.regions
  have sameCells : dropped.pages.cells = state.pages.cells := by
    rw [pages]
    cases new with
    | there _ new | linked _ _ new =>
      exact cells_dropped new.pages
  refine (undone_iff live empty sameRegions sameCells).trans ?_
  cases new with
  | there present _ sameFrames sameLog =>
    have isFrames : dropped.frames =
          ((state.physAlloc source).physFree
            (newFrame source state)).frames := by
      rw [frames]
      unfold physFree setFrame
      rw [sameFrames]
    rw [recovers_of_present present, isFrames, frames_dropped_iff, log,
      sameLog, physAlloc_log, begins]
    cases found : state.nextFrame source with
    | none =>
      have isZero : newFrame source state = 0 := by
        unfold newFrame
        rw [found]
        rfl
      simp [isZero]
    | some frame =>
      have isFrame := newFrame_of_found found
      have nonzero := (source.fresh found).1
      simp [isFrame, Ne.symm nonzero]
  | @linked _ table absent found _ sameFrames =>
    refine iff_of_false ?_ (not_recovers_of_linked absent found)
    rintro ⟨same, -, -⟩
    obtain ⟨apart, wasFree⟩ := frame_of_linked found
    have isTaken : dropped.frames table = true := by
      rw [frames]
      refine (if_neg apart).trans ?_
      rw [sameFrames]
      exact if_pos rfl
    rw [same, wasFree] at isTaken
    cases isTaken

theorem fetched_harmless_iff (cases_ : Fetched source state space virt fetched)
    (fails :
      Fails
        (fillSlot source space virt mapping.region index fetched).state.log) :
    (fillSlot source space virt mapping.region index fetched).Harmless state ↔
      Recovers source state space virt none := by
  cases cases_ with
  | refused new =>
    exact refused_harmless_iff begins live empty new
  | unread new regions pages frames log =>
    exact unread_harmless_iff begins live empty new regions pages frames log
  | stuck new log =>
    refine iff_of_false not_false fun recovers => ?_
    obtain ⟨event, isEvent, fails⟩ := fails
    exact new.no_failure begins recovers ⟨event, log event isEvent fails, fails⟩
  | @delivered mapped filled new tables log =>
    refine iff_of_false showPage_not_harmless fun recovers => ?_
    have present :
        (filled.setSlot mapping.region index
            (some state.pages.next)).tables (some space)
          (PGDIR_ENTRY virt) = true := by
      refine (congrFun (congrFun tables _) _).trans ?_
      cases new with
      | there _ new | linked _ _ new =>
        exact new.table
    obtain ⟨event, isEvent, fails⟩ := showPage_fails present fails
    exact new.no_failure begins recovers ⟨event, log event isEvent fails, fails⟩

end PageFaults

/-- `region->pages[i]`; nothing for a region that is freed. -/
def slot (state : FaultState Vnode) (region index : Nat) : Option Nat :=
  (state.regions.cells region).bind fun cell => cell.pages index

/--
A page fault for which something fails is harmless exactly where it recovers:
the slot is empty, `phys_alloc` has a frame for the page, or the frame 0 is
free, and either the page table cannot be had or it has been there.
-/
theorem vmGetpage_harmless_iff (source : FrameSource) (state : FaultState Vnode)
    (begins : state.log = [])
    (space : Nat) (start : BitVec 32) (mapping : VmMapping) (offset : BitVec 32)
    (rw : Bool) (read : VnodeRead Vnode)
    (fails :
      Fails
        (state.vmGetpage source space start mapping offset rw read).state.log) :
    (state.vmGetpage source space start mapping offset rw read).Harmless state ↔
      Recovers source state space (start + offset)
        (state.slot mapping.region (offset.toInt.tdiv PAGE_SIZE).toNat) := by
  have nothingFails : ¬ Fails state.log := by
    rintro ⟨event, isEvent, -⟩
    rw [begins] at isEvent
    cases isEvent
  unfold vmGetpage at fails ⊢
  split at fails
  next refused => exact absurd fails nothingFails
  next allowed =>
    rw [if_neg allowed]
    unfold slot
    split at fails
    next freed => exact absurd fails nothingFails
    next region live =>
      rw [live]
      dsimp only at fails ⊢
      split at fails
      next outside => exact absurd fails nothingFails
      next inside =>
        rw [if_neg inside]
        rw [Option.bind_some]
        generalize (offset.toInt.tdiv PAGE_SIZE).toNat = index at fails ⊢
        cases occupied : region.pages index with
        | none =>
          rw [occupied] at fails
          exact fetched_harmless_iff begins live occupied getpage_cases fails
        | some page =>
          refine iff_of_false ?_ fun recovers =>
            Option.some_ne_none page recovers.1
          cases mapping.has mapShared with
          | true =>
            exact fetched_not_harmless live occupied getpage_cases
          | false =>
            dsimp only
            split
            next write => exact copied_not_harmless live occupied
            next readOnly => exact showPage_not_harmless

/-- One anonymous page, not yet there, with its page table or without. -/
def untouchedPage (table : Bool) : FaultState Unit where
  regions :=
    Heap.empty.alloc
      { refs := 1
        ops := .anon
        pages := fun _ => none
        size := 0x1000
        vnode := none
        offset := 0 }
  pages := Heap.empty
  frames := fun frame => frame != 5
  bytes := fun _ => zeroPage
  tables := fun _ _ => table
  entries := fun _ _ => none
  kmem := smaAreaCreate 0xF0000000 0x10000000
  log := []

/-- A mapping of the region that can be written. -/
def untouchedMapping : VmMapping where
  flags := protWrite ||| mapPrivate ||| mapAnonymous
  region := 0
  offset := 0

/-- `phys_alloc` without any frame. -/
def noFrames : FrameSource where
  answer := fun _ _ => none
  fresh := fun found => absurd found.symm (Option.some_ne_none _)

/-- `phys_alloc` with the frame 5 as the last one. -/
def lastFrame : FrameSource where
  answer := fun _ frames => if frames 5 then none else some 5
  fresh := by
    intro log frames frame found
    split at found
    next isTaken => cases found
    next isFree =>
      cases found
      exact ⟨by decide, Bool.eq_false_iff.mpr isFree⟩

/-- The last frame is given back where no page table can be had. -/
theorem vmGetpage_harmless_iff_lastFrame :
    ((untouchedPage false).vmGetpage lastFrame 0 0x00400000 untouchedMapping 0
      true fun _ _ => .ok []).Harmless (untouchedPage false) := by
  refine (vmGetpage_harmless_iff lastFrame (untouchedPage false) rfl 0
    0x00400000 untouchedMapping 0 true (fun _ _ => .ok []) ?_).mpr ?_
  · exact ⟨.physAlloc none, by decide, rfl⟩
  · exact ⟨rfl, .inl ⟨⟨rfl, rfl⟩, .inl (Option.some_ne_none 5)⟩⟩

/-- Without any frame the frame 0 is mapped, cleared and taken for the page. -/
theorem noFrames_not_harmless :
    ¬ ∀ (source : FrameSource) (state : FaultState Unit) (space : Nat)
        (start : BitVec 32) (mapping : VmMapping) (offset : BitVec 32)
        (rw : Bool) (read : VnodeRead Unit),
      state.log = [] →
      Fails
        (state.vmGetpage source space start mapping offset rw read).state.log →
      (state.vmGetpage source space start mapping offset rw read).Harmless
        state := by
  intro harmless
  have fails : Fails
        ((untouchedPage true).vmGetpage noFrames 0 0x00400000 untouchedMapping
          0 true fun _ _ => .ok []).state.log :=
    ⟨.physAlloc none, by decide, rfl⟩
  have refused := harmless noFrames (untouchedPage true) 0 0x00400000
    untouchedMapping 0 true (fun _ _ => .ok []) rfl fails
  exact refused.1 rfl

end FaultState

end Idylla.Mm
