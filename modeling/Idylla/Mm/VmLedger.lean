import Idylla.Lib.Counting
import Idylla.Mm.VmCalls

namespace Idylla.Mm

open Idylla.Lib

/-!
# Exact page counts

The ledger of a state and of all that has been asked for so far: the count of
a page is the number of slots that hold it, a frame is in use exactly while it
has been allocated once more than freed, and a vnode is held once for every
region that maps it.
-/

variable {w : Nat} {Vnode : Type}

/-- The count of a page is the number of slots that hold its frame. -/
def ExactlyCountedBy (pages : Nat → Option Nat)
    (slot : Nat → Nat → Option Nat) : Prop :=
  ∀ frame,
    pages frame ≠ some 0 ∧
      HasCount (fun owner : Nat × Nat => slot owner.1 owner.2 = some frame)
        ((pages frame).getD 0)

theorem setEntry_setEntry (slot : Nat → Nat → Option Nat) (region index : Nat)
    (first second : Option Nat) :
    setEntry (setEntry slot region index first) region index second =
      setEntry slot region index second := by
  funext other position
  by_cases here : other = region ∧ position = index <;> simp [setEntry, here]

namespace ExactlyCountedBy

variable {pages after : Nat → Option Nat} {slot : Nat → Nat → Option Nat}
  {region index frame : Nat}

variable (exact : ExactlyCountedBy pages slot)

include exact

theorem countedBy :
    CountedBy pages slot := by
  intro frame
  obtain ⟨-, owners, -, all, isCount⟩ := exact frame
  exact ⟨owners, Nat.le_of_eq isCount,
    fun region index holds => (all (region, index)).mpr holds⟩

theorem in_use_iff (frame : Nat) :
    pages frame ≠ none ↔ ∃ region index, slot region index = some frame := by
  obtain ⟨positive, counted⟩ := exact frame
  constructor
  · intro inUse
    obtain ⟨refs, isRefs⟩ := Option.ne_none_iff_exists'.mp inUse
    rw [isRefs] at positive counted
    have more : 0 < refs := Nat.pos_of_ne_zero fun isZero =>
      positive (congrArg some isZero)
    obtain ⟨owner, holds⟩ := counted.exists more
    exact ⟨owner.1, owner.2, holds⟩
  · rintro ⟨region, index, holds⟩ free
    rw [free] at counted
    have more := @HasCount.pos _ _ _ counted (region, index) holds
    exact absurd more (Nat.lt_irrefl 0)

theorem fill (empty : slot region index = none)
    (held : after frame = some ((pages frame).getD 0 + 1))
    (same : ∀ other, other ≠ frame → after other = pages other) :
    ExactlyCountedBy after (setEntry slot region index (some frame)) := by
  intro other
  obtain ⟨positive, counted⟩ := exact other
  by_cases isFrame : other = frame
  · subst isFrame
    rw [held]
    refine ⟨by simp, ?_⟩
    refine @HasCount.insert _ _ _ _ counted (region, index) (by simp [empty]) ?_
    rintro ⟨otherRegion, position⟩
    by_cases here : otherRegion = region ∧ position = index
    · simp [setEntry, here]
    · simp [setEntry, here]
  · rw [same other isFrame]
    refine ⟨positive, counted.congr ?_⟩
    rintro ⟨otherRegion, position⟩
    by_cases here : otherRegion = region ∧ position = index
    · simp [setEntry, here, empty, Ne.symm isFrame]
    · simp [setEntry, here]

theorem release (holds : slot region index = some frame)
    (released :
      after frame =
        (pages frame).bind fun refs =>
          if refs - 1 = 0 then none else some (refs - 1))
    (same : ∀ other, other ≠ frame → after other = pages other) :
    ExactlyCountedBy after (setEntry slot region index none) := by
  intro other
  obtain ⟨positive, counted⟩ := exact other
  by_cases isFrame : other = frame
  · subst isFrame
    have inUse := (exact.in_use_iff other).mpr ⟨region, index, holds⟩
    obtain ⟨refs, isRefs⟩ := Option.ne_none_iff_exists'.mp inUse
    rw [isRefs] at positive counted released
    rw [Option.bind_some] at released
    obtain ⟨others, rfl⟩ : ∃ others, refs = others + 1 :=
      ⟨refs - 1, by
        have notZero : refs ≠ 0 := fun isZero => positive (congrArg some isZero)
        omega⟩
    have isAfter : (after other).getD 0 = others := by
      rw [released]
      split <;> simp_all
    refine ⟨?_, ?_⟩
    · rw [released]
      split <;> simp_all
    · rw [isAfter]
      refine @HasCount.erase _ _ _ _ counted (region, index) holds ?_
      rintro ⟨otherRegion, position⟩
      by_cases here : otherRegion = region ∧ position = index
      · simp [setEntry, here]
      · simp [setEntry, here]
  · rw [same other isFrame]
    refine ⟨positive, counted.congr ?_⟩
    rintro ⟨otherRegion, position⟩
    by_cases here : otherRegion = region ∧ position = index
    · simp [setEntry, here, holds, Ne.symm isFrame]
    · simp [setEntry, here]

end ExactlyCountedBy

/-- The region at a pointer is live and maps a vnode. -/
def VmState.Maps (state : VmState w Vnode) (vnode : Vnode)
    (pointer : Nat) : Prop :=
  (state.regions.cells pointer).bind VmRegion.vnode = some vnode

/-- The number of pages, one or none, that own a frame. -/
def VmState.owned (state : VmState w Vnode) (frame : Nat) : Nat :=
  (state.pages frame).isSome.toNat

theorem VmState.vnode_setSlot
    (state : VmState w Vnode) (region index : Nat) (page : Option Nat)
    (pointer : Nat) :
    ((state.setSlot region index page).regions.cells pointer).bind
        VmRegion.vnode =
      (state.regions.cells pointer).bind VmRegion.vnode := by
  by_cases same : pointer = region
  · subst same
    cases live : state.regions.cells pointer <;> simp [VmState.setSlot, live]
  · rw [VmState.setSlot_cells_other same]

variable [DecidableEq Vnode]

/-- A state and all that has been asked for to get there. -/
structure Ledger
    (state : VmState w Vnode)
    (events : List (VmEvent w Vnode)) : Prop where
  pages : ExactlyCountedBy state.pages state.slot
  frames : ∀ frame,
      events.count (.physAlloc frame) =
        events.count (.physFree frame) + state.owned frame
  vnodes : ∀ vnode, ∃ held,
      HasCount (state.Maps vnode) held ∧
        events.count (.vnodeHold vnode) = events.count (.vnodeRel vnode) + held

theorem count_holdEvents (vnode : Option Vnode) (event : VmEvent w Vnode) :
    (holdEvents vnode).count event =
      if vnode.map VmEvent.vnodeHold = some event then 1 else 0 := by
  cases vnode <;> simp [holdEvents, List.count_singleton]

theorem count_relEvents (vnode : Option Vnode) (event : VmEvent w Vnode) :
    (relEvents vnode).count event =
      if vnode.map VmEvent.vnodeRel = some event then 1 else 0 := by
  cases vnode <;> simp [relEvents, List.count_singleton]

/-- The events leave the counts of vnodes alone. -/
def NoVnodes (events : List (VmEvent w Vnode)) : Prop :=
  ∀ vnode,
    events.count (.vnodeHold vnode) = 0 ∧ events.count (.vnodeRel vnode) = 0

/-- The events balance the change of the frames in use. -/
def BalanceFrames (state after : VmState w Vnode)
    (events : List (VmEvent w Vnode)) : Prop :=
  ∀ frame,
    events.count (.physAlloc frame) + state.owned frame =
      events.count (.physFree frame) + after.owned frame

theorem balanceFrames_releasePage (state : VmState w Vnode) (frame : Nat) :
    BalanceFrames state (state.releasePage frame)
      (releasePageEvents state frame) := by
  intro other
  unfold releasePageEvents VmState.releasePage VmState.owned
  cases isRefs : state.pages frame with
  | none =>
    by_cases same : other = frame <;> simp [same, isRefs]
  | some refs =>
    by_cases last : refs - 1 = 0
    · by_cases same : other = frame
      · simp [same, isRefs, last]
      · simp [same, last, Ne.symm same]
    · by_cases same : other = frame <;> simp [same, isRefs, last]

theorem noVnodes_releasePage (state : VmState w Vnode) (frame : Nat) :
    NoVnodes (releasePageEvents state frame) := by
  intro vnode
  unfold releasePageEvents
  split
  · exact ⟨rfl, rfl⟩
  · split <;> simp

namespace Ledger

variable {state after : VmState w Vnode} {events new : List (VmEvent w Vnode)}
  {region index frame : Nat} {cell : VmRegion w Vnode}

theorem boot (memory : UserMemory w) (bytes : Nat → PageBytes) :
    Ledger (VmState.boot memory bytes : VmState w Vnode) [] := by
  refine ⟨fun frame => ⟨by simp [VmState.boot], ?_⟩, fun _ => rfl, ?_⟩
  · exact hasCount_zero_iff.mpr fun owner holds => (by cases holds)
  · intro vnode
    exact ⟨0, hasCount_zero_iff.mpr fun pointer maps => (by cases maps),
      rfl⟩

theorem change (ledger : Ledger state events)
    (pages : ExactlyCountedBy after.pages after.slot)
    (frames : BalanceFrames state after new) (noVnodes : NoVnodes new)
    (sameVnodes :
      ∀ pointer,
        (after.regions.cells pointer).bind VmRegion.vnode =
          (state.regions.cells pointer).bind VmRegion.vnode) :
    Ledger after (events ++ new) := by
  refine ⟨pages, ?_, ?_⟩
  · intro frame
    have before := ledger.frames frame
    have now := frames frame
    rw [List.count_append, List.count_append]
    omega
  · intro vnode
    obtain ⟨held, counted, isHeld⟩ := ledger.vnodes vnode
    obtain ⟨noHold, noRel⟩ := noVnodes vnode
    refine ⟨held, counted.congr fun pointer => ?_, ?_⟩
    · unfold VmState.Maps
      rw [sameVnodes]
    · rw [List.count_append, List.count_append, noHold, noRel, isHeld]
      omega

theorem congr (ledger : Ledger state events)
    (samePages : after.pages = state.pages)
    (sameSlots : after.slot = state.slot)
    (sameVnodes :
      ∀ pointer,
        (after.regions.cells pointer).bind VmRegion.vnode =
          (state.regions.cells pointer).bind VmRegion.vnode) :
    Ledger after events := by
  have changed : Ledger after (events ++ []) := by
    refine ledger.change ?_ ?_ (fun _ => ⟨rfl, rfl⟩) sameVnodes
    · rw [samePages, sameSlots]
      exact ledger.pages
    · intro frame
      simp [VmState.owned, samePages]
  rwa [List.append_nil] at changed

theorem mapPage (ledger : Ledger state events) (space : Nat) (virt : BitVec w)
    (pte : Pte) :
    Ledger (state.mapPage space virt pte)
      (events ++ [.mapPage space virt]) := by
  refine ledger.change ledger.pages ?_ ?_ fun _ => rfl
  · intro frame
    simp [VmState.owned]
  · intro vnode
    simp

variable (ledger : Ledger state events)

include ledger

theorem newSlot (live : state.regions.cells region = some cell)
    (empty : cell.pages index = none) (unused : state.pages frame = none)
    (content : PageBytes) :
    Ledger ((state.newPage frame content).setSlot region index (some frame))
      (events ++ [.physAlloc frame]) := by
  have slots :
      ((state.newPage frame content).setSlot region index (some frame)).slot =
        setEntry state.slot region index (some frame) :=
    @VmState.slot_setSlot_eq _ _ (state.newPage frame content) _ _ live index _
  refine ledger.change ?_ ?_ (fun _ => by simp) (VmState.vnode_setSlot _ _ _ _)
  · rw [slots]
    refine ledger.pages.fill ?_ ?_ ?_
    · rw [VmState.slot_of_live live, empty]
    · simp [VmState.setSlot, VmState.newPage, unused]
    · intro other different
      simp [VmState.setSlot, VmState.newPage, different]
  · intro other
    by_cases same : other = frame
    · simp [VmState.owned, VmState.setSlot, VmState.newPage, same, unused]
    · simp [VmState.owned, VmState.setSlot, VmState.newPage, same, Ne.symm same]

theorem holdSlot (live : state.regions.cells region = some cell)
    (empty : cell.pages index = none) (inUse : state.pages frame ≠ none) :
    Ledger ((state.holdPage frame).setSlot region index (some frame))
      events := by
  have slots : ((state.holdPage frame).setSlot region index (some frame)).slot =
        setEntry state.slot region index (some frame) :=
    @VmState.slot_setSlot_eq _ _ (state.holdPage frame) _ _ live index _
  obtain ⟨refs, isRefs⟩ := Option.ne_none_iff_exists'.mp inUse
  have changed :
      Ledger ((state.holdPage frame).setSlot region index (some frame))
        (events ++ []) := by
    refine ledger.change ?_ ?_ (fun _ => ⟨rfl, rfl⟩)
      (VmState.vnode_setSlot _ _ _ _)
    · rw [slots]
      refine ledger.pages.fill ?_ ?_ ?_
      · rw [VmState.slot_of_live live, empty]
      · simp [VmState.setSlot, VmState.holdPage, isRefs]
      · intro other different
        simp [VmState.setSlot, VmState.holdPage, different]
    · intro other
      by_cases same : other = frame <;>
        simp [VmState.owned, VmState.setSlot, VmState.holdPage, same, isRefs]
  rwa [List.append_nil] at changed

theorem releaseSlot (live : state.regions.cells region = some cell)
    (index : Nat) :
    Ledger (Mm.releaseSlot state region index)
      (events ++ releaseSlotEvents state region index) := by
  unfold Mm.releaseSlot releaseSlotEvents
  cases holds : state.slot region index with
  | none =>
    simpa using ledger
  | some frame =>
    have slots : ((state.releasePage frame).setSlot region index none).slot =
          setEntry state.slot region index none :=
      @VmState.slot_setSlot_eq _ _ (state.releasePage frame) _ _ live index _
    refine ledger.change ?_ (balanceFrames_releasePage state frame)
      (noVnodes_releasePage state frame) (VmState.vnode_setSlot _ _ _ _)
    rw [slots]
    refine ledger.pages.release holds ?_ ?_
    · simp [VmState.setSlot, VmState.releasePage]
    · intro other different
      simp [VmState.setSlot, VmState.releasePage, different]

theorem copySlot (live : state.regions.cells region = some cell) {old : Nat}
    (holds : cell.pages index = some old) (unused : state.pages frame = none)
    (space : Nat) (virt : BitVec w) :
    Ledger
      ((vmCopyPage state space virt old frame).setSlot region index
        (some frame))
      (events ++ vmCopyPageEvents state space virt old frame) := by
  have slot : state.slot region index = some old :=
    (VmState.slot_of_live live index).trans holds
  have inUse := (ledger.pages.in_use_iff old).mpr ⟨region, index, slot⟩
  have different : frame ≠ old := by
    rintro rfl
    exact inUse unused
  have slots :
      ((vmCopyPage state space virt old frame).setSlot region index
          (some frame)).slot =
        setEntry (setEntry state.slot region index none) region index
          (some frame) := by
    rw [setEntry_setEntry]
    exact @VmState.slot_setSlot_eq _ _
      (vmCopyPage state space virt old frame) _ _ live index _
  have released : ExactlyCountedBy (state.releasePage old).pages
        (setEntry state.slot region index none) := by
    refine ledger.pages.release slot ?_ ?_
    · simp [VmState.releasePage]
    · intro other differs
      simp [VmState.releasePage, differs]
  have release := balanceFrames_releasePage
    (state.newPage frame (state.bytes old)) old
  refine ledger.change ?_ ?_ ?_ (VmState.vnode_setSlot _ _ _ _)
  · rw [slots]
    refine released.fill (by simp [setEntry]) ?_ ?_
    · simp [VmState.setSlot, vmCopyPage, VmState.releasePage,
        VmState.newPage, different, unused]
    · intro other differs
      simp [VmState.setSlot, vmCopyPage, VmState.releasePage,
        VmState.newPage, differs, Ne.symm different]
  · intro other
    have after := release other
    have isAfter :
        ((vmCopyPage state space virt old frame).setSlot region index
            (some frame)).owned other =
          ((state.newPage frame (state.bytes old)).releasePage old).owned
            other :=
      rfl
    have isNew : (state.newPage frame (state.bytes old)).owned other =
          state.owned other + if other = frame then 1 else 0 := by
      by_cases same : other = frame <;>
        simp [VmState.owned, VmState.newPage, same, unused]
    have allocs :
        ([.physAlloc frame, .mapPage space virt] :
            List (VmEvent w Vnode)).count (.physAlloc other) =
          if other = frame then 1 else 0 := by
      by_cases same : other = frame
      · simp [same]
      · simp [same, Ne.symm same]
    have frees :
        ([.physAlloc frame, .mapPage space virt] :
            List (VmEvent w Vnode)).count (.physFree other) = 0 := by
      simp
    rw [vmCopyPageEvents, List.count_append, List.count_append, allocs, frees]
    omega
  · intro vnode
    have noVnodes := noVnodes_releasePage
      (state.newPage frame (state.bytes old)) old vnode
    simp [vmCopyPageEvents, noVnodes]

theorem releaseSlots (live : state.regions.cells region = some cell)
    (count : Nat) :
    Ledger (Mm.releaseSlots state region count)
      (events ++ releaseSlotsEvents state region count) := by
  induction count with
  | zero =>
    simpa [Mm.releaseSlots, releaseSlotsEvents] using ledger
  | succ count ih =>
    have released := releaseSlots_spec ledger.pages.countedBy live count
    rw [Mm.releaseSlots, releaseSlotsEvents, ← List.append_assoc]
    exact ih.releaseSlot released.cell count

theorem allocRegion {fresh : VmRegion w Vnode}
    (empty : ∀ index, fresh.pages index = none) :
    Ledger (state.allocRegion fresh) (events ++ holdEvents fresh.vnode) := by
  have unallocated :=
    state.regions.unallocated state.regions.next (Nat.le_refl _)
  have slots : (state.allocRegion fresh).slot = state.slot := by
    funext owner index
    by_cases isNew : owner = state.regions.next
    · subst isNew
      simp [VmState.slot, VmState.allocRegion, unallocated, empty]
    · simp [VmState.slot, VmState.allocRegion, Heap.alloc, isNew]
  refine ⟨?_, ?_, ?_⟩
  · rw [slots]
    exact ledger.pages
  · intro frame
    rw [List.count_append, List.count_append, ledger.frames frame]
    simp [count_holdEvents, VmState.owned, VmState.allocRegion]
  · intro vnode
    obtain ⟨held, counted, isHeld⟩ := ledger.vnodes vnode
    by_cases isVnode : fresh.vnode = some vnode
    · refine ⟨held + 1, ?_, ?_⟩
      · refine @HasCount.insert _ _ _ _ counted state.regions.next ?_ ?_
        · simp [VmState.Maps, unallocated]
        · intro pointer
          by_cases isNew : pointer = state.regions.next
          · simp [VmState.Maps, VmState.allocRegion, isNew, isVnode]
          · simp [VmState.Maps, VmState.allocRegion, Heap.alloc, isNew]
      · rw [List.count_append, List.count_append, isHeld]
        simp [count_holdEvents, isVnode, Nat.add_assoc]
    · refine ⟨held, ?_, ?_⟩
      · refine counted.congr fun pointer => ?_
        by_cases isNew : pointer = state.regions.next
        · simp [VmState.Maps, VmState.allocRegion, isNew, isVnode, unallocated]
        · simp [VmState.Maps, VmState.allocRegion, Heap.alloc, isNew]
      · rw [List.count_append, List.count_append, isHeld]
        simp [count_holdEvents, isVnode]

theorem freeRegion (live : state.regions.cells region = some cell)
    (empty : ∀ index, cell.pages index = none) :
    Ledger { state with regions := state.regions.free region }
      (events ++ relEvents cell.vnode) := by
  have slots :
      ({ state with regions := state.regions.free region } :
          VmState w Vnode).slot = state.slot := by
    funext owner index
    by_cases isRegion : owner = region
    · subst isRegion
      simp [VmState.slot, live, empty]
    · simp [VmState.slot, Heap.cells_free_of_ne isRegion]
  refine ⟨?_, ?_, ?_⟩
  · rw [slots]
    exact ledger.pages
  · intro frame
    rw [List.count_append, List.count_append, ledger.frames frame]
    simp [count_relEvents, VmState.owned]
  · intro vnode
    obtain ⟨held, counted, isHeld⟩ := ledger.vnodes vnode
    by_cases isVnode : cell.vnode = some vnode
    · have maps : state.Maps vnode region := by
        simp [VmState.Maps, live, isVnode]
      obtain ⟨others, rfl⟩ : ∃ others, held = others + 1 :=
        ⟨held - 1, by have := counted.pos maps; omega⟩
      refine ⟨others, ?_, ?_⟩
      · refine counted.erase maps fun pointer => ?_
        by_cases isRegion : pointer = region
        · simp [VmState.Maps, isRegion]
        · simp [VmState.Maps, Heap.cells_free_of_ne, isRegion]
      · simp [count_relEvents, isVnode]
        omega
    · refine ⟨held, ?_, ?_⟩
      · refine counted.congr fun pointer => ?_
        by_cases isRegion : pointer = region
        · simp [VmState.Maps, isRegion, live, isVnode]
        · simp [VmState.Maps, Heap.cells_free_of_ne, isRegion]
      · rw [List.count_append, List.count_append, isHeld]
        simp [count_relEvents, isVnode]

theorem vmDestroyRegion (live : state.regions.cells region = some cell)
    {count : Nat} (within : ∀ index, count ≤ index → cell.pages index = none) :
    Ledger (Mm.vmDestroyRegion state region count)
      (events ++ vmDestroyRegionEvents state region count) := by
  have released := releaseSlots_spec ledger.pages.countedBy live count
  have empty : ∀ index, (cell.laterPages count).pages index = none := by
    intro index
    by_cases inLoop : index < count
    · simp [VmRegion.laterPages, inLoop]
    · simp [VmRegion.laterPages, inLoop, within index (by omega)]
  have freed := (ledger.releaseSlots live count).freeRegion released.cell empty
  rw [vmDestroyRegionEvents, live, ← List.append_assoc]
  exact freed

theorem setRefs (region : Nat) (refs : VmRegion w Vnode → Nat) :
    Ledger
      { state with
        regions := state.regions.modify region fun cell =>
          { cell with refs := refs cell } }
      events := by
  refine ledger.congr rfl ?_ fun pointer => ?_
  · funext owner index
    by_cases isRegion : owner = region
    · subst isRegion
      cases live : state.regions.cells owner <;> simp [VmState.slot, live]
    · simp [VmState.slot, Heap.cells_modify_of_ne isRegion]
  · by_cases isRegion : pointer = region
    · subst isRegion
      cases live : state.regions.cells pointer <;> simp [live]
    · simp [Heap.cells_modify_of_ne isRegion]

theorem holdRegion (region : Nat) : Ledger (state.holdRegion region) events :=
  ledger.setRefs region fun cell => cell.refs + 1

theorem dropRegion (region : Nat) : Ledger (state.dropRegion region) events :=
  ledger.setRefs region fun cell => cell.refs - 1

theorem shareSlots {old parent child : Nat} {source fresh : VmRegion w Vnode}
    (pair : FreshPair state old parent child source fresh) (count : Nat) :
    Ledger (Mm.shareSlots state old parent child count) events := by
  induction count with
  | zero =>
    exact ledger
  | succ count ih =>
    have shared := shareSlots_spec ledger.pages.countedBy pair count
    rw [Mm.shareSlots]
    generalize Mm.shareSlots state old parent child count = before at ih shared
    have unshared : (source.firstPages count).pages count = none := by
      simp [VmRegion.firstPages]
    unfold shareSlot
    cases holds : before.slot old count with
    | none =>
      exact ih
    | some frame =>
      have inUse := (ih.pages.in_use_iff frame).mpr ⟨old, count, holds⟩
      have first := ih.holdSlot shared.parentCell unshared inUse
      have held := heldSlot shared.counted shared.parentCell inUse count
      have childLive :=
        (held.others child (Ne.symm pair.parentNotChild)).trans shared.childCell
      exact first.holdSlot childLive unshared (held.counted.in_use held.holds)

theorem protectSlots (src : Nat) (start : BitVec w) (region count : Nat) :
    Ledger (Mm.protectSlots state src start region count)
      (events ++ protectSlotsEvents state src start region count) := by
  induction count with
  | zero =>
    simpa [Mm.protectSlots, protectSlotsEvents] using ledger
  | succ count ih =>
    rw [Mm.protectSlots, protectSlotsEvents, ← List.append_assoc]
    generalize Mm.protectSlots state src start region count = before at ih
    cases holds : before.slot region count with
    | none =>
      simpa [holds] using ih
    | some frame =>
      simpa only [holds] using ih.mapPage src (pageAddress start count)
        { frame := frame, user := true, rw := false }

end Ledger

/-- What splitting a region leaves, however many mappings it has. -/
structure SplitLedger
    (state after : VmState w Vnode) (events : List (VmEvent w Vnode))
    (old : Nat)
    (region : VmRegion w Vnode) : Prop where
  ledger : Ledger after events
  area : ∀ space, (after.spaces space).area = (state.spaces space).area
  parentCell :
    after.regions.cells state.regions.next = some { region with refs := 1 }
  childCell : after.regions.cells (state.regions.next + 1) =
      some { region with refs := 1 }
  oldCell : after.regions.cells old = if region.refs - 1 = 0 then none
      else some { region with refs := region.refs - 1 }
  others : ∀ other, other ≠ old → other ≠ state.regions.next →
      other ≠ state.regions.next + 1 →
      after.regions.cells other = state.regions.cells other

theorem Ledger.splitRegion
    {state : VmState w Vnode} {events : List (VmEvent w Vnode)} {old : Nat}
    {region : VmRegion w Vnode} (ledger : Ledger state events)
    (live : state.regions.cells old = some region)
    (within :
      ∀ index, pageCount region.size ≤ index → region.pages index = none)
    (src : Nat) (block : SmaBlock w VmMapping) :
    SplitLedger state (Mm.splitRegion state src block old region)
      (events ++ splitRegionEvents state src block old region)
      old region := by
  let fresh : VmRegion w Vnode :=
    { region with refs := 1, pages := fun _ => none }
  let sharedState :=
    Mm.shareSlots ((state.allocRegion fresh).allocRegion fresh) old
      state.regions.next (state.regions.next + 1) (pageCount region.size)
  let mapEvents :=
    protectSlotsEvents sharedState src block.start old (pageCount block.size)
  let mappedState :=
    Mm.protectSlots sharedState src block.start old (pageCount block.size)
  let droppedState := mappedState.dropRegion old
  have oldBelow := Heap.lt_next live
  have notParent : state.regions.next ≠ old := by omega
  have notChild : state.regions.next + 1 ≠ old := by omega
  have empty : ∀ index, fresh.pages index = none := fun _ => rfl
  have shared : HandedOver state sharedState old region :=
    handedOver ledger.pages.countedBy live within rfl
  have sharedLedger : Ledger sharedState
        (events ++ holdEvents fresh.vnode ++ holdEvents fresh.vnode) :=
    ((ledger.allocRegion empty).allocRegion empty).shareSlots
      (freshPair_allocated live empty) (pageCount region.size)
  have mapped :=
    protectSlots_spec sharedState src block.start old (pageCount block.size)
  have droppedLedger : Ledger droppedState
        (events ++ holdEvents fresh.vnode ++ holdEvents fresh.vnode ++
          mapEvents) :=
    (sharedLedger.protectSlots src block.start old
      (pageCount block.size)).dropRegion old
  have isEvents : events ++ splitRegionEvents state src block old region =
        events ++ holdEvents fresh.vnode ++ holdEvents fresh.vnode ++
          mapEvents ++
          if region.refs - 1 = 0 then
            vmDestroyRegionEvents droppedState old (pageCount region.size)
          else
            [] := by
    simp only [splitRegionEvents, List.append_assoc]
    rfl
  have isSplit : Mm.splitRegion state src block old region =
        if region.refs - 1 = 0 then
          Mm.vmDestroyRegion droppedState old (pageCount region.size)
        else
          droppedState :=
    rfl
  have droppedLive : droppedState.regions.cells old =
        some { region with refs := region.refs - 1 } := by
    have mappedLive : mappedState.regions.cells old = some region :=
      mapped.regions ▸ shared.source
    simp [droppedState, VmState.dropRegion, mappedLive]
  have dropped : ∀ other, other ≠ old →
        droppedState.regions.cells other = sharedState.regions.cells other := by
    intro other different
    rw [← mapped.regions]
    exact Heap.cells_modify_of_ne different
  have droppedArea : ∀ space,
        (droppedState.spaces space).area = (state.spaces space).area := by
    intro space
    exact (mapped.area space).trans
      (congrArg VmSpace.area (congrFun shared.spaces space))
  rw [isSplit, isEvents]
  by_cases last : region.refs - 1 = 0
  · rw [if_pos last, if_pos last]
    have destroyed := vmDestroyRegion_spec droppedLedger.pages.countedBy
      droppedLive within
    refine ⟨droppedLedger.vmDestroyRegion droppedLive within, ?_, ?_, ?_,
      ?_, ?_⟩
    · intro space
      rw [destroyed.spaces]
      exact droppedArea space
    · rw [destroyed.others _ notParent, dropped _ notParent, shared.parentCell]
    · rw [destroyed.others _ notChild, dropped _ notChild, shared.childCell]
    · rw [if_pos last]
      exact destroyed.gone
    · intro other notOld notParent notChild
      rw [destroyed.others other notOld, dropped other notOld,
        shared.others other notParent notChild]
  · rw [if_neg last, if_neg last, List.append_nil]
    refine ⟨droppedLedger, droppedArea, ?_, ?_, ?_, ?_⟩
    · rw [dropped _ notParent, shared.parentCell]
    · rw [dropped _ notChild, shared.childCell]
    · rw [if_neg last]
      exact droppedLive
    · intro other notOld notParent notChild
      rw [dropped other notOld, shared.others other notParent notChild]

end Idylla.Mm
