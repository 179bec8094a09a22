import Idylla.Mm.VmSound

namespace Idylla.Mm

/-!
# What a page fault changes

A page fault that is not refused replaces one slot of one region and one
entry of one page table.
-/

variable {w : Nat} {Vnode : Type}

/-- One slot and one entry are replaced. -/
structure PageChange
    (state next : VmState w Vnode) (space : Nat) (virt : BitVec w)
    (pointer index : Nat) (slot : Option Nat)
    (entry : Option Pte) : Prop where
  areas : ∀ other, (next.spaces other).area = (state.spaces other).area
  cells : ∀ other,
      next.regions.cells other =
        (state.regions.cells other).map fun cell =>
          if other = pointer then cell.setPage index slot else cell
  table : ∀ other address,
      (next.spaces other).pageTable address =
        if other = space ∧ address = virt then entry
        else (state.spaces other).pageTable address

variable {state next : VmState w Vnode} {space index : Nat} {virt : BitVec w}
  {mapping : VmMapping} {region : VmRegion w Vnode}

theorem cells_setSlot (live : state.regions.cells mapping.region = some region)
    (slot : Option Nat) (other : Nat) :
    (state.setSlot mapping.region index slot).regions.cells other =
      (state.regions.cells other).map fun cell =>
        if other = mapping.region then cell.setPage index slot
        else cell := by
  by_cases same : other = mapping.region
  · rw [same, VmState.setSlot_cells_same live, live]
    simp [VmRegion.setPage]
  · rw [VmState.setSlot_cells_other same]
    simp [same]

namespace PageChange

variable {pointer : Nat} {slot : Option Nat} {entry : Option Pte}

theorem slot_eq
    (change : PageChange state next space virt mapping.region index slot entry)
    (live : state.regions.cells mapping.region = some region)
    (owner position : Nat) :
    next.slot owner position =
      if owner = mapping.region ∧ position = index then slot
      else state.slot owner position := by
  unfold VmState.slot
  rw [change.cells]
  by_cases same : owner = mapping.region
  · subst same
    by_cases sameIndex : position = index <;>
      simp [live, VmRegion.setPage, sameIndex]
  · simp [same]

theorem uses_iff
    (change : PageChange state next space virt pointer index slot entry)
    {other : Nat} {block : SmaBlock w VmMapping} :
    next.Uses other block mapping ↔ state.Uses other block mapping := by
  rw [VmState.Uses, VmState.Uses, change.areas]

section

variable (live : state.regions.cells mapping.region = some region)

include live

theorem shown {page : Option Nat} (holds : region.pages index = page)
    (pte : Pte) :
    PageChange state (state.mapPage space virt pte) space virt
      mapping.region index page (some pte) where
  areas := fun _ => VmState.mapPage_area ..
  cells := by
    intro other
    have isSelf : region.setPage index page = region :=
      VmRegion.setPage_self holds
    rw [VmState.mapPage_regions]
    by_cases same : other = mapping.region
    · rw [same, live]
      simp [isSelf]
    · simp [same]
  table := fun _ _ => VmState.mapPage_pageTable ..

theorem copied (page frame : Nat) :
    PageChange state
      (((vmCopyPage state space virt page frame).setSlot mapping.region
        index (some frame)).mapPage space virt
        { frame := frame, user := true, rw := true })
      space virt mapping.region index (some frame)
      (some { frame := frame, user := true, rw := true }) where
  areas := by
    simp [vmCopyPage]
  cells := cells_setSlot live (some frame)
  table := by
    intro other address
    simp only [VmState.mapPage_pageTable, VmState.setSlot_spaces,
      vmCopyPage, VmState.releasePage_spaces, VmState.newPage_spaces]
    split <;> rfl

theorem fetched (frame : Nat) (content : PageBytes) :
    PageChange state
      ((((state.newPage frame content).mapPage space virt
        { frame := frame, user := false, rw := true }).setSlot
        mapping.region index (some frame)).mapPage space virt
        { frame := frame, user := true, rw := true })
      space virt mapping.region index (some frame)
      (some { frame := frame, user := true, rw := true }) where
  areas := by
    simp
  cells := cells_setSlot live (some frame)
  table := by
    intro other address
    simp only [VmState.mapPage_pageTable, VmState.setSlot_spaces,
      VmState.newPage_spaces]
    split <;> rfl

end

theorem failed (live : state.regions.cells mapping.region = some region) :
    PageChange state
      ((state.unmapPage space virt).setSlot mapping.region index none)
      space virt mapping.region index none none where
  areas := by
    simp
  cells := cells_setSlot live none
  table := fun _ _ => VmState.unmapPage_pageTable ..

end PageChange

theorem Served.change
    {start : BitVec w} {rw : Bool} {read : VnodeRead Vnode} {frame : Nat}
    {result : Int} (live : state.regions.cells mapping.region = some region)
    (served :
      Served state space start mapping region index rw read frame next result) :
    (mapping.has protWrite = false ∧ rw = true ∧ next = state ∧ result ≠ 0) ∨
      ∃ slot entry,
        PageChange state next space (pageAddress start index)
            mapping.region index slot entry ∧
          slot = entry.map Pte.frame ∧
          (result = 0 → entry ≠ none) ∧
          ∀ other, other ≠ frame → next.bytes other = state.bytes other := by
  cases served with
  | refused readOnly write =>
    exact .inl ⟨readOnly, write, rfl, by decide⟩
  | shows holds _ _ =>
    exact .inr ⟨_, _, .shown live holds _, rfl, by simp, fun _ _ => rfl⟩
  | @copies page holds _ _ =>
    exact .inr ⟨_, _, .copied live page frame, rfl, by simp,
      fun _ different => if_neg different⟩
  | @fetches content _ _ =>
    exact .inr ⟨_, _, .fetched live frame content, rfl, by simp,
      fun _ different => if_neg different⟩
  | fails _ _ =>
    exact .inr ⟨_, _, .failed live, rfl, by simp, fun _ _ => rfl⟩

end Idylla.Mm
