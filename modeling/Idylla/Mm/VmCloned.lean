import Idylla.Mm.VmClone

namespace Idylla.Mm

/-!
# What one cloned block leaves

Whether a clone shares the region or splits it, every mapping afterwards has
the place, the flags and the pages of one before.
-/

variable {w : Nat} {Vnode : Type}

/-- The entry of an address space for a page. -/
abbrev VmState.entry (state : VmState w Vnode) (space : Nat)
    (virt : BitVec w) : Option Pte :=
  (state.spaces space).pageTable virt

/-- The space that a space of the clone has its mappings from. -/
def Cloned (src dest oldSpace space : Nat) : Prop :=
  oldSpace = space ∨ oldSpace = src ∧ space = dest

/--
What cloning one block leaves: every mapping has the place, the flags and the
pages of one before, and new entries of the source show pages of the block.
-/
structure ClonedBlock
    (state next : VmState w Vnode) (src dest : Nat)
    (block : SmaBlock w VmMapping)
    (mapping : VmMapping) : Prop where
  origin : ∀ {space other otherMapping}, next.Uses space other otherMapping →
      ∃ oldSpace old oldMapping,
        state.Uses oldSpace old oldMapping ∧
          old.start = other.start ∧ old.size = other.size ∧
          oldMapping.flags = otherMapping.flags ∧
          (∀ index,
            next.slot otherMapping.region index =
              state.slot oldMapping.region index) ∧
          Cloned src dest oldSpace space
  regions : ∀ {space other otherMapping space' other' otherMapping'},
      next.Uses space other otherMapping →
      next.Uses space' other' otherMapping' →
      otherMapping.region = otherMapping'.region →
      space = space' ∨
        ∃ oldSpace old oldMapping oldSpace' old' oldMapping',
          state.Uses oldSpace old oldMapping ∧
            state.Uses oldSpace' old' oldMapping' ∧
            oldMapping.region = oldMapping'.region ∧
            Cloned src dest oldSpace space ∧
            Cloned src dest oldSpace' space'
  table : ∀ space address,
      next.entry space address = state.entry space address ∨
        ∃ index < pageCount block.size, ∃ pte,
          space = src ∧ address = pageAddress block.start index ∧
            state.slot mapping.region index = some pte.frame ∧
            pte.rw = false ∧ next.entry space address = some pte
  stays : ∀ {space other otherMapping}, state.Uses space other otherMapping →
      ∃ kept keptMapping, next.Uses space kept keptMapping

theorem covers_congr {block other : SmaBlock w VmMapping}
    (sameStart : block.start = other.start) (sameSize : block.size = other.size)
    (address : Nat) : block.Covers address ↔ other.Covers address := by
  simp only [SmaBlock.Covers, SmaBlock.ends, sameStart, sameSize]

namespace Cloning

variable {state : VmState w Vnode} {src dest : Nat}
  {front behind : List (SmaBlock w VmMapping)}
  {block newBlock : SmaBlock w VmMapping} {mapping : VmMapping}
  {region : VmRegion w Vnode} {area : SmaArea w VmMapping}

variable (cloning : Cloning state src dest front block behind)

include cloning

theorem origin_splitMapping (isMapping : block.dataptr = some mapping)
    (live : state.regions.cells mapping.region = some region)
    (fixed :
      FixedAlloc (state.spaces dest).area area block.start block.size newBlock)
    (splits : sharesRegion mapping region = false)
    {space : Nat} {other : SmaBlock w VmMapping} {otherMapping : VmMapping}
    (used :
      (splitMapping state src dest front block behind mapping region
        newBlock area).Uses space other otherMapping) :
    ∃ oldSpace old oldMapping,
      state.Uses oldSpace old oldMapping ∧
        old.start = other.start ∧ old.size = other.size ∧
        oldMapping.flags = otherMapping.flags ∧
        (splitMapping state src dest front block behind mapping region
          newBlock area).regions.cells otherMapping.region =
          state.regions.cells oldMapping.region ∧
        (oldSpace = space ∨ oldSpace = src ∧ space = dest) := by
  have uses := cloning.uses isMapping
  have split := splitRegion_of_cloning cloning isMapping live splits
  rcases region_of_uses_splitMapping cloning isMapping live splits used with
    ⟨rfl, rfl, rfl⟩ | ⟨rfl, rfl, rfl⟩ | ⟨below, elsewhere, old⟩
  · exact ⟨src, block, mapping, uses, fixed.start.symm, fixed.size.symm,
      rfl, split.childCell.trans live.symm, .inr ⟨rfl, rfl⟩⟩
  · exact ⟨space, block, mapping, uses, rfl, rfl, rfl,
      split.parentCell.trans live.symm, .inl rfl⟩
  · exact ⟨space, other, otherMapping, old, rfl, rfl, rfl,
      split.others _ elsewhere (by omega) (by omega), .inl rfl⟩

theorem clonedBlock_shareMapping (isMapping : block.dataptr = some mapping)
    (fixed :
      FixedAlloc (state.spaces dest).area area block.start block.size
        newBlock) :
    ClonedBlock state (shareMapping state dest mapping newBlock area) src
      dest block mapping := by
  have uses := cloning.uses isMapping
  have slots : ∀ pointer index,
        (shareMapping state dest mapping newBlock area).slot pointer index =
          state.slot pointer index := by
    intro pointer index
    rw [slot_shareMapping]
  refine ⟨?_, ?_, ?_, ?_⟩
  · intro space other otherMapping used
    rcases uses_shareMapping.mp used with ⟨rfl, rfl, rfl⟩ | old
    · exact ⟨src, block, otherMapping, uses, fixed.start.symm,
        fixed.size.symm, rfl, slots _, .inr ⟨rfl, rfl⟩⟩
    · exact ⟨space, other, otherMapping, old, rfl, rfl, rfl, slots _, .inl rfl⟩
  · intro space other otherMapping space' other' otherMapping' used used' same
    rcases uses_shareMapping.mp used with ⟨rfl, rfl, rfl⟩ | old <;>
      rcases uses_shareMapping.mp used' with ⟨rfl, rfl, rfl⟩ | old'
    · exact .inl rfl
    · exact .inr ⟨src, block, _, space', other', _, uses, old', same,
        .inr ⟨rfl, rfl⟩, .inl rfl⟩
    · exact .inr ⟨space, other, _, src, block, _, old, uses, same,
        .inl rfl, .inr ⟨rfl, rfl⟩⟩
    · exact .inr ⟨space, other, _, space', other', _, old, old', same,
        .inl rfl, .inl rfl⟩
  · intro space address
    exact .inl (congrFun (VmState.setArea_pageTable ..) address)
  · intro space other otherMapping used
    exact ⟨other, otherMapping, uses_shareMapping.mpr (.inr used)⟩

theorem clonedBlock_splitMapping (isMapping : block.dataptr = some mapping)
    (live : state.regions.cells mapping.region = some region)
    (fixed :
      FixedAlloc (state.spaces dest).area area block.start block.size newBlock)
    (splits : sharesRegion mapping region = false) :
    ClonedBlock state
      (splitMapping state src dest front block behind mapping region
        newBlock area)
      src dest block mapping := by
  have split := splitRegion_of_cloning cloning isMapping live splits
  refine ⟨?_, ?_, ?_, ?_⟩
  · intro space other otherMapping used
    obtain ⟨oldSpace, old, oldMapping, oldUses, sameStart, sameSize,
      sameFlags, sameCells, isCloned⟩ :=
      cloning.origin_splitMapping isMapping live fixed splits used
    refine ⟨oldSpace, old, oldMapping, oldUses, sameStart, sameSize,
      sameFlags, ?_, isCloned⟩
    intro index
    rw [VmState.slot, VmState.slot, sameCells]
  · intro space other otherMapping space' other' otherMapping' used used' same
    rcases cloning.region_of_uses_splitMapping isMapping live splits used
      with ⟨rfl, rfl, -⟩ | ⟨rfl, rfl, -⟩ | ⟨below, -, old⟩ <;>
    rcases cloning.region_of_uses_splitMapping isMapping live splits used'
      with ⟨rfl, rfl, -⟩ | ⟨rfl, rfl, -⟩ | ⟨below', -, old'⟩
    all_goals
      first
      | exact .inl rfl
      | exact .inr ⟨_, _, _, _, _, _, old, old', same, .inl rfl, .inl rfl⟩
      | (simp only [childMapping] at same
         omega)
  · intro space address
    rw [VmState.entry, pageTable_splitMapping]
    rcases split.table space address with
      same | ⟨index, bounded, frame, isSrc, isAddress, holds, isEntry⟩
    · exact .inl same
    · exact .inr ⟨index, bounded, _, isSrc, isAddress,
        (VmState.slot_of_live live index).trans holds, rfl, isEntry⟩
  · intro space other otherMapping used
    by_cases here : space = src ∧ other = block
    · obtain ⟨rfl, -⟩ := here
      exact ⟨_, _, uses_keptBlock cloning split⟩
    · exact ⟨other, otherMapping,
        uses_splitMapping_of_old cloning split used here⟩

theorem clonedBlock {next : VmState w Vnode} {kept : SmaBlock w VmMapping}
    (returns :
      vmClone state src dest front block behind = some (next, .ok kept)) :
    ∃ mapping,
      state.Uses src block mapping ∧
        ClonedBlock state next src dest block mapping := by
  obtain ⟨mapping, region, newBlock, area, isMapping, live, allocated,
    outcome⟩ := vmClone_ok returns
  have fixed := smaAlloc_fixed allocated
  refine ⟨mapping, cloning.uses isMapping, ?_⟩
  rcases outcome with ⟨-, -, rfl⟩ | ⟨splits, -, rfl⟩
  · exact cloning.clonedBlock_shareMapping isMapping fixed
  · exact cloning.clonedBlock_splitMapping isMapping live fixed splits

end Cloning

end Idylla.Mm
