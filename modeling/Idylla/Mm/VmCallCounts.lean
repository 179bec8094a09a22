import Idylla.Mm.VmBacking
import Idylla.Mm.VmLedger

namespace Idylla.Mm

open Idylla.Lib

/-!
# Exact reference counts over all calls

Every call on address spaces keeps the ledger and the number of mappings of
each region exact.  Nothing is assumed of where `sma_alloc` puts its blocks.
-/

variable {w : Nat} {Vnode : Type}

/-- A used block of whole pages with a live region of its size. -/
structure Backed
    (state : VmState w Vnode)
    (block : SmaBlock w VmMapping) : Prop where
  used : block.flags &&& smaFlagsUsed = smaFlagsUsed
  whole : WholePages block.size
  live : ∃ mapping region,
      block.dataptr = some mapping ∧ mapping.has mapShared = false ∧
        state.regions.cells mapping.region = some region ∧
        region.size = block.size

/-- What calls keep true of the spaces created so far. -/
structure SpacesSound
    (state : VmState w Vnode)
    (created : Nat) : Prop where
  backed : ∀ space, space < created →
      ∀ block ∈ (state.spaces space).area.usedList, Backed state block
  free_unused : ∀ space, space < created →
      ∀ block ∈ (state.spaces space).area.freeList,
        block.flags &&& smaFlagsUsed ≠ smaFlagsUsed
  within : ∀ pointer region, state.regions.cells pointer = some region →
      ∀ index, pageCount region.size ≤ index → region.pages index = none
  refs : ∀ pointer region, state.regions.cells pointer = some region →
      region.refs = state.mappings created pointer

/-- No used block is mapped with `MAP_SHARED`. -/
def VmState.Unshared (state : VmState w Vnode) (created : Nat) : Prop :=
  ∀ space, space < created →
    ∀ block ∈ (state.spaces space).area.usedList,
      ∀ mapping, block.dataptr = some mapping → mapping.has mapShared = false

/-- No region has a page behind its end. -/
def VmState.Within (state : VmState w Vnode) : Prop :=
  ∀ pointer region, state.regions.cells pointer = some region →
    ∀ index, pageCount region.size ≤ index → region.pages index = none

section Parts

variable {state next : VmState w Vnode} {created : Nat}

theorem SpacesSound.counted (sound : SpacesSound state created) :
    RegionsCounted (fun _ _ => True) state created where
  supported := by
    intro space below block member
    obtain ⟨used, whole, mapping, region, isMapping, -, live, size⟩ :=
      sound.backed space below block member
    refine ⟨used, whole, mapping, region.bare, isMapping, ?_, size⟩
    rw [VmState.bareRegion, live]
    rfl
  free_unused := sound.free_unused
  refs := by
    intro pointer bare live
    obtain ⟨region, isRegion, rfl⟩ := Option.map_eq_some_iff.mp live
    exact sound.refs pointer region isRegion
  kind := fun _ _ _ => trivial

theorem SpacesSound.unshared (sound : SpacesSound state created) :
    state.Unshared created := by
  intro space below block member mapping isMapping
  obtain ⟨-, -, found, region, isFound, notShared, -⟩ :=
    sound.backed space below block member
  cases isFound.symm.trans isMapping
  exact notShared

theorem RegionsCounted.sound {Kind : VmOps → Option Vnode → Prop}
    (counted : RegionsCounted Kind state created)
    (unshared : state.Unshared created) (within : state.Within) :
    SpacesSound state created where
  backed := by
    intro space below block member
    obtain ⟨used, whole, mapping, bare, isMapping, live, size⟩ :=
      counted.supported space below block member
    obtain ⟨region, isRegion, rfl⟩ := Option.map_eq_some_iff.mp live
    exact ⟨used, whole, mapping, region, isMapping,
      unshared space below block member mapping isMapping, isRegion, size⟩
  free_unused := counted.free_unused
  within := within
  refs := by
    intro pointer region live
    have isBare : state.bareRegion pointer = some region.bare := by
      rw [VmState.bareRegion, live]
      rfl
    exact counted.refs pointer region.bare isBare

theorem VmState.Unshared.change (unshared : state.Unshared created)
    (used :
      ∀ other, other < created →
        ∀ block ∈ (next.spaces other).area.usedList,
          block ∈ (state.spaces other).area.usedList ∨
            ∀ mapping, block.dataptr = some mapping →
              mapping.has mapShared = false) : next.Unshared created := by
  intro other below block member
  rcases used other below block member with old | new
  · exact unshared other below block old
  · exact new

end Parts

variable {block : SmaBlock w VmMapping} {address : BitVec w}

theorem covers_of_hits (hits : block.hits address = true) :
    block.Covers address.toNat := by
  simp only [SmaBlock.hits, SmaBlock.stop, decide_eq_true_eq,
    BitVec.le_def, BitVec.lt_def, BitVec.toNat_add] at hits
  obtain ⟨lower, upper⟩ := hits
  have modulus := Nat.mod_le (block.start.toNat + block.size.toNat) (2 ^ w)
  exact ⟨lower, Nat.lt_of_lt_of_le upper modulus⟩

theorem covers_distance (covers : block.Covers address.toNat) :
    (address - block.start).toNat = address.toNat - block.start.toNat :=
  BitVec.toNat_sub_of_le (BitVec.le_def.mpr covers.1)

theorem hits_distance (hits : block.hits address = true) :
    (address - block.start).toNat < block.size.toNat := by
  have covers := covers_of_hits hits
  rw [covers_distance covers]
  obtain ⟨lower, upper⟩ := covers
  simp only [SmaBlock.ends] at upper
  omega

theorem pageOffset_of_nonneg (wide : 32 ≤ w) {distance : BitVec w}
    (nonneg : 0 ≤ ((pageRoundDown distance).setWidth 32).toInt) :
    ∃ index : Nat,
      ((pageRoundDown distance).setWidth 32).toInt = (index * PAGE_SIZE : Nat) ∧
        index * PAGE_SIZE ≤ distance.toNat := by
  have cut : ((pageRoundDown distance).setWidth 32).toNat =
        distance.toNat / PAGE_SIZE * PAGE_SIZE % 2 ^ 32 := by
    rw [BitVec.toNat_setWidth, pageRoundDown_toNat wide]
  generalize (pageRoundDown distance).setWidth 32 = offset at cut nonneg ⊢
  rw [BitVec.toInt_eq_toNat_cond] at nonneg ⊢
  have modulus := Nat.mod_le (distance.toNat / PAGE_SIZE * PAGE_SIZE) (2 ^ 32)
  refine ⟨offset.toNat / PAGE_SIZE, ?_, ?_⟩
  · simp only [PAGE_SIZE] at cut ⊢
    omega
  · simp only [PAGE_SIZE] at cut modulus ⊢
    omega

/--
Where the page fault is not refused, `off_t` does not make its offset
negative, and a mapped file has a vnode.
-/
def FaultInReach (state : VmState w Vnode) (space : Nat) (address : BitVec w)
    (rw : Bool) : Prop :=
  ∀ block mapping region,
    smaGetblock (state.spaces space).area address = some block →
    block.flags &&& smaFlagsUsed = smaFlagsUsed →
    block.dataptr = some mapping →
    state.regions.cells mapping.region = some region →
    ¬ (mapping.has protWrite = false ∧ rw = true) →
    0 ≤ ((pageRoundDown (address - block.start)).setWidth 32).toInt ∧
      (region.ops = .vfs → region.vnode ≠ none)

section Faults

variable {state next : VmState w Vnode} {events : List (VmEvent w Vnode)}
  {created space index frame : Nat} {start address : BitVec w}
  {mapping : VmMapping} {region : VmRegion w Vnode} {offset : BitVec 32}
  {rw : Bool} {read : VnodeRead Vnode} {result : Int}

theorem SpacesSound.pageChange
    {virt : BitVec w} {slot : Option Nat} {entry : Option Pte}
    (sound : SpacesSound state created)
    (change : PageChange state next space virt mapping.region index slot entry)
    (live : state.regions.cells mapping.region = some region)
    (bounded : index < pageCount region.size) : SpacesSound next created := by
  have sameBare : next.bareRegion = state.bareRegion := by
    funext pointer
    rw [VmState.bareRegion, VmState.bareRegion, change.cells, Option.map_map]
    split <;> rfl
  refine (sound.counted.congr (fun other _ => change.areas other)
    sameBare).sound (sound.unshared.change ?_) ?_
  · intro other _ block member
    rw [change.areas] at member
    exact .inl member
  · intro pointer cell isCell position outside
    rw [change.cells] at isCell
    obtain ⟨old, isOld, rfl⟩ := Option.map_eq_some_iff.mp isCell
    by_cases same : pointer = mapping.region
    · subst same
      rw [live, Option.some.injEq] at isOld
      subst isOld
      rw [if_pos rfl] at outside ⊢
      have different : position ≠ index := by
        rintro rfl
        exact absurd bounded (Nat.not_lt.mpr outside)
      simpa [VmRegion.setPage, different] using
        sound.within _ _ live position outside
    · rw [if_neg same] at outside ⊢
      exact sound.within pointer old isOld position outside

theorem getpageEvents_ok {content : PageBytes}
    (isContent : region.source index read = some (.ok content))
    (virt : BitVec w) :
    region.getpageEvents space virt (index * PAGE_SIZE : Nat) read frame =
      [.physAlloc frame, .mapPage space virt] := by
  unfold VmRegion.source pageSource at isContent
  unfold VmRegion.getpageEvents
  generalize region.offset + (index * PAGE_SIZE : Nat) = position at isContent ⊢
  cases ops : region.ops with
  | anon =>
    rfl
  | vfs =>
    cases isVnode : region.vnode with
    | none =>
      simp [ops, isVnode] at isContent
    | some vnode =>
      cases delivered : read vnode position with
      | error err =>
        simp [ops, isVnode, delivered, Except.map] at isContent
      | ok data =>
        simp [delivered]

theorem getpageEvents_error {err : Errno}
    (isError : region.source index read = some (.error err)) (virt : BitVec w) :
    region.getpageEvents space virt (index * PAGE_SIZE : Nat) read frame =
      [.physAlloc frame, .mapPage space virt, .physFree frame] := by
  unfold VmRegion.source pageSource at isError
  unfold VmRegion.getpageEvents
  generalize region.offset + (index * PAGE_SIZE : Nat) = position at isError ⊢
  cases ops : region.ops with
  | anon =>
    simp [ops] at isError
  | vfs =>
    cases isVnode : region.vnode with
    | none =>
      simp [ops, isVnode] at isError
    | some vnode =>
      cases delivered : read vnode position with
      | error err =>
        simp [delivered]
      | ok data =>
        simp [ops, isVnode, delivered, Except.map] at isError

theorem vmGetpageEvents_outside
    (live : state.regions.cells mapping.region = some region)
    (outside :
      offset.toInt.tdiv PAGE_SIZE < 0 ∨
        pageCount region.size ≤ (offset.toInt.tdiv PAGE_SIZE).toNat) :
    vmGetpageEvents state space start mapping offset rw read frame = [] := by
  unfold vmGetpageEvents
  split
  · rfl
  · simp only [live]
    rw [if_pos outside]

theorem vmGetpageEvents_eq
    (live : state.regions.cells mapping.region = some region)
    (notShared : mapping.has mapShared = false)
    (atPage : offset.toInt = (index * PAGE_SIZE : Nat))
    (bounded : index < pageCount region.size)
    (notRefused : ¬ (¬ mapping.has protWrite ∧ rw)) :
    vmGetpageEvents state space start mapping offset rw read frame =
      match region.pages index with
      | some page =>
        if rw then
          vmCopyPageEvents state space (pageAddress start index) page frame ++
            [.mapPage space (pageAddress start index)]
        else
          [.mapPage space (pageAddress start index)]
      | none =>
        region.getpageEvents space (pageAddress start index)
            (index * PAGE_SIZE : Nat) read frame ++
          match region.getpage state space (pageAddress start index)
              (index * PAGE_SIZE : Nat) read frame with
          | some (_, some _) => [.mapPage space (pageAddress start index)]
          | _ => [] := by
  have pageidx := pageidx_of_offset atPage
  have virt :
      start + BitVec.ofInt w offset.toInt = pageAddress start index := by
    rw [atPage, BitVec.ofInt_natCast, pageAddress]
  unfold vmGetpageEvents
  rw [if_neg notRefused]
  simp only [live, pageidx, virt, Int.toNat_natCast]
  rw [if_neg (by omega), atPage, notShared]
  cases region.pages index <;> rfl

variable [DecidableEq Vnode]

theorem Ledger.vmGetpage (ledger : Ledger state events)
    (live : state.regions.cells mapping.region = some region)
    (notShared : mapping.has mapShared = false)
    (unused : state.pages frame = none)
    (atPage : offset.toInt = (index * PAGE_SIZE : Nat))
    (bounded : index < pageCount region.size)
    (returns :
      Mm.vmGetpage state space start mapping offset rw read frame =
        some (next, result)) :
    Ledger next
      (events ++
        vmGetpageEvents state space start mapping offset rw read frame) := by
  by_cases refused : ¬ mapping.has protWrite ∧ rw
  · unfold Mm.vmGetpage at returns
    rw [if_pos refused, Option.some.injEq, Prod.mk.injEq] at returns
    obtain ⟨rfl, -⟩ := returns
    unfold vmGetpageEvents
    rw [if_pos refused, List.append_nil]
    exact ledger
  have served := vmGetpage_served live atPage bounded returns
  rw [vmGetpageEvents_eq live notShared atPage bounded refused]
  cases served with
  | refused readOnly write =>
    exact absurd ⟨by simp [readOnly], write⟩ refused
  | shows holds isPrivate reads =>
    rw [holds]
    simp only [reads, Bool.false_eq_true, ↓reduceIte]
    exact ledger.mapPage ..
  | @copies page holds isPrivate writes =>
    rw [holds]
    simp only [writes, ↓reduceIte]
    rw [← List.append_assoc]
    exact (ledger.copySlot live holds unused space
      (pageAddress start index)).mapPage ..
  | @fetches content missing isContent =>
    have isMissing := missing.resolve_right (by simp [notShared])
    have fetched :=
      ((ledger.newSlot live isMissing unused content).mapPage space
        (pageAddress start index)
        { frame := frame, user := false, rw := true }).mapPage space
        (pageAddress start index)
        { frame := frame, user := true, rw := true }
    rw [isMissing]
    simp only [getpageEvents_ok isContent, getpage_eq, isContent,
      Option.map_some]
    rw [List.append_assoc, List.append_assoc] at fetched
    exact fetched
  | @fails err missing isError =>
    have isMissing := missing.resolve_right (by simp [notShared])
    rw [isMissing]
    simp only [getpageEvents_error isError, getpage_eq, isError,
      Option.map_some, List.append_nil]
    refine ledger.change ?_ ?_ ?_ (VmState.vnode_setSlot _ _ _ _)
    · have slots :
          ((state.unmapPage space (pageAddress start index)).setSlot
            mapping.region index none).slot = state.slot := by
        funext owner position
        rw [@VmState.slot_setSlot _ _
          (state.unmapPage space (pageAddress start index)) _ _ _ _ live]
        split
        next same => rw [same.1, same.2, VmState.slot_of_live live, isMissing]
        · rfl
      rw [slots]
      exact ledger.pages
    · intro other
      by_cases same : other = frame
      · simp [same, VmState.owned, VmState.setSlot]
      · simp [Ne.symm same, VmState.owned, VmState.setSlot]
    · intro vnode
      simp

theorem SpacesSound.fault (wide : 32 ≤ w)
    (sound : SpacesSound state created) (ledger : Ledger state events)
    (below : space < created) (unused : state.pages frame = none)
    (returns :
      vmPagefault state space address rw read frame = some (next, result)) :
    SpacesSound next created ∧
      Ledger next
        (events ++ vmPagefaultEvents state space address rw read frame) := by
  unfold vmPagefault at returns
  unfold vmPagefaultEvents
  cases isFound : smaGetblock (state.spaces space).area address with
  | none =>
    simp only [isFound, Option.some.injEq, Prod.mk.injEq] at returns
    obtain ⟨rfl, -⟩ := returns
    exact ⟨sound, by simpa using ledger⟩
  | some block =>
    obtain ⟨onList, hits⟩ := smaGetblock_some isFound
    simp only [isFound] at returns ⊢
    by_cases notUsed : block.flags &&& smaFlagsUsed ≠ smaFlagsUsed
    · rw [if_pos notUsed, Option.some.injEq, Prod.mk.injEq] at returns
      rw [if_pos notUsed]
      obtain ⟨rfl, -⟩ := returns
      exact ⟨sound, by simpa using ledger⟩
    rw [if_neg notUsed] at returns ⊢
    have isUsed : block ∈ (state.spaces space).area.usedList :=
      onList.resolve_right fun inFree =>
        notUsed (sound.free_unused space below block inFree)
    obtain ⟨mapping, region, isMapping, notShared, live, -⟩ :=
      (sound.backed space below block isUsed).live
    simp only [isMapping] at returns ⊢
    rcases pageOffset_cases wide (address - block.start) with
      ⟨index, atPage, -⟩ | ⟨-, negative⟩
    · by_cases bounded : index < pageCount region.size
      · refine ⟨?_, ledger.vmGetpage live notShared unused atPage
          bounded returns⟩
        rcases (vmGetpage_served live atPage bounded returns).change
          live with ⟨-, -, rfl, -⟩ | ⟨slot, entry, change, -⟩
        · exact sound
        · exact sound.pageChange change live bounded
      · have outside : pageCount region.size ≤
              ((((pageRoundDown (address - block.start)).setWidth
                32).toInt.tdiv PAGE_SIZE).toNat) := by
          rw [pageidx_of_offset atPage]
          omega
        obtain ⟨rfl, -⟩ := vmGetpage_outside live (.inr outside) returns
        rw [vmGetpageEvents_outside live (.inr outside), List.append_nil]
        exact ⟨sound, ledger⟩
    · obtain ⟨rfl, -⟩ := vmGetpage_outside live (.inl negative) returns
      rw [vmGetpageEvents_outside live (.inl negative), List.append_nil]
      exact ⟨sound, ledger⟩

omit [DecidableEq Vnode] in
theorem SpacesSound.fault_defined (wide : 32 ≤ w)
    (sound : SpacesSound state created) (below : space < created)
    (inReach : FaultInReach state space address rw) (read : VnodeRead Vnode)
    (frame : Nat) :
    ∃ next result,
      vmPagefault state space address rw read frame = some (next, result) := by
  unfold vmPagefault
  cases isFound : smaGetblock (state.spaces space).area address with
  | none =>
    exact ⟨_, _, rfl⟩
  | some block =>
    obtain ⟨onList, hits⟩ := smaGetblock_some isFound
    dsimp only
    by_cases notUsed : block.flags &&& smaFlagsUsed ≠ smaFlagsUsed
    · exact ⟨_, _, if_pos notUsed⟩
    rw [if_neg notUsed]
    have isUsed : block ∈ (state.spaces space).area.usedList :=
      onList.resolve_right fun inFree =>
        notUsed (sound.free_unused space below block inFree)
    have backed := sound.backed space below block isUsed
    obtain ⟨mapping, region, isMapping, notShared, live, sameSize⟩ :=
      backed.live
    simp only [isMapping]
    by_cases refused : mapping.has protWrite = false ∧ rw = true
    · unfold vmGetpage
      exact ⟨_, _, if_pos (by simpa using refused)⟩
    obtain ⟨nonneg, hasVnode⟩ := inReach block mapping region isFound
      backed.used isMapping live refused
    obtain ⟨index, atPage, below⟩ := pageOffset_of_nonneg wide nonneg
    refine vmGetpage_defined live hasVnode atPage ?_
    have inside := hits_distance hits
    have whole := backed.whole
    unfold WholePages at whole
    rw [pageCount, sameSize]
    simp only [PAGE_SIZE] at *
    omega

end Faults

section Mappings

variable {state next : VmState w Vnode} {events : List (VmEvent w Vnode)}
  {created space : Nat}

theorem SpacesSound.mapRegion {area : SmaArea w VmMapping} {size : BitVec w}
    {block : SmaBlock w VmMapping} {flags : BitVec 16}
    {region : VmRegion w Vnode} (sound : SpacesSound state created)
    (below : space < created)
    (taken : Taken (state.spaces space).area area size block)
    (whole : WholePages size) (notShared : flags &&& mapShared = 0)
    (single : region.refs = 1) (empty : ∀ index, region.pages index = none)
    (sameSize : region.size = block.size) :
    SpacesSound (mapRegion state space flags region block area) created := by
  have counted := @RegionsCounted.mapRegion _ _ _ _ _ _ sound.counted below
    area size block flags region taken whole single sameSize trivial
  refine counted.sound (sound.unshared.change ?_) ?_
  · intro other inRange piece member
    have adds :
        AddsBlock state (Mm.mapRegion state space flags region block area)
          space block
          { flags := flags, region := state.regions.next, offset := 0 }
          area :=
      area_mapRegion
    refine (adds.used member).imp_right ?_
    rintro rfl mapping isMapping
    cases isMapping
    simp only [VmMapping.has, notShared]
    decide
  · intro pointer cell isCell index outside
    rw [cells_mapRegion] at isCell
    split at isCell
    · cases isCell
      exact empty index
    · exact sound.within pointer cell isCell index outside

theorem SpacesSound.mmap [DecidableEq Vnode] (wide : 32 ≤ w)
    (sound : SpacesSound state created) (ledger : Ledger state events)
    (below : space < created) {call : MmapCall w Vnode}
    (notShared : call.request.flags &&& mapShared = 0) :
    SpacesSound (vmSpaceMmap state space call) created ∧
      Ledger (vmSpaceMmap state space call)
        (events ++ vmSpaceMmapEvents state space call) := by
  unfold vmSpaceMmapEvents
  cases passes : mmapFile call.filedes call.request with
  | error errno =>
    rw [vmSpaceMmap_of_error passes]
    exact ⟨sound, by simpa using ledger⟩
  | ok file =>
    cases allocated : smaAlloc (state.spaces space).area call.request.start
          call.request.length (mmapAllocFlags call.request) with
    | none =>
      rw [vmSpaceMmap_of_refused allocated]
      exact ⟨sound, by simpa using ledger⟩
    | some placed =>
      obtain ⟨block, area⟩ := placed
      have taken := smaAlloc_taken allocated
      have whole := wholePages_of_umod wide (mmapFile_ok passes).2.1
      rw [vmSpaceMmap_of_alloc passes allocated]
      refine ⟨sound.mapRegion below taken whole notShared rfl
        (fun _ => rfl) rfl, ?_⟩
      have mapped := ledger.allocRegion
        (@fun index => (rfl :
          (mmapRegion file call.request block).pages index = none))
      exact mapped.congr rfl (VmState.slot_congr rfl) fun _ => rfl

theorem SpacesSound.shareMapping {dest : Nat} {area : SmaArea w VmMapping}
    {block newBlock : SmaBlock w VmMapping} {mapping : VmMapping}
    {region : VmRegion w Vnode} (sound : SpacesSound state created)
    (below : dest < created)
    (taken : Taken (state.spaces dest).area area block.size newBlock)
    (whole : WholePages block.size) (notShared : mapping.has mapShared = false)
    (live : state.regions.cells mapping.region = some region)
    (sameSize : region.size = block.size) :
    SpacesSound (Mm.shareMapping state dest mapping newBlock area) created := by
  have liveBare : state.bareRegion mapping.region = some region.bare := by
    rw [VmState.bareRegion, live]
    rfl
  have counted := sound.counted.shareMapping below taken whole liveBare sameSize
  refine counted.sound (sound.unshared.change ?_) ?_
  · intro other inRange piece member
    have adds :
        AddsBlock state (Mm.shareMapping state dest mapping newBlock area)
          dest newBlock mapping area :=
      fun _ => VmState.setArea_area ..
    refine (adds.used member).imp_right ?_
    rintro rfl found isFound
    cases isFound
    exact notShared
  · intro pointer cell isCell index outside
    by_cases same : pointer = mapping.region
    · subst same
      have isHeld :
          (Mm.shareMapping state dest mapping newBlock area).regions.cells
              mapping.region =
            some { region with refs := region.refs + 1 } := by
        simp [Mm.shareMapping, VmState.holdRegion, live]
      rw [isHeld, Option.some.injEq] at isCell
      subst isCell
      exact sound.within _ region live index outside
    · have isOld :
          (Mm.shareMapping state dest mapping newBlock area).regions.cells
              pointer =
            state.regions.cells pointer :=
        Heap.cells_modify_of_ne same
      rw [isOld] at isCell
      exact sound.within pointer cell isCell index outside

theorem SplitLedger.cell_cases [DecidableEq Vnode]
    {old pointer : Nat} {region cell : VmRegion w Vnode}
    (split : SplitLedger state next events old region)
    (isCell : next.regions.cells pointer = some cell) :
    ((pointer = state.regions.next ∨ pointer = state.regions.next + 1) ∧
        cell = { region with refs := 1 }) ∨
      (pointer = old ∧ region.refs - 1 ≠ 0 ∧
        cell = { region with refs := region.refs - 1 }) ∨
      (pointer ≠ old ∧
        ¬ (pointer = state.regions.next ∨ pointer = state.regions.next + 1) ∧
        state.regions.cells pointer = some cell) := by
  by_cases isParent : pointer = state.regions.next
  · rw [isParent, split.parentCell, Option.some.injEq] at isCell
    exact .inl ⟨.inl isParent, isCell.symm⟩
  by_cases isChild : pointer = state.regions.next + 1
  · rw [isChild, split.childCell, Option.some.injEq] at isCell
    exact .inl ⟨.inr isChild, isCell.symm⟩
  by_cases isOld : pointer = old
  · rw [isOld, split.oldCell] at isCell
    split at isCell
    · cases isCell
    next more => exact .inr (.inl ⟨isOld, more, (Option.some.inj isCell).symm⟩)
  · rw [split.others pointer isOld isParent isChild] at isCell
    exact .inr (.inr ⟨isOld, by simp [isParent, isChild], isCell⟩)

theorem SpacesSound.splitMapping [DecidableEq Vnode]
    {src dest : Nat} {front behind : List (SmaBlock w VmMapping)}
    {area : SmaArea w VmMapping} {block newBlock : SmaBlock w VmMapping}
    {mapping : VmMapping} {region : VmRegion w Vnode}
    (sound : SpacesSound state created) (srcBelow : src < created)
    (destBelow : dest < created) (different : dest ≠ src)
    (isList : (state.spaces src).area.usedList = front ++ block :: behind)
    (isMapping : block.dataptr = some mapping)
    (taken : Taken (state.spaces dest).area area block.size newBlock)
    (notShared : mapping.has mapShared = false)
    (live : state.regions.cells mapping.region = some region)
    (sameSize : region.size = block.size)
    (split :
      SplitLedger state
        (splitRegion state src block mapping.region region) events
        mapping.region region) :
    SpacesSound
      (Mm.splitMapping state src dest front block behind mapping region
        newBlock area)
      created := by
  have counted := sound.counted.splitMapping srcBelow destBelow different
    isList isMapping taken live sameSize
  refine counted.sound (sound.unshared.change ?_) ?_
  · intro other inRange piece member
    have adds := @splitMapping_adds _ _ state block newBlock mapping area src
      dest front behind region live different
    rcases adds.used member with inSource | rfl
    · refine (used_keptArea isList inSource).imp_right ?_
      rintro rfl found isFound
      cases isFound
      exact notShared
    · refine .inr fun found isFound => ?_
      cases isFound
      exact notShared
  · intro pointer cell isCell index outside
    rcases split.cell_cases isCell with
      ⟨isNew, rfl⟩ | ⟨rfl, more, rfl⟩ | ⟨-, -, isOther⟩
    · exact sound.within _ region live index outside
    · exact sound.within _ region live index outside
    · exact sound.within pointer cell isOther index outside

section Loops

variable [DecidableEq Vnode] {src dest : Nat}

variable {block : SmaBlock w VmMapping}
  {front behind : List (SmaBlock w VmMapping)}

theorem SpacesSound.vmClone
    (sound : SpacesSound state created) (ledger : Ledger state events)
    (srcBelow : src < created) (destBelow : dest < created)
    (different : dest ≠ src)
    (isList : (state.spaces src).area.usedList = front ++ block :: behind) :
    ∃ next result,
      Mm.vmClone state src dest front block behind = some (next, result) ∧
        SpacesSound next created ∧
        Ledger next (events ++ vmCloneEvents state src dest block) ∧
        ∀ kept, result = .ok kept →
          (next.spaces src).area.usedList = front ++ kept :: behind := by
  have inSrc : block ∈ (state.spaces src).area.usedList := by
    rw [isList]
    simp
  have backed := sound.backed src srcBelow block inSrc
  obtain ⟨mapping, region, isMapping, notShared, live, sameSize⟩ := backed.live
  unfold Mm.vmClone vmCloneEvents
  simp only [isMapping, live]
  cases allocated : smaAlloc (state.spaces dest).area block.start block.size
        smaAllocFixed with
  | none =>
    exact ⟨_, _, rfl, sound, by simpa using ledger,
      fun kept isOk => (by cases isOk)⟩
  | some placed =>
    have taken := smaAlloc_taken allocated
    dsimp only
    by_cases shares : sharesRegion mapping region = true
    · rw [if_pos shares, if_pos shares, List.append_nil]
      refine ⟨_, _, rfl,
        sound.shareMapping destBelow taken backed.whole notShared live sameSize,
        (ledger.holdRegion mapping.region).congr rfl
          (VmState.slot_congr rfl) fun _ => rfl, ?_⟩
      intro kept isKept
      cases isKept
      rw [VmState.setArea_area, if_neg (Ne.symm different)]
      exact isList
    · rw [if_neg shares, if_neg shares]
      have split := ledger.splitRegion live
        (sound.within _ region live) src block
      refine ⟨_, _, rfl,
        sound.splitMapping srcBelow destBelow different isList isMapping
          taken notShared live sameSize split,
        split.ledger.congr rfl (VmState.slot_congr rfl) fun _ => rfl,
        ?_⟩
      intro kept isKept
      cases isKept
      rw [VmState.setArea_area, if_neg (Ne.symm different),
        VmState.setArea_area, if_pos rfl]

theorem SpacesSound.cloneBlocks
    (sound : SpacesSound state created) (ledger : Ledger state events)
    (srcBelow : src < created) (destBelow : dest < created)
    (different : dest ≠ src)
    (isList : (state.spaces src).area.usedList = front ++ behind) :
    ∃ next result,
      Mm.cloneBlocks src dest front behind state = some (next, result) ∧
        SpacesSound next created ∧
        Ledger next
          (events ++ cloneBlocksEvents src dest front behind state) := by
  induction behind generalizing front state events with
  | nil =>
    exact ⟨state, _, rfl, sound, by simpa [cloneBlocksEvents] using ledger⟩
  | cons block behind ih =>
    obtain ⟨cloned, result, returns, clonedSound, clonedLedger, keeps⟩ :=
      sound.vmClone ledger srcBelow destBelow different isList
    unfold Mm.cloneBlocks cloneBlocksEvents
    rw [returns]
    cases result with
    | error err =>
      exact ⟨_, _, rfl, clonedSound, by simpa using clonedLedger⟩
    | ok kept =>
      have isKept := keeps kept rfl
      rw [List.append_cons] at isKept
      obtain ⟨next, result, loops, nextSound, nextLedger⟩ :=
        ih clonedSound clonedLedger isKept
      refine ⟨next, result, loops, nextSound, ?_⟩
      rwa [List.append_assoc] at nextLedger

omit [DecidableEq Vnode] in
theorem SpacesSound.removeBlock
    {rest : List (SmaBlock w VmMapping)} {mapping : VmMapping}
    {region : VmRegion w Vnode} (sound : SpacesSound state created)
    (below : space < created)
    (isList : (state.spaces space).area.usedList = block :: rest)
    (isMapping : block.dataptr = some mapping)
    (live : state.regions.cells mapping.region = some region)
    (sameAreas : ∀ other, (next.spaces other).area = (state.spaces other).area)
    (oldCell :
      next.regions.cells mapping.region = if region.refs - 1 = 0 then none
        else some { region with refs := region.refs - 1 })
    (others :
      ∀ other, other ≠ mapping.region →
        next.regions.cells other = state.regions.cells other) :
    SpacesSound (next.setUsedList space rest) created := by
  have liveBare : state.bareRegion mapping.region = some region.bare := by
    rw [VmState.bareRegion, live]
    rfl
  have isBare (pointer : Nat) :
      next.bareRegion pointer =
        if pointer = mapping.region then
          if region.bare.refs - 1 = 0 then none
          else some { region.bare with refs := region.bare.refs - 1 }
        else state.bareRegion pointer := by
    split
    next same =>
      rw [same, VmState.bareRegion, oldCell]
      show Option.map _ (if region.refs - 1 = 0 then _ else _) =
        if region.refs - 1 = 0 then _ else _
      split <;> rfl
    next different =>
      rw [VmState.bareRegion, others pointer different]
      rfl
  have counted := sound.counted.removeBlock below isList isMapping liveBare
    sameAreas isBare
  refine counted.sound (sound.unshared.change ?_) ?_
  · intro other inRange piece member
    exact .inl (used_removeBlock isList sameAreas member)
  · intro pointer cell isCell index outside
    have isCell : next.regions.cells pointer = some cell := isCell
    by_cases same : pointer = mapping.region
    · rw [same, oldCell] at isCell
      split at isCell
      · cases isCell
      · cases isCell
        exact sound.within _ region live index outside
    · rw [others pointer same] at isCell
      exact sound.within pointer cell isCell index outside

theorem SpacesSound.vmDestroy {rest : List (SmaBlock w VmMapping)}
    (sound : SpacesSound state created) (ledger : Ledger state events)
    (below : space < created)
    (isList : (state.spaces space).area.usedList = block :: rest) :
    ∃ destroyed new,
      Mm.vmDestroy state space block = some (destroyed, new) ∧
        SpacesSound (destroyed.setUsedList space rest) created ∧
        Ledger (destroyed.setUsedList space rest) (events ++ new) := by
  have member : block ∈ (state.spaces space).area.usedList := by
    rw [isList]
    exact List.mem_cons_self
  obtain ⟨mapping, region, isMapping, -, live, -⟩ :=
    (sound.backed space below block member).live
  obtain ⟨sameRegions, samePages, sameAreas⟩ :=
    unmapPages_frame state space block.start (pageCount block.size)
  unfold Mm.vmDestroy
  simp only [isMapping, live]
  generalize
    unmapPages state space block.start (pageCount block.size) = unmapped
      at sameRegions samePages sameAreas ⊢
  have unmappedLedger : Ledger unmapped events :=
    ledger.congr samePages (VmState.slot_congr sameRegions) fun pointer => by
      rw [sameRegions]
  have droppedLedger := unmappedLedger.dropRegion mapping.region
  have droppedLive :
      (unmapped.dropRegion mapping.region).regions.cells mapping.region =
        some { region with refs := region.refs - 1 } := by
    simp [VmState.dropRegion, sameRegions, live]
  have droppedOthers : ∀ other, other ≠ mapping.region →
        (unmapped.dropRegion mapping.region).regions.cells other =
          state.regions.cells other := by
    intro other different
    rw [← sameRegions]
    exact Heap.cells_modify_of_ne different
  by_cases last : region.refs - 1 = 0
  · have within := sound.within _ region live
    have destroyed := vmDestroyRegion_spec droppedLedger.pages.countedBy
      droppedLive within
    have destroyedLedger := droppedLedger.vmDestroyRegion droppedLive within
    refine ⟨_, _, if_pos last, ?_,
      destroyedLedger.congr rfl (VmState.slot_congr rfl) fun _ => rfl⟩
    refine sound.removeBlock below isList isMapping live ?_ ?_ ?_
    · intro other
      rw [destroyed.spaces]
      exact sameAreas other
    · rw [if_pos last]
      exact destroyed.gone
    · intro other different
      rw [destroyed.others other different]
      exact droppedOthers other different
  · refine ⟨_, _, if_neg last, ?_, ?_⟩
    · refine sound.removeBlock below isList isMapping live sameAreas ?_
        droppedOthers
      rw [if_neg last]
      exact droppedLive
    · rw [List.append_nil]
      exact droppedLedger.congr rfl (VmState.slot_congr rfl) fun _ => rfl

theorem SpacesSound.destroyBlocks {blocks : List (SmaBlock w VmMapping)}
    (sound : SpacesSound state created) (ledger : Ledger state events)
    (below : space < created)
    (isList : (state.spaces space).area.usedList = blocks) :
    ∃ after new,
      Mm.destroyBlocks space blocks state = some (after, new) ∧
        (after.spaces space).area.usedList = [] ∧
        SpacesSound after created ∧
        Ledger after (events ++ new) := by
  induction blocks generalizing state events with
  | nil =>
    exact ⟨state, [], rfl, isList, sound, by simpa using ledger⟩
  | cons block rest ih =>
    obtain ⟨destroyed, new, destroys, destroyedSound, destroyedLedger⟩ :=
      sound.vmDestroy ledger below isList
    have isRest :
        ((destroyed.setUsedList space rest).spaces
          space).area.usedList = rest := by
      rw [VmState.setUsedList, VmState.setArea_area, if_pos rfl]
    obtain ⟨after, later, loops, isEmpty, afterSound, afterLedger⟩ :=
      ih destroyedSound destroyedLedger isRest
    refine ⟨after, new ++ later, ?_, isEmpty, afterSound, ?_⟩
    · rw [Mm.destroyBlocks, destroys]
      dsimp only
      rw [loops]
    · rwa [List.append_assoc] at afterLedger

omit [DecidableEq Vnode] in
theorem SpacesSound.emptyArea {area : SmaArea w VmMapping}
    (sound : SpacesSound state created) (below : space < created)
    (isEmpty : (state.spaces space).area.usedList = [])
    (noUsed : area.usedList = []) (noFree : area.freeList = []) :
    SpacesSound (state.setArea space area) created := by
  refine (sound.counted.emptyArea below isEmpty noUsed noFree).sound
    (sound.unshared.change ?_) sound.within
  intro other inRange block member
  rw [VmState.setArea_area] at member
  split at member
  · rw [noUsed] at member
    cases member
  · exact .inl member

theorem SpacesSound.smaAreaDestroy
    (sound : SpacesSound state created) (ledger : Ledger state events)
    (below : space < created) :
    ∃ after new,
      Mm.smaAreaDestroy state space = some (after, new) ∧
        SpacesSound after created ∧
        Ledger after (events ++ new) := by
  obtain ⟨after, new, loops, isEmpty, afterSound, afterLedger⟩ :=
    sound.destroyBlocks ledger below rfl
  refine ⟨after.setArea space
      { (after.spaces space).area with usedList := [], freeList := [] },
    new, by rw [Mm.smaAreaDestroy, loops],
    afterSound.emptyArea below isEmpty rfl rfl,
    afterLedger.congr rfl (VmState.slot_congr rfl) fun _ => rfl⟩

end Loops

end Mappings

end Idylla.Mm
