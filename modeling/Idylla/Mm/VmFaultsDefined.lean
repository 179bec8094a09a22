import Idylla.Mm.VmRefs

namespace Idylla.Mm

open Idylla.Lib

/-!
# Page faults in every mapping

What `vm_pagefault` and `vm_getpage` compute of an address inside a mapping,
after any run of calls.  The regions behind the mappings are those of
`RegionsCounted`, so that `MAP_SHARED` is allowed and no frame is promised.
-/

variable {w : Nat} {Vnode : Type}

/-- The offset that `vm_pagefault` hands over, cut to an `off_t`. -/
def faultOffset (block : SmaBlock w VmMapping)
    (address : BitVec w) : BitVec 32 :=
  (pageRoundDown (address - block.start)).setWidth 32

/-- `pageidx` of `vm_getpage`. -/
def faultPageidx (block : SmaBlock w VmMapping) (address : BitVec w) : Int :=
  (faultOffset block address).toInt.tdiv PAGE_SIZE

/--
The address lies in the first two gigabytes of its block, or of any four
gigabytes of it.
-/
def OffsetFits (block : SmaBlock w VmMapping) (address : BitVec w) : Prop :=
  (address.toNat - block.start.toNat) % 2 ^ 32 < 2 ^ 31

instance
    (block : SmaBlock w VmMapping)
    (address : BitVec w) : Decidable (OffsetFits block address) :=
  inferInstanceAs (Decidable (_ < _))

/-- `vm_getpage` calls `region->ops->getpage`. -/
def CallsGetpage (mapping : VmMapping) (region : VmRegion w Vnode) (index : Nat)
    (rw : Bool) : Prop :=
  ¬ (mapping.has protWrite = false ∧ rw = true) ∧
    (region.pages index = none ∨ mapping.has mapShared = true)

/-- A region that is not anonymous has a vnode. -/
def HasVnode (ops : VmOps) (vnode : Option Vnode) : Prop :=
  ops ≠ .anon → vnode ≠ none

/-- A page fault that finds its page and its vnode. -/
structure FaultServed
    (state : VmState w Vnode) (space : Nat) (block : SmaBlock w VmMapping)
    (address : BitVec w) (rw : Bool) (mapping : VmMapping)
    (region : VmRegion w Vnode) : Prop where
  isMapping : block.dataptr = some mapping
  live : state.regions.cells mapping.region = some region
  size : region.size = block.size
  nonneg : 0 ≤ faultPageidx block address
  inside : faultPageidx block address < pageCount block.size
  vnode : CallsGetpage mapping region (faultPageidx block address).toNat rw →
      HasVnode region.ops region.vnode
  defined : ∀ read frame,
      (vmGetpage state space block.start mapping (faultOffset block address)
        rw read frame).isSome

/-- A page fault at an address of a mapping is well defined. -/
def FaultDefined
    (state : VmState w Vnode) (space : Nat) (block : SmaBlock w VmMapping)
    (address : BitVec w) (rw : Bool) : Prop :=
  ∃ mapping region, FaultServed state space block address rw mapping region

theorem offsetFits_iff (wide : 32 ≤ w)
    {block : SmaBlock w VmMapping} {address : BitVec w}
    (covers : block.Covers address.toNat) :
    OffsetFits block address ↔ 0 ≤ (faultOffset block address).toInt := by
  have cut : (faultOffset block address).toNat =
        (address.toNat - block.start.toNat) / PAGE_SIZE * PAGE_SIZE %
          2 ^ 32 := by
    rw [faultOffset, BitVec.toNat_setWidth, pageRoundDown_toNat wide,
      covers_distance covers]
  unfold OffsetFits
  rw [BitVec.toInt_eq_toNat_cond]
  simp only [PAGE_SIZE] at cut
  split <;> omega

theorem offsetFits_start (block : SmaBlock w VmMapping) :
    OffsetFits block block.start := by
  simp [OffsetFits]

theorem offset_nonneg_of_pageidx (wide : 32 ≤ w)
    {block : SmaBlock w VmMapping} {address : BitVec w}
    (nonneg : 0 ≤ faultPageidx block address) :
    0 ≤ (faultOffset block address).toInt := by
  rcases pageOffset_cases wide (address - block.start) with
    ⟨index, atPage, -⟩ | ⟨-, negative⟩
  · rw [faultOffset, atPage]
    exact Int.natCast_nonneg _
  · exact absurd nonneg (Int.not_le.mpr negative)

section Faults

variable {state : VmState w Vnode} {created space : Nat}
  {block : SmaBlock w VmMapping} {address : BitVec w}

theorem faultPageidx_of_fits (wide : 32 ≤ w)
    (whole : WholePages block.size) (covers : block.Covers address.toNat)
    (fits : OffsetFits block address) :
    ∃ index : Nat,
      (faultOffset block address).toInt = (index * PAGE_SIZE : Nat) ∧
        faultPageidx block address = index ∧
        index < pageCount block.size := by
  have nonneg := (offsetFits_iff wide covers).mp fits
  obtain ⟨index, atPage, below⟩ := pageOffset_of_nonneg wide nonneg
  refine ⟨index, atPage, pageidx_of_offset atPage, ?_⟩
  rw [covers_distance covers] at below
  obtain ⟨lower, upper⟩ := covers
  unfold WholePages at whole
  simp only [SmaBlock.ends, pageCount, PAGE_SIZE] at *
  omega

theorem RegionsCounted.faultDefined_iff (wide : 32 ≤ w)
    (counted : RegionsCounted HasVnode state created) (below : space < created)
    (member : block ∈ (state.spaces space).area.usedList)
    (covers : block.Covers address.toNat) (rw : Bool) :
    FaultDefined state space block address rw ↔ OffsetFits block address := by
  constructor
  · rintro ⟨mapping, region, served⟩
    exact (offsetFits_iff wide covers).mpr
      (offset_nonneg_of_pageidx wide served.nonneg)
  · intro fits
    have supported := counted.supported space below block member
    obtain ⟨mapping, bare, isMapping, liveBare, sameSize⟩ := supported.live
    have kind := counted.kind _ bare liveBare
    obtain ⟨region, live, rfl⟩ := Option.map_eq_some_iff.mp liveBare
    obtain ⟨index, atPage, isPageidx, inside⟩ :=
      faultPageidx_of_fits wide supported.whole covers fits
    have hasVnode : HasVnode region.ops region.vnode := kind
    refine ⟨mapping, region, isMapping, live, sameSize, ?_, ?_,
      fun _ => hasVnode, ?_⟩
    · rw [isPageidx]
      exact Int.natCast_nonneg index
    · rw [isPageidx]
      exact Int.ofNat_lt.mpr inside
    · intro read frame
      rw [← sameSize] at inside
      obtain ⟨next, result, returns⟩ :=
        @vmGetpage_defined _ _ state space index frame block.start mapping
          region (faultOffset block address) rw read live
          (fun isVfs => hasVnode (by rw [isVfs]; decide)) atPage inside
      rw [returns]
      rfl

end Faults

/-- The address spaces of a call are in use, and different. -/
def VmCall.InUse (spaces : VmSpaces w Vnode) : VmCall w Vnode → Prop
  | .create => True
  | .share space => 0 < spaces.refs space
  | .mmap space _ => 0 < spaces.refs space
  | .fault space _ _ _ _ => 0 < spaces.refs space
  | .clone dest src =>
    0 < spaces.refs dest ∧ 0 < spaces.refs src ∧ dest ≠ src
  | .destroy space => 0 < spaces.refs space

/-- Any call on address spaces that are in use, as a transition. -/
def VmAnyCallStep
    (memory : UserMemory w) (spaces : VmSpaces w Vnode) (call : VmCall w Vnode)
    (next : VmSpaces w Vnode) : Prop :=
  call.InUse spaces ∧ call.run memory spaces = some next

/-- A descriptor that is mapped has a vnode. -/
def MapsVnode (call : MmapCall w Vnode) : Prop :=
  call.request.flags &&& mapAnonymous ≠ mapAnonymous →
    ∀ file, call.filedes call.request.fd = some file → file.vnode ≠ none

/-- A call of `vm_mmap` maps a descriptor with a vnode, if any. -/
def VmCall.MapsVnodes : VmCall w Vnode → Prop
  | .mmap _ call => MapsVnode call
  | _ => True

/-- What every call keeps while descriptors with vnodes are mapped. -/
structure CallsCounted (spaces : VmSpaces w Vnode) : Prop where
  counted : RegionsCounted HasVnode spaces.vm spaces.created
  unborn : spaces.Unborn

theorem flags_anonymous {flags : BitVec 16}
    (isSet : flags &&& mapAnonymous ≠ 0) :
    flags &&& mapAnonymous = mapAnonymous :=
  flag_set_of_ne_zero (by decide : mapAnonymous = BitVec.twoPow 16 7) isSet

theorem mmapRegion_hasVnode
    {call : MmapCall w Vnode} {file : Option (File Vnode)}
    (passes : mmapFile call.filedes call.request = .ok file)
    (block : SmaBlock w VmMapping) :
    HasVnode (mmapRegion file call.request block).ops
        (mmapRegion file call.request block).vnode ↔
      MapsVnode call := by
  obtain ⟨-, -, opens⟩ := mmapFile_ok passes
  by_cases anonymous : call.request.flags &&& mapAnonymous = mapAnonymous
  · have isAnon : (mmapRegion file call.request block).ops = .anon := by
      rw [mmapRegion, anonymous]
      rfl
    exact iff_of_true (fun notAnon => absurd isAnon notAnon)
      fun notAnonymous => absurd anonymous notAnonymous
  · obtain ⟨openFile, rfl, isOpen⟩ := opens anonymous
    have notSet : call.request.flags &&& mapAnonymous = 0 :=
      Decidable.not_not.mp fun isSet => anonymous (flags_anonymous isSet)
    have isVfs :
        (mmapRegion (some openFile) call.request block).ops = .vfs := by
      rw [mmapRegion, notSet]
      rfl
    constructor
    · intro hasVnode _ other isOther
      cases isOpen.symm.trans isOther
      exact hasVnode (by rw [isVfs]; decide)
    · intro maps _
      exact maps anonymous openFile isOpen

theorem vmMmap_ok
    {state : VmState w Vnode} {space : Nat} {call : MmapCall w Vnode}
    {addr : BitVec w}
    (returns :
      (vmMmap call.filedes call.request (state.mmapState space)).2 = .ok addr) :
    ∃ file block area,
      mmapFile call.filedes call.request = .ok file ∧
        smaAlloc (state.spaces space).area call.request.start
            call.request.length (mmapAllocFlags call.request) =
          some (block, area) ∧
        block.start = addr := by
  unfold vmMmap at returns
  split at returns
  · cases returns
  next file passes =>
    split at returns
    · cases returns
    next block area allocated =>
      simp only [VmOps.init_ok, Except.ok.injEq] at returns
      exact ⟨file, block, area, passes, allocated, returns⟩

/-- The block of a mapping with a fresh region. -/
def mappedBlock (state : VmState w Vnode) (flags : BitVec 16)
    (block : SmaBlock w VmMapping) : SmaBlock w VmMapping :=
  { block with
    dataptr :=
      some { flags := flags, region := state.regions.next, offset := 0 } }

namespace CallsCounted

variable {memory : UserMemory w} {spaces next : VmSpaces w Vnode}

theorem boot (memory : UserMemory w) (bytes : Nat → PageBytes) :
    CallsCounted (VmSpaces.boot memory bytes : VmSpaces w Vnode) := by
  refine ⟨⟨?_, ?_, ?_, ?_⟩, fun _ _ => rfl⟩
  · intro space below
    exact absurd below (Nat.not_lt_zero space)
  · intro space below
    exact absurd below (Nat.not_lt_zero space)
  · intro pointer region live
    cases live
  · intro pointer region live
    cases live

theorem create (calls : CallsCounted spaces) :
    CallsCounted (spaces.vmSpaceCreate memory) :=
  ⟨calls.counted.create memory, calls.unborn.create memory⟩

theorem setRefs (calls : CallsCounted spaces) {space : Nat}
    (below : space < spaces.created) (refs : Nat) :
    CallsCounted (spaces.setRefs space refs) :=
  ⟨calls.counted, calls.unborn.setRefs below refs⟩

theorem mmap (wide : 32 ≤ w) (calls : CallsCounted spaces) {space : Nat}
    (below : space < spaces.created) {call : MmapCall w Vnode}
    (maps : MapsVnode call) :
    RegionsCounted HasVnode (vmSpaceMmap spaces.vm space call) spaces.created :=
  calls.counted.mmap wide below fun _ block passes =>
    (mmapRegion_hasVnode passes block).mpr maps

theorem destroy (calls : CallsCounted spaces) {space : Nat}
    (below : space < spaces.created)
    (returns : spaces.vmSpaceDestroy space = some next) :
    CallsCounted next := by
  have dropped := calls.setRefs below (spaces.refs space - 1)
  unfold VmSpaces.vmSpaceDestroy at returns
  dsimp only at returns
  split at returns
  · cases returns
    exact dropped
  · obtain ⟨after, events, destroys, counted⟩ :=
      dropped.counted.smaAreaDestroy below
    rw [destroys] at returns
    cases returns
    exact ⟨counted, dropped.unborn⟩

theorem step (wide : 32 ≤ w) (calls : CallsCounted spaces)
    {call : VmCall w Vnode} (maps : call.MapsVnodes)
    (called : VmAnyCallStep memory spaces call next) : CallsCounted next := by
  obtain ⟨inUse, returns⟩ := called
  cases call with
  | create =>
    cases returns
    exact calls.create
  | share space =>
    cases returns
    exact calls.setRefs (calls.unborn.below inUse) _
  | mmap space call =>
    cases returns
    exact ⟨calls.mmap wide (calls.unborn.below inUse) maps, calls.unborn⟩
  | fault space address rw read frame =>
    obtain ⟨⟨vm, result⟩, faults, rfl⟩ := Option.map_eq_some_iff.mp returns
    have keeps := KeepsRegions.vmPagefault faults
    exact ⟨calls.counted.congr (fun other _ => keeps.areas other)
      keeps.regions, calls.unborn⟩
  | clone dest src =>
    obtain ⟨⟨vm, result⟩, clones, rfl⟩ := Option.map_eq_some_iff.mp returns
    obtain ⟨destInUse, srcInUse, different⟩ := inUse
    obtain ⟨after, outcome, loops, counted⟩ :=
      calls.counted.cloneBlocks (calls.unborn.below srcInUse)
        (calls.unborn.below destInUse) different (List.nil_append _).symm
    cases loops.symm.trans clones
    exact ⟨counted, calls.unborn⟩
  | destroy space =>
    exact calls.destroy (calls.unborn.below inUse) returns

theorem run (wide : 32 ≤ w)
    {bytes : Nat → PageBytes} {calls : List (VmCall w Vnode)}
    (ran :
      Run (Guarded (fun _ call => call.MapsVnodes) (VmAnyCallStep memory))
        (VmSpaces.boot memory bytes) calls spaces) : CallsCounted spaces :=
  ran.invariant (fun _ spaces => CallsCounted spaces) (.boot memory bytes)
    fun calls called => calls.step wide called.1 called.2

theorem mmap_faultDefined_iff (wide : 32 ≤ w) (calls : CallsCounted spaces)
    {space : Nat} (below : space < spaces.created)
    {call : MmapCall w Vnode} {addr : BitVec w}
    (returns :
      (vmMmap call.filedes call.request (spaces.vm.mmapState space)).2 =
        .ok addr) :
    ∃ block ∈ ((vmSpaceMmap spaces.vm space call).spaces space).area.usedList,
      block.start = addr ∧ block.size = call.request.length ∧
        (FaultDefined (vmSpaceMmap spaces.vm space call) space block addr
            false ↔
          MapsVnode call) := by
  obtain ⟨file, block, area, passes, allocated, rfl⟩ := vmMmap_ok returns
  have mapped := vmSpaceMmap_of_alloc passes allocated
  have taken := smaAlloc_taken allocated
  refine ⟨mappedBlock spaces.vm call.request.flags block, ?_, rfl,
    taken.size, ?_⟩
  · rw [mapped, area_mapRegion, if_pos rfl]
    exact mem_smaListAdd.mpr (.inl rfl)
  constructor
  · rintro ⟨mapping, region, served⟩
    have isMapping := served.isMapping
    cases isMapping
    have live := served.live
    rw [mapped, cells_mapRegion, if_pos rfl] at live
    cases live
    exact (mmapRegion_hasVnode passes block).mp
      (served.vnode ⟨fun refused => Bool.noConfusion refused.2, .inl rfl⟩)
  · intro maps
    have counted := calls.mmap wide below maps
    refine (counted.faultDefined_iff wide below ?_ ?_ false).mpr
      (offsetFits_start _)
    · rw [mapped, area_mapRegion, if_pos rfl]
      exact mem_smaListAdd.mpr (.inl rfl)
    · refine SmaBlock.covers_start ?_
      show block.size ≠ 0
      rw [taken.size]
      exact mmapFile_length passes

end CallsCounted

/--
While descriptors with vnodes are mapped, page faults are well defined where
their offset fits, and a mapping of any other descriptor ends this.
-/
theorem faults_defined_iff {memory : UserMemory w} (wide : 32 ≤ w)
    {bytes : Nat → PageBytes} {calls : List (VmCall w Vnode)}
    {spaces : VmSpaces w Vnode}
    (ran :
      Run (Guarded (fun _ call => call.MapsVnodes) (VmAnyCallStep memory))
        (VmSpaces.boot memory bytes) calls spaces) :
    (∀ space, space < spaces.created →
      (∀ block ∈ (spaces.vm.spaces space).area.usedList,
        ∀ address : BitVec w, block.Covers address.toNat →
        ∀ rw,
          FaultDefined spaces.vm space block address rw ↔
            OffsetFits block address) ∧
      ∀ address block,
        smaGetblock (spaces.vm.spaces space).area address = some block →
        block.flags &&& smaFlagsUsed = smaFlagsUsed →
        block ∈ (spaces.vm.spaces space).area.usedList ∧
          block.Covers address.toNat) ∧
    ∀ space, 0 < spaces.refs space →
      ∀ (call : MmapCall w Vnode) (addr : BitVec w),
        (vmMmap call.filedes call.request (spaces.vm.mmapState space)).2 =
          .ok addr →
        ∃ block ∈
            ((vmSpaceMmap spaces.vm space call).spaces space).area.usedList,
          block.start = addr ∧ block.size = call.request.length ∧
            (FaultDefined (vmSpaceMmap spaces.vm space call) space block addr
                false ↔
              MapsVnode call) := by
  have reached := CallsCounted.run wide ran
  refine ⟨fun space below => ⟨?_, ?_⟩, ?_⟩
  · intro block member address covers rw
    exact reached.counted.faultDefined_iff wide below member covers rw
  · intro address block isFound isUsed
    obtain ⟨onList, hits⟩ := smaGetblock_some isFound
    refine ⟨onList.resolve_right fun inFree => ?_, covers_of_hits hits⟩
    exact reached.counted.free_unused space below block inFree isUsed
  · intro space inUse call addr returns
    exact reached.mmap_faultDefined_iff wide (reached.unborn.below inUse)
      returns

/-- An address space with one anonymous mapping at the start. -/
def oneMapping (length : BitVec 32) : List (VmCall 32 Unit) :=
  [.create, .mmap 0 (mapFromStart length)]

/-- What the calls leave. -/
def oneMappingSpaces (length : BitVec 32) : VmSpaces 32 Unit :=
  (oneMapping length).foldl (VmSpaces.after userMemory32)
    (.boot userMemory32 fun _ => zeroPage)

/-- Both accesses to the only page of a mapping are well defined. -/
theorem onePage_faults_defined :
    ∃ block ∈ ((oneMappingSpaces 0x1000).vm.spaces 0).area.usedList,
      ∀ rw,
        FaultDefined (oneMappingSpaces 0x1000).vm 0 block 0x00400abc rw := by
  have ran :
      Run (Guarded (fun _ call => call.MapsVnodes) (VmAnyCallStep userMemory32))
        (.boot userMemory32 fun _ => zeroPage) (oneMapping 0x1000)
        (oneMappingSpaces 0x1000) :=
    .extend (.extend .start ⟨trivial, trivial, rfl⟩)
      ⟨fun notAnonymous => absurd rfl notAnonymous, by exact Nat.one_pos,
        rfl⟩
  refine ⟨_, List.mem_cons_self, fun rw => ?_⟩
  refine (((faults_defined_iff (by decide) ran).1 0 (by decide)).1 _
    List.mem_cons_self 0x00400abc ?_ rw).mpr ?_
  · decide
  · decide

/-- A read two gigabytes into a mapping has a negative page index. -/
theorem far_fault_not_defined :
    ¬ ∀ (calls : List (VmCall 32 Unit)) (spaces : VmSpaces 32 Unit),
      Run (VmAnyCallStep userMemory32)
        (.boot userMemory32 fun _ => zeroPage) calls spaces →
      ∀ space, space < spaces.created →
        ∀ block ∈ (spaces.vm.spaces space).area.usedList,
          ∀ address : BitVec 32, block.Covers address.toNat →
          ∀ rw, FaultDefined spaces.vm space block address rw := by
  intro always
  have ran : Run (VmAnyCallStep userMemory32)
        (.boot userMemory32 fun _ => zeroPage) (oneMapping 0x90000000)
        (oneMappingSpaces 0x90000000) :=
    .extend (.extend .start ⟨trivial, rfl⟩) ⟨by exact Nat.one_pos, rfl⟩
  obtain ⟨mapping, region, served⟩ :=
    always _ _ ran 0 (by decide) _ List.mem_cons_self 0x80400000
      (by decide) false
  have negative := served.nonneg
  revert negative
  decide

end Idylla.Mm
