import Idylla.Mm.VmShared

namespace Idylla.Mm

open Idylla.Lib

/-!
# Page protection

`vm_getpage` maps a page that it has just fetched with `PG_FLAG_RW`, whatever
the protection of the mapping.  Only where no fault of a mapping without
`PROT_WRITE` fetches a page can the user not write to such a mapping.
-/

variable {w : Nat} {Vnode : Type}

/-- No entry lets the user write to a mapping without `PROT_WRITE`. -/
def WriteProtected (state : VmState w Vnode) : Prop :=
  ∀ space block mapping index pte, state.Uses space block mapping →
    mapping.has protWrite = false →
    index < pageCount block.size →
    state.entry space (pageAddress block.start index) = some pte →
    ¬ (pte.user = true ∧ pte.rw = true)

/--
A fault of a mapping without `PROT_WRITE` is a write, finds the page in the
region, or fails to fetch it.
-/
def FetchesNoReadOnlyPage (state : VmState w Vnode) : VmLabel w Vnode → Prop
  | .fault space address rw read _ _ =>
    ∀ block mapping region, state.Uses space block mapping →
      block.hits address = true →
      state.regions.cells mapping.region = some region →
      mapping.has protWrite = false →
      rw = true ∨
        (region.pages (faultIndex block.start address) ≠ none ∧
          mapping.has mapShared = false) ∨
        ∀ content,
          region.source (faultIndex block.start address) read ≠
            some (.ok content)
  | .clone _ _ => True
  | .store _ _ _ => True

section Steps

variable {memory : UserMemory w} {state next : VmState w Vnode}

theorem WriteProtected.fault (wide : 32 ≤ w)
    (isProtected : WriteProtected state) (sound : VmSound state)
    {space frame : Nat} {address : BitVec w} {rw : Bool}
    {read : VnodeRead Vnode} {result : Int}
    (fetchesNone :
      FetchesNoReadOnlyPage state (.fault space address rw read frame result))
    (returns :
      vmPagefault state space address rw read frame = some (next, result)) :
    WriteProtected next := by
  rcases sound.vmPagefault_served wide returns with
    ⟨rfl, -⟩ | ⟨block, mapping, region, index, uses, hits, live, bounded,
      isIndex, served, -⟩
  · exact isProtected
  · obtain ⟨cell, isCell, sameSize, -⟩ := sound.live _ _ _ uses
    rw [live, Option.some.injEq] at isCell
    subst isCell
    rw [sameSize] at bounded
    -- only the entry of the fault is replaced
    have elsewhere : ∀ {slot entry},
          PageChange state next space (pageAddress block.start index)
            mapping.region index slot entry →
          (∀ pte, entry = some pte → mapping.has protWrite = false →
            ¬ (pte.user = true ∧ pte.rw = true)) →
          WriteProtected next := by
      intro slot entry change safe other otherBlock otherMapping position
        pte used readOnly inside isEntry
      have oldUses := change.uses_iff.mp used
      rw [VmState.entry, change.table] at isEntry
      by_cases here : other = space ∧
            pageAddress otherBlock.start position =
              pageAddress block.start index
      · rw [if_pos here] at isEntry
        obtain ⟨rfl, sameAddress⟩ := here
        obtain ⟨rfl, -⟩ :=
          (sound.layout other).pageAddress_unique oldUses.1 uses.1 inside
            bounded sameAddress
        have sameMapping := oldUses.2.symm.trans uses.2
        rw [Option.some.injEq] at sameMapping
        exact safe pte isEntry (sameMapping ▸ readOnly)
      · rw [if_neg here] at isEntry
        exact isProtected other otherBlock otherMapping position pte oldUses
          readOnly inside isEntry
    have mayNotFetch : ∀ {content},
          region.pages index = none ∨ mapping.has mapShared = true →
          region.source index read = some (.ok content) →
          mapping.has protWrite = false → rw = true := by
      intro content missing isContent readOnly
      rw [isIndex] at missing isContent
      rcases fetchesNone block mapping region uses hits live readOnly with
        isWrite | ⟨present, isPrivate⟩ | unreadable
      · exact isWrite
      · rcases missing with absent | isShared
        · exact absurd absent present
        · rw [isPrivate] at isShared
          simp at isShared
      · exact absurd isContent (unreadable content)
    by_cases refused : mapping.has protWrite = false ∧ rw = true
    · obtain ⟨readOnly, rfl⟩ := refused
      obtain ⟨rfl, -⟩ := sound.vmPagefault_refused uses hits readOnly returns
      exact isProtected
    · cases served with
      | refused readOnly isWrite =>
        exact absurd ⟨readOnly, isWrite⟩ refused
      | shows holds _ reads =>
        refine elsewhere (.shown live holds _) ?_
        intro pte isPte _
        rw [← Option.some.inj isPte]
        simp
      | copies holds _ writes =>
        refine elsewhere (.copied live _ _) ?_
        intro pte _ readOnly
        exact absurd ⟨readOnly, writes⟩ refused
      | fetches missing isContent =>
        refine elsewhere (.fetched live _ _) ?_
        intro pte _ readOnly
        exact absurd ⟨readOnly, mayNotFetch missing isContent readOnly⟩ refused
      | fails missing isError =>
        refine elsewhere (.failed live) ?_
        intro pte isPte
        simp at isPte

theorem WriteProtected.clone
    (isProtected : WriteProtected state) (sound : VmSound state)
    {src dest : Nat} (fresh : state.spaces dest = vmSpaceCreate memory)
    (different : dest ≠ src)
    (returns : vmSpaceClone state dest src = some (next, .ok ())) :
    WriteProtected next := by
  have keeps : ∀ {state next : VmState w Vnode} {front block behind kept},
        Cloning state src dest front block behind →
        (WriteProtected state ∧ ∀ address, state.entry dest address = none) →
        vmClone state src dest front block behind = some (next, .ok kept) →
        WriteProtected next ∧ ∀ address, next.entry dest address = none := by
    intro state next front block behind kept cloning holds returns
    obtain ⟨isProtected, empty⟩ := holds
    obtain ⟨mapping, uses, cloned⟩ := cloning.clonedBlock returns
    have stillEmpty : ∀ address, next.entry dest address = none := by
      intro address
      rcases cloned.table dest address with
        same | ⟨_, _, _, isSrc, -⟩
      · rw [same]
        exact empty address
      · exact absurd isSrc cloning.different
    refine ⟨?_, stillEmpty⟩
    intro space other otherMapping index pte used readOnly inside isEntry
    obtain ⟨oldSpace, old, oldMapping, oldUses, sameStart, sameSize,
      sameFlags, -, isCloned⟩ := cloned.origin used
    rcases isCloned with rfl | ⟨-, rfl⟩
    · rcases cloned.table oldSpace (pageAddress other.start index) with
        same | ⟨_, _, shown, -, -, -, noWrite, isShown⟩
      · refine isProtected oldSpace old oldMapping index pte oldUses ?_ ?_ ?_
        · rw [VmMapping.has, sameFlags]
          exact readOnly
        · rw [sameSize]
          exact inside
        · rw [sameStart, ← same]
          exact isEntry
      · rw [isShown, Option.some.injEq] at isEntry
        rw [← isEntry, noWrite]
        simp
    · rw [stillEmpty] at isEntry
      simp at isEntry
  have empty : ∀ address, state.entry dest address = none := by
    intro address
    rw [VmState.entry, fresh]
    rfl
  exact (vmSpaceClone_preserves sound fresh different keeps
    ⟨isProtected, empty⟩ returns).2.1

theorem WriteProtected.step (wide : 32 ≤ w) {label : VmLabel w Vnode}
    (isProtected : WriteProtected state) (sound : VmSound state)
    (fetchesNone : FetchesNoReadOnlyPage state label)
    (step : VmStep memory state label next) : WriteProtected next := by
  cases step with
  | clone fresh different returns =>
    exact isProtected.clone sound fresh different returns
  | fault unused returns =>
    exact isProtected.fault wide sound fetchesNone returns
  | store writes =>
    obtain ⟨-, -, -, -, -, sameSpaces, -⟩ := VmState.store_some writes
    intro space block mapping index pte used readOnly inside isEntry
    rw [VmState.Uses, sameSpaces] at used
    rw [VmState.entry, sameSpaces] at isEntry
    exact isProtected space block mapping index pte used readOnly inside isEntry

end Steps

/-- User writes to mappings without `PROT_WRITE` fault and are refused. -/
def RefusesWrites (state : VmState w Vnode) : Prop :=
  ∀ space block mapping address, state.Uses space block mapping →
    block.hits address = true →
    mapping.has protWrite = false →
    (∀ byte, state.store space address byte = none) ∧
      ∀ read frame next result,
        vmPagefault state space address true read frame = some (next, result) →
        next = state ∧ result ≠ 0

theorem WriteProtected.refusesWrites (wide : 32 ≤ w) {state : VmState w Vnode}
    (isProtected : WriteProtected state) (sound : VmSound state) :
    RefusesWrites state := by
  intro space block mapping address uses hits readOnly
  refine ⟨?_, ?_⟩
  · intro byte
    obtain ⟨bounded, atPage⟩ :=
      (sound.layout space).page_of_hits wide uses.1 hits
    unfold VmState.store
    cases isEntry : state.translate space address with
    | none =>
      rfl
    | some pte =>
      rw [VmState.translate, ← atPage] at isEntry
      exact if_neg
        (isProtected space block mapping _ pte uses readOnly bounded isEntry)
  · intro read frame next result returns
    exact sound.vmPagefault_refused uses hits readOnly returns

/--
In a run in which no fault fetches a page for a mapping without `PROT_WRITE`,
no entry of such a mapping is writable for the user, and user writes to it are
refused.
-/
theorem readOnlyMappings_refuse_writes (wide : 32 ≤ w) {memory : UserMemory w}
    (below : memory.start.toNat + memory.size.toNat < 2 ^ w)
    {first last : VmState w Vnode} {labels : List (VmLabel w Vnode)}
    (setUp : SetUp memory first)
    (run :
      Run (Guarded FetchesNoReadOnlyPage (VmStep memory)) first labels last) :
    WriteProtected last ∧ RefusesWrites last := by
  have reached : VmSound last ∧ WriteProtected last := by
    refine run.invariant (fun _ state => VmSound state ∧ WriteProtected state)
      ⟨setUp.sound below, ?_⟩ ?_
    · intro space block mapping index pte _ _ _ isEntry
      rw [VmState.entry, setUp.no_entries] at isEntry
      simp at isEntry
    · rintro _ state label next ⟨sound, isProtected⟩ ⟨fetchesNone, step⟩
      exact ⟨step.sound wide sound,
        isProtected.step wide sound fetchesNone step⟩
  exact ⟨reached.2, reached.2.refusesWrites wide reached.1⟩

/-- Map one anonymous page with `PROT_READ` at the start of user memory. -/
def mapReadOnlyPage : MmapCall 32 Unit where
  filedes := fun _ => none
  request :=
    { start := 0x00400000
      length := 0x1000
      flags := protRead ||| mapAnonymous
      fd := -1
      offset := 0 }

/-- One address space with a page that may only be read. -/
def readOnlySpace : VmState 32 Unit :=
  vmSpaceMmap (VmState.boot userMemory32 fun _ => zeroPage) 0 mapReadOnlyPage

theorem readOnlySpace_setUp : SetUp userMemory32 readOnlySpace := by
  have stays : SetUpStays (VmState.boot userMemory32 fun _ => zeroPage)
        ⟨0, mapReadOnlyPage⟩ := by
    refine ⟨boot_staysInBlock (by decide), ?_⟩
    intro fd file isOpen
    simp [mapReadOnlyPage] at isOpen
  exact (setUp_boot (by decide) userMemory32 _).vmSpaceMmap (by decide) stays

/-- A refused write and a clone leave the page protected. -/
theorem readOnlySpace_refuses_writes :
    RefusesWrites
      ((readOnlySpace.after (.fault 0 0x00400000 true noFiles 1 (-1))).after
        (.clone 1 0)) := by
  have run :
      Run (Guarded FetchesNoReadOnlyPage (VmStep userMemory32)) readOnlySpace
        [.fault 0 0x00400000 true noFiles 1 (-1), .clone 1 0]
        ((readOnlySpace.after (.fault 0 0x00400000 true noFiles 1 (-1))).after
          (.clone 1 0)) :=
    .extend (.extend .start ⟨fun _ _ _ _ _ _ _ => .inl rfl, .fault rfl rfl⟩)
      ⟨trivial, .clone rfl (by decide) rfl⟩
  exact (readOnlyMappings_refuse_writes (by decide) (by decide)
    readOnlySpace_setUp run).2

/-- The first read of a read-only page makes it writable for the user. -/
theorem vmGetpage_opens_read_only_page :
    ¬ ∀ {first last : VmState 32 Unit} {labels : List (VmLabel 32 Unit)},
      SetUp userMemory32 first →
      Run (VmStep userMemory32) first labels last →
      WriteProtected last := by
  intro isProtected
  have step :
      VmStep userMemory32 readOnlySpace (.fault 0 0x00400000 false noFiles 1 0)
        (readOnlySpace.after (.fault 0 0x00400000 false noFiles 1 0)) :=
    .fault rfl rfl
  have uses :
      (readOnlySpace.after (.fault 0 0x00400000 false noFiles 1 0)).Uses 0
        (SmaBlock.mk smaFlagsUsed 0x00400000 0x1000
          (some
            { flags := protRead ||| mapAnonymous, region := 0, offset := 0 }))
        { flags := protRead ||| mapAnonymous, region := 0, offset := 0 } :=
    ⟨List.mem_singleton.mpr rfl, rfl⟩
  exact isProtected readOnlySpace_setUp (Run.single step) 0 _ _ 0
    { frame := 1, user := true, rw := true } uses (by decide) (by decide)
    rfl ⟨rfl, rfl⟩

end Idylla.Mm
