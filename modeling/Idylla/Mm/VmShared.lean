import Idylla.Mm.VmIsolation

namespace Idylla.Mm

open Idylla.Lib

/-!
# Shared mappings

`vm_getpage` fetches a new page on every fault of a mapping with
`MAP_SHARED`.  As long as no such page is faulted in twice, all address spaces
that stem from one and have the page mapped show the same frame.
-/

variable {w : Nat} {Vnode : Type}

/-- The address spaces, with the one each of them stems from. -/
structure VmFamily (w : Nat) (Vnode : Type) where
  state : VmState w Vnode
  root : Nat → Nat

/-- A clone stems from where its source stems from. -/
def cloneRoot (root : Nat → Nat) : VmLabel w Vnode → Nat → Nat
  | .clone dest src =>
    fun space => if space = dest then root src else root space
  | .fault _ _ _ _ _ _ => root
  | .store _ _ _ => root

/-- A step of the address spaces with their families. -/
structure FamilyStep
    (memory : UserMemory w) (source : VmFamily w Vnode)
    (label : VmLabel w Vnode)
    (target : VmFamily w Vnode) : Prop where
  step : VmStep memory source.state label target.state
  root : target.root = cloneRoot source.root label

/-- The labels hold a successful fault of a page in an address space. -/
def FaultedIn (labels : List (VmLabel w Vnode)) (space : Nat)
    (virt : BitVec w) : Prop :=
  ∃ address rw read frame,
    VmLabel.fault space address rw read frame 0 ∈ labels ∧
      pageRoundDown address = virt

/-- A page of a mapping with `MAP_SHARED`. -/
structure SharedPage
    (state : VmState w Vnode) (space : Nat) (block : SmaBlock w VmMapping)
    (mapping : VmMapping)
    (index : Nat) : Prop where
  uses : state.Uses space block mapping
  shared : mapping.has mapShared = true
  bounded : index < pageCount block.size

/--
The pages of shared mappings have one frame in a family: it is in every entry
and in every slot, and a page that is in a slot is mapped somewhere.
-/
structure SharesFrames
    (state : VmState w Vnode)
    (root : Nat → Nat)
    (faulted : Nat → BitVec w → Prop) : Prop where
  same_flags : ∀ {space block mapping other otherBlock otherMapping address},
      state.Uses space block mapping →
      state.Uses other otherBlock otherMapping →
      root space = root other →
      block.Covers address →
      otherBlock.Covers address →
      mapping.flags = otherMapping.flags
  same_root : ∀ {space block mapping other otherBlock otherMapping},
      state.Uses space block mapping →
      state.Uses other otherBlock otherMapping →
      mapping.region = otherMapping.region →
      root space = root other
  entries : ∀ {space block mapping index},
      SharedPage state space block mapping index →
      ∀ {first second pte otherPte}, root first = root space →
        root second = root space →
        state.entry first (pageAddress block.start index) = some pte →
        state.entry second (pageAddress block.start index) = some otherPte →
        pte.frame = otherPte.frame
  slots : ∀ {space block mapping index},
      SharedPage state space block mapping index →
      ∀ {other frame pte}, state.slot mapping.region index = some frame →
        root other = root space →
        state.entry other (pageAddress block.start index) = some pte →
        pte.frame = frame
  shown : ∀ {space block mapping index},
      SharedPage state space block mapping index →
      ∀ {frame}, state.slot mapping.region index = some frame →
        ∃ other,
          root other = root space ∧
            state.entry other (pageAddress block.start index) ≠ none
  present : ∀ {space block mapping index},
      SharedPage state space block mapping index →
      faulted space (pageAddress block.start index) →
      state.entry space (pageAddress block.start index) ≠ none
  placed : ∀ {space virt}, faulted space virt →
      ∃ block mapping, state.Uses space block mapping

theorem SetUp.sharesFrames {memory : UserMemory w} {state : VmState w Vnode}
    (setUp : SetUp memory state)
    (layout : ∀ space, Layout (state.spaces space).area.usedList) :
    SharesFrames state id (FaultedIn ([] : List (VmLabel w Vnode))) where
  same_flags := by
    intro space block mapping other otherBlock otherMapping address uses
      otherUses sameSpace covers otherCovers
    obtain rfl : space = other := sameSpace
    obtain rfl := (layout space).unique uses.1 otherUses.1 covers otherCovers
    have sameMapping := uses.2.symm.trans otherUses.2
    rw [Option.some.injEq] at sameMapping
    rw [sameMapping]
  same_root := fun uses otherUses same =>
    (setUp.alone _ _ _ _ _ _ uses otherUses same).1
  entries := by
    intro space block mapping index page first second pte otherPte _ _ isEntry
    rw [VmState.entry, setUp.no_entries] at isEntry
    simp at isEntry
  slots := by
    intro space block mapping index page other frame pte _ _ isEntry
    rw [VmState.entry, setUp.no_entries] at isEntry
    simp at isEntry
  shown := by
    intro space block mapping index page frame holds
    obtain ⟨region, live, -⟩ := setUp.live _ _ _ page.uses
    rw [VmState.slot_of_live live, (setUp.unshared _ region live).2] at holds
    simp at holds
  present := by
    rintro space block mapping index page ⟨_, _, _, _, member, -⟩
    simp at member
  placed := by
    rintro space virt ⟨_, _, _, _, member, -⟩
    simp at member

section Change

variable {state next : VmState w Vnode} {root : Nat → Nat}
  {faulted after : Nat → BitVec w → Prop} {space index : Nat}
  {block : SmaBlock w VmMapping} {mapping : VmMapping}
  {region : VmRegion w Vnode} {slot : Option Nat} {entry : Option Pte}

/--
A fault may replace a slot and its entry when the mapping is not shared, or
when no address space of the family has the page mapped.
-/
theorem SharesFrames.change
    (shares : SharesFrames state root faulted) (sound : VmSound state)
    (uses : state.Uses space block mapping)
    (live : state.regions.cells mapping.region = some region)
    (bounded : index < pageCount block.size)
    (change :
      PageChange state next space (pageAddress block.start index)
        mapping.region index slot entry) (isSlot : slot = entry.map Pte.frame)
    (first :
      mapping.has mapShared = true →
      ∀ other, root other = root space →
        state.entry other (pageAddress block.start index) = none)
    (faults :
      ∀ {other virt}, after other virt →
        faulted other virt ∨
          (other = space ∧ virt = pageAddress block.start index ∧
            entry ≠ none)) : SharesFrames next root after := by
  have covers : block.Covers (pageAddress block.start index).toNat :=
    ((sound.layout space).shaped block uses.1).covers_pageAddress bounded
  have pageOf : ∀ {other otherBlock otherMapping position},
        SharedPage next other otherBlock otherMapping position →
        SharedPage state other otherBlock otherMapping position :=
    fun page => ⟨change.uses_iff.mp page.uses, page.shared, page.bounded⟩
  -- a shared page at the address of the fault was mapped nowhere
  have quiet : ∀ {other otherBlock otherMapping position},
        SharedPage state other otherBlock otherMapping position →
        root other = root space →
        pageAddress otherBlock.start position = pageAddress block.start index →
        ∀ member, root member = root other →
          state.entry member (pageAddress otherBlock.start position) =
            none := by
    intro other otherBlock otherMapping position page sameRoot sameAddress
      member sameFamily
    have otherCovers :
        otherBlock.Covers (pageAddress block.start index).toNat := by
      rw [← sameAddress]
      exact ((sound.layout other).shaped otherBlock
        page.uses.1).covers_pageAddress page.bounded
    have sameFlags :=
      shares.same_flags page.uses uses sameRoot otherCovers covers
    have isShared : mapping.has mapShared = true := by
      rw [VmMapping.has, ← sameFlags]
      exact page.shared
    rw [sameAddress]
    exact first isShared member (sameFamily.trans sameRoot)
  -- a slot of the region of the fault at its index is at its address
  have atFault : ∀ {other otherBlock otherMapping position},
        SharedPage state other otherBlock otherMapping position →
        otherMapping.region = mapping.region ∧ position = index →
        root other = root space ∧
          pageAddress otherBlock.start position =
            pageAddress block.start index := by
    rintro other otherBlock otherMapping position page ⟨sameRegion, rfl⟩
    refine ⟨shares.same_root page.uses uses sameRegion, ?_⟩
    rw [sound.same_start _ _ _ _ _ _ page.uses uses sameRegion]
  have entries : ∀ {other otherBlock otherMapping position member},
        SharedPage state other otherBlock otherMapping position →
        root member = root other →
        (next.entry member (pageAddress otherBlock.start position) =
            state.entry member (pageAddress otherBlock.start position)) ∨
          (root other = root space ∧
            pageAddress otherBlock.start position =
              pageAddress block.start index ∧
            next.entry member (pageAddress otherBlock.start position) =
              entry) := by
    intro other otherBlock otherMapping position member page sameFamily
    rw [VmState.entry, change.table]
    by_cases here : member = space ∧
          pageAddress otherBlock.start position = pageAddress block.start index
    · rw [if_pos here]
      exact .inr ⟨sameFamily.symm.trans (by rw [here.1]), here.2, rfl⟩
    · exact .inl (if_neg here)
  have slots := change.slot_eq live
  refine ⟨?_, ?_, ?_, ?_, ?_, ?_, ?_⟩
  · intro other otherBlock otherMapping other' otherBlock' otherMapping'
      address used used'
    exact shares.same_flags (change.uses_iff.mp used) (change.uses_iff.mp used')
  · intro other otherBlock otherMapping other' otherBlock' otherMapping'
      used used'
    exact shares.same_root (change.uses_iff.mp used) (change.uses_iff.mp used')
  · intro other otherBlock otherMapping position newPage one two pte
      otherPte oneFamily twoFamily isOne isTwo
    have page := pageOf newPage
    rcases entries page oneFamily with
      oneOld | ⟨sameRoot, sameAddress, oneNew⟩ <;>
    rcases entries page twoFamily with
      twoOld | ⟨sameRoot', sameAddress', twoNew⟩
    · exact shares.entries page oneFamily twoFamily
        (oneOld.symm.trans isOne) (twoOld.symm.trans isTwo)
    · have missing := quiet page sameRoot' sameAddress' one oneFamily
      rw [oneOld, missing] at isOne
      simp at isOne
    · have missing := quiet page sameRoot sameAddress two twoFamily
      rw [twoOld, missing] at isTwo
      simp at isTwo
    · rw [oneNew, ← twoNew, isTwo, Option.some.injEq] at isOne
      rw [isOne]
  · intro other otherBlock otherMapping position newPage member frame pte
      holds sameFamily isEntry
    have page := pageOf newPage
    rw [slots] at holds
    by_cases here : otherMapping.region = mapping.region ∧ position = index
    · obtain ⟨sameRoot, sameAddress⟩ := atFault page here
      rw [if_pos here, isSlot] at holds
      rcases entries page sameFamily with old | ⟨-, -, new⟩
      · rw [old, quiet page sameRoot sameAddress member sameFamily] at isEntry
        simp at isEntry
      · rw [← new, isEntry] at holds
        exact Option.some.inj holds
    · rw [if_neg here] at holds
      rcases entries page sameFamily with
        old | ⟨sameRoot, sameAddress, -⟩
      · exact shares.slots page holds sameFamily (old.symm.trans isEntry)
      · obtain ⟨shower, itsFamily, isShown⟩ := shares.shown page holds
        exact absurd (quiet page sameRoot sameAddress shower itsFamily) isShown
  · intro other otherBlock otherMapping position newPage frame holds
    have page := pageOf newPage
    rw [slots] at holds
    by_cases here : otherMapping.region = mapping.region ∧ position = index
    · obtain ⟨sameRoot, sameAddress⟩ := atFault page here
      rw [if_pos here, isSlot] at holds
      obtain ⟨pte, isEntry, -⟩ := Option.map_eq_some_iff.mp holds
      refine ⟨space, sameRoot.symm, ?_⟩
      rw [VmState.entry, change.table, if_pos ⟨rfl, sameAddress⟩, isEntry]
      simp
    · rw [if_neg here] at holds
      obtain ⟨shower, itsFamily, isShown⟩ := shares.shown page holds
      refine ⟨shower, itsFamily, ?_⟩
      rcases entries page itsFamily with
        old | ⟨sameRoot, sameAddress, -⟩
      · rw [old]
        exact isShown
      · exact absurd (quiet page sameRoot sameAddress shower itsFamily) isShown
  · intro other otherBlock otherMapping position newPage isFaulted
    have page := pageOf newPage
    rcases faults isFaulted with old | ⟨rfl, sameAddress, isEntry⟩
    · have isShown := shares.present page old
      rcases entries page rfl with
        same | ⟨sameRoot, sameAddress, -⟩
      · rw [same]
        exact isShown
      · exact absurd (quiet page sameRoot sameAddress other rfl) isShown
    · rw [VmState.entry, change.table, if_pos ⟨rfl, sameAddress⟩]
      exact isEntry
  · intro other virt isFaulted
    rcases faults isFaulted with old | ⟨rfl, -, -⟩
    · obtain ⟨otherBlock, otherMapping, used⟩ := shares.placed old
      exact ⟨otherBlock, otherMapping, change.uses_iff.mpr used⟩
    · exact ⟨block, mapping, change.uses_iff.mpr uses⟩

end Change

theorem SharesFrames.weaken {state : VmState w Vnode} {root : Nat → Nat}
    {faulted after : Nat → BitVec w → Prop}
    (shares : SharesFrames state root faulted)
    (fewer : ∀ {space virt}, after space virt → faulted space virt) :
    SharesFrames state root after where
  same_flags := shares.same_flags
  same_root := shares.same_root
  entries := shares.entries
  slots := shares.slots
  shown := shares.shown
  present := fun page isFaulted => shares.present page (fewer isFaulted)
  placed := fun isFaulted => shares.placed (fewer isFaulted)

theorem SharesFrames.congr {state next : VmState w Vnode} {root : Nat → Nat}
    {faulted : Nat → BitVec w → Prop} (shares : SharesFrames state root faulted)
    (sameSpaces : next.spaces = state.spaces)
    (sameRegions : next.regions = state.regions) :
    SharesFrames next root faulted := by
  obtain ⟨regions, pages, bytes, spaces⟩ := next
  subst sameSpaces sameRegions
  have pageOf : ∀ {space block mapping index},
        SharedPage ⟨state.regions, pages, bytes, state.spaces⟩ space block
          mapping index →
        SharedPage state space block mapping index :=
    fun page => ⟨page.uses, page.shared, page.bounded⟩
  exact
    { same_flags := shares.same_flags
      same_root := shares.same_root
      entries := fun page => shares.entries (pageOf page)
      slots := fun page => shares.slots (pageOf page)
      shown := fun page => shares.shown (pageOf page)
      present := fun page => shares.present (pageOf page)
      placed := shares.placed }

theorem faultedIn_append
    {past : List (VmLabel w Vnode)} {label : VmLabel w Vnode} {space : Nat}
    {virt : BitVec w} :
    FaultedIn (past ++ [label]) space virt ↔
      FaultedIn past space virt ∨ FaultedIn [label] space virt := by
  constructor
  · rintro ⟨address, rw, read, frame, member, atPage⟩
    rcases List.mem_append.mp member with old | new
    · exact .inl ⟨address, rw, read, frame, old, atPage⟩
    · exact .inr ⟨address, rw, read, frame, new, atPage⟩
  · rintro (⟨address, rw, read, frame, old, atPage⟩ |
      ⟨address, rw, read, frame, new, atPage⟩)
    · exact ⟨address, rw, read, frame, List.mem_append_left _ old, atPage⟩
    · exact ⟨address, rw, read, frame, List.mem_append_right _ new, atPage⟩

/--
No page of a shared mapping is faulted in when an address space of the family
has it mapped already; a refused write does not count.
-/
def FirstFault (source : VmFamily w Vnode) : VmLabel w Vnode → Prop
  | .fault space address rw _ _ _ =>
    ∀ block mapping, source.state.Uses space block mapping →
      block.hits address = true →
      mapping.has mapShared = true →
      (mapping.has protWrite = true ∨ rw = false) →
      ∀ other, source.root other = source.root space →
        source.state.entry other (pageRoundDown address) = none
  | .clone _ _ => True
  | .store _ _ _ => True

theorem VmSound.vmPagefault_refused {state next : VmState w Vnode}
    (sound : VmSound state)
    {space frame : Nat} {block : SmaBlock w VmMapping} {mapping : VmMapping}
    (uses : state.Uses space block mapping) {address : BitVec w}
    (hits : block.hits address = true)
    (readOnly : mapping.has protWrite = false)
    {read : VnodeRead Vnode} {result : Int}
    (returns :
      vmPagefault state space address true read frame = some (next, result)) :
    next = state ∧ result ≠ 0 := by
  have layout := sound.layout space
  have used := (layout.shaped block uses.1).used
  unfold vmPagefault at returns
  rw [layout.smaGetblock_eq uses.1 hits] at returns
  simp only [used, uses.2, ne_eq, not_true_eq_false, ↓reduceIte] at returns
  unfold vmGetpage at returns
  rw [if_pos (by simp [readOnly]), Option.some.injEq, Prod.mk.injEq] at returns
  exact ⟨returns.1.symm, by omega⟩

theorem SharesFrames.fault (wide : 32 ≤ w)
    {source : VmFamily w Vnode} {next : VmState w Vnode}
    {past : List (VmLabel w Vnode)}
    (shares : SharesFrames source.state source.root (FaultedIn past))
    (sound : VmSound source.state)
    {space frame : Nat} {address : BitVec w} {rw : Bool}
    {read : VnodeRead Vnode} {result : Int}
    (near : NearFault source.state (.fault space address rw read frame result))
    (first : FirstFault source (.fault space address rw read frame result))
    (returns :
      vmPagefault source.state space address rw read frame =
        some (next, result)) :
    SharesFrames next source.root
      (FaultedIn (past ++ [.fault space address rw read frame result])) := by
  have unchanged : next = source.state ∧ result ≠ 0 →
      SharesFrames next source.root
        (FaultedIn (past ++ [.fault space address rw read frame result])) := by
    rintro ⟨rfl, failed⟩
    refine shares.weaken ?_
    intro other virt isFaulted
    rcases faultedIn_append.mp isFaulted with old | ⟨_, _, _, _, new, -⟩
    · exact old
    · rw [List.mem_singleton, VmLabel.fault.injEq] at new
      exact absurd new.2.2.2.2.2.symm failed
  rcases sound.vmPagefault_served wide returns with
    nothing | ⟨block, mapping, region, index, uses, hits, live, bounded,
      -, served, atPage⟩
  · exact unchanged nothing
  · have isPage := atPage (near block uses.1 hits)
    obtain ⟨cell, isCell, sameSize, -⟩ := sound.live _ _ _ uses
    rw [live, Option.some.injEq] at isCell
    subst isCell
    rw [sameSize] at bounded
    by_cases readOnly : mapping.has protWrite = false ∧ rw = true
    · obtain ⟨noWrite, rfl⟩ := readOnly
      exact unchanged (sound.vmPagefault_refused uses hits noWrite returns)
    · rcases served.change live with
        ⟨noWrite, isWrite, -⟩ |
        ⟨slot, entry, change, isSlot, isEntry, -⟩
      · exact absurd ⟨noWrite, isWrite⟩ readOnly
      · refine shares.change sound uses live bounded change isSlot ?_ ?_
        · intro isShared
          rw [isPage]
          refine first block mapping uses hits isShared ?_
          cases hasWrite : mapping.has protWrite <;> simp_all
        · intro other virt isFaulted
          rcases faultedIn_append.mp isFaulted with
            old | ⟨_, _, _, _, new, atVirt⟩
          · exact .inl old
          · rw [List.mem_singleton, VmLabel.fault.injEq] at new
            obtain ⟨rfl, rfl, -, -, -, isZero⟩ := new
            exact .inr ⟨rfl, atVirt.symm.trans isPage.symm, isEntry isZero.symm⟩

section CloneBlock

variable {state next : VmState w Vnode} {root : Nat → Nat}
  {faulted : Nat → BitVec w → Prop} {src dest : Nat}
  {block : SmaBlock w VmMapping} {mapping : VmMapping}

theorem SharesFrames.cloneBlock
    (shares : SharesFrames state root faulted) (sound : VmSound state)
    (uses : state.Uses src block mapping) (copied : root dest = root src)
    (untouched : ∀ virt, ¬ faulted dest virt)
    (cloned : ClonedBlock state next src dest block mapping) :
    SharesFrames next root faulted := by
  have sameFamily : ∀ {oldSpace space}, Cloned src dest oldSpace space →
        root oldSpace = root space := by
    rintro oldSpace space (rfl | ⟨rfl, rfl⟩)
    · rfl
    · exact copied.symm
  have pageOf : ∀ {space other otherMapping index},
        SharedPage next space other otherMapping index →
        ∃ oldSpace old oldMapping,
          SharedPage state oldSpace old oldMapping index ∧
            old.start = other.start ∧
            next.slot otherMapping.region index =
              state.slot oldMapping.region index ∧
            Cloned src dest oldSpace space := by
    intro space other otherMapping index page
    obtain ⟨oldSpace, old, oldMapping, oldUses, sameStart, sameSize,
      sameFlags, sameSlots, isCloned⟩ := cloned.origin page.uses
    refine ⟨oldSpace, old, oldMapping, ⟨oldUses, ?_, ?_⟩, sameStart,
      sameSlots index, isCloned⟩
    · rw [VmMapping.has, sameFlags]
      exact page.shared
    · rw [sameSize]
      exact page.bounded
  -- a new entry at a shared page of the family shows a slot of the block
  have newEntry : ∀ {space other otherMapping position index},
        SharedPage state space other otherMapping position →
        root src = root space →
        index < pageCount block.size →
        pageAddress other.start position = pageAddress block.start index →
        SharedPage state src block mapping index := by
    intro space other otherMapping position index page sameRoot bounded
      sameAddress
    have blockCovers :=
      ((sound.layout src).shaped block uses.1).covers_pageAddress bounded
    have otherCovers :=
      ((sound.layout space).shaped other page.uses.1).covers_pageAddress
        page.bounded
    rw [sameAddress] at otherCovers
    have sameFlags :=
      shares.same_flags uses page.uses sameRoot blockCovers otherCovers
    refine ⟨uses, ?_, bounded⟩
    rw [VmMapping.has, sameFlags]
    exact page.shared
  -- so it shows the frame of every old entry and slot of the page
  have oneFrame : ∀ {space other otherMapping position member pte},
        SharedPage state space other otherMapping position →
        root member = root space →
        next.entry member (pageAddress other.start position) = some pte →
        state.entry member (pageAddress other.start position) = some pte ∨
          ∃ index,
            SharedPage state src block mapping index ∧
              pageAddress other.start position = pageAddress block.start index ∧
              root src = root space ∧
              state.slot mapping.region index = some pte.frame := by
    intro space other otherMapping position member pte page isMember isEntry
    rcases cloned.table member (pageAddress other.start position) with
      same | ⟨index, bounded, shown, rfl, sameAddress, holds, -, isShown⟩
    · exact .inl (same.symm.trans isEntry)
    · rw [isShown, Option.some.injEq] at isEntry
      subst isEntry
      exact .inr ⟨index, newEntry page isMember bounded sameAddress,
        sameAddress, isMember, holds⟩
  have persists : ∀ {space address}, state.entry space address ≠ none →
        next.entry space address ≠ none := by
    intro space address present
    rcases cloned.table space address with
      same | ⟨_, _, pte, -, -, -, -, isEntry⟩
    · rw [same]
      exact present
    · rw [isEntry]
      simp
  refine ⟨?_, ?_, ?_, ?_, ?_, ?_, ?_⟩
  · intro space other otherMapping space' other' otherMapping' address
      used used' sameRoot covers covers'
    obtain ⟨oldSpace, old, oldMapping, oldUses, sameStart, sameSize,
      sameFlags, -, isCloned⟩ := cloned.origin used
    obtain ⟨oldSpace', old', oldMapping', oldUses', sameStart', sameSize',
      sameFlags', -, isCloned'⟩ := cloned.origin used'
    rw [← sameFlags, ← sameFlags']
    refine shares.same_flags oldUses oldUses' ?_
      ((covers_congr sameStart sameSize _).mpr covers)
      ((covers_congr sameStart' sameSize' _).mpr covers')
    rw [sameFamily isCloned, sameRoot, sameFamily isCloned']
  · intro space other otherMapping space' other' otherMapping' used used' same
    rcases cloned.regions used used' same with
      rfl | ⟨_, _, _, _, _, _, old, old', sameOld, isCloned, isCloned'⟩
    · rfl
    · rw [← sameFamily isCloned, ← sameFamily isCloned']
      exact shares.same_root old old' sameOld
  · intro space other otherMapping index newPage first second pte otherPte
      firstFamily secondFamily isFirst isSecond
    obtain ⟨oldSpace, old, oldMapping, page, sameStart, -, isCloned⟩ :=
      pageOf newPage
    rw [← sameStart] at isFirst isSecond
    rw [← sameFamily isCloned] at firstFamily secondFamily
    rcases oneFrame page firstFamily isFirst with
      firstOld | ⟨position, blockPage, sameAddress, sameRoot, holds⟩ <;>
    rcases oneFrame page secondFamily isSecond with
      secondOld | ⟨position', blockPage', sameAddress', sameRoot', holds'⟩
    · exact shares.entries page firstFamily secondFamily firstOld secondOld
    · rw [sameAddress'] at firstOld
      exact shares.slots blockPage' holds'
        (firstFamily.trans sameRoot'.symm) firstOld
    · rw [sameAddress] at secondOld
      exact (shares.slots blockPage holds
        (secondFamily.trans sameRoot.symm) secondOld).symm
    · obtain ⟨-, rfl⟩ :=
        (sound.layout src).pageAddress_unique uses.1 uses.1
          blockPage.bounded blockPage'.bounded
          (sameAddress.symm.trans sameAddress')
      rw [holds, Option.some.injEq] at holds'
      exact holds'
  · intro space other otherMapping index newPage member frame pte holds
      isMember isEntry
    obtain ⟨oldSpace, old, oldMapping, page, sameStart, sameSlot,
      isCloned⟩ := pageOf newPage
    rw [← sameStart] at isEntry
    rw [← sameFamily isCloned] at isMember
    rw [sameSlot] at holds
    rcases oneFrame page isMember isEntry with
      isOld | ⟨position, blockPage, sameAddress, sameRoot, blockHolds⟩
    · exact shares.slots page holds isMember isOld
    · -- both slots hold the frame that is shown somewhere
      obtain ⟨shower, itsFamily, isShown⟩ := shares.shown page holds
      obtain ⟨shown, isEntry⟩ := Option.ne_none_iff_exists'.mp isShown
      have ofPage := shares.slots page holds itsFamily isEntry
      rw [sameAddress] at isEntry
      have ofBlock :=
        shares.slots blockPage blockHolds (itsFamily.trans sameRoot.symm)
          isEntry
      exact ofBlock.symm.trans ofPage
  · intro space other otherMapping index newPage frame holds
    obtain ⟨oldSpace, old, oldMapping, page, sameStart, sameSlot,
      isCloned⟩ := pageOf newPage
    rw [sameSlot] at holds
    obtain ⟨shower, itsFamily, isShown⟩ := shares.shown page holds
    rw [sameStart] at isShown
    exact ⟨shower, itsFamily.trans (sameFamily isCloned), persists isShown⟩
  · intro space other otherMapping index newPage isFaulted
    obtain ⟨oldSpace, old, oldMapping, page, sameStart, -, isCloned⟩ :=
      pageOf newPage
    rcases isCloned with rfl | ⟨-, rfl⟩
    · rw [← sameStart] at isFaulted ⊢
      exact persists (shares.present page isFaulted)
    · exact absurd isFaulted (untouched _)
  · intro space virt isFaulted
    obtain ⟨other, otherMapping, used⟩ := shares.placed isFaulted
    exact cloned.stays used

end CloneBlock

section Steps

variable {memory : UserMemory w} {state next : VmState w Vnode}
  {root : Nat → Nat} {faulted : Nat → BitVec w → Prop} {src dest : Nat}

theorem SharesFrames.join (shares : SharesFrames state root faulted)
    (fresh : state.spaces dest = vmSpaceCreate memory) (src : Nat) :
    SharesFrames state
      (fun space => if space = dest then root src else root space)
      faulted := by
  have used : ∀ {space block mapping}, state.Uses space block mapping →
        (if space = dest then root src else root space) = root space := by
    rintro space block mapping ⟨member, -⟩
    refine if_neg ?_
    rintro rfl
    rw [fresh] at member
    simp [vmSpaceCreate, vmSpaceArea, smaAreaCreate] at member
  have shown : ∀ {space address}, state.entry space address ≠ none →
        (if space = dest then root src else root space) = root space := by
    intro space address present
    refine if_neg ?_
    rintro rfl
    rw [VmState.entry, fresh] at present
    exact present rfl
  have mapped : ∀ {space address pte}, state.entry space address = some pte →
        (if space = dest then root src else root space) = root space := by
    intro space address pte isEntry
    have present : state.entry space address ≠ none := by
      rw [isEntry]
      simp
    exact shown present
  refine ⟨?_, ?_, ?_, ?_, ?_, shares.present, shares.placed⟩
  · intro space block mapping other otherBlock otherMapping address uses
      otherUses sameRoot
    rw [used uses, used otherUses] at sameRoot
    exact shares.same_flags uses otherUses sameRoot
  · intro space block mapping other otherBlock otherMapping uses otherUses same
    rw [used uses, used otherUses]
    exact shares.same_root uses otherUses same
  · intro space block mapping index page first second pte otherPte
      firstFamily secondFamily isFirst isSecond
    rw [mapped isFirst, used page.uses] at firstFamily
    rw [mapped isSecond, used page.uses] at secondFamily
    exact shares.entries page firstFamily secondFamily isFirst isSecond
  · intro space block mapping index page other frame pte holds sameFamily
      isEntry
    rw [mapped isEntry, used page.uses] at sameFamily
    exact shares.slots page holds sameFamily isEntry
  · intro space block mapping index page frame holds
    obtain ⟨shower, itsFamily, isShown⟩ := shares.shown page holds
    refine ⟨shower, ?_, isShown⟩
    rw [shown isShown, used page.uses]
    exact itsFamily

theorem SharesFrames.clone
    (shares : SharesFrames state root faulted) (sound : VmSound state)
    (fresh : state.spaces dest = vmSpaceCreate memory) (different : dest ≠ src)
    (returns : vmSpaceClone state dest src = some (next, .ok ())) :
    SharesFrames next
      (fun space => if space = dest then root src else root space)
      faulted := by
  have untouched : ∀ virt, ¬ faulted dest virt := by
    intro virt isFaulted
    obtain ⟨block, mapping, member, -⟩ := shares.placed isFaulted
    rw [fresh] at member
    simp [vmSpaceCreate, vmSpaceArea, smaAreaCreate] at member
  have keeps : ∀ {state next : VmState w Vnode} {front block behind kept},
        Cloning state src dest front block behind →
        SharesFrames state
          (fun space => if space = dest then root src else root space)
          faulted →
        vmClone state src dest front block behind = some (next, .ok kept) →
        SharesFrames next
          (fun space => if space = dest then root src else root space)
          faulted := by
    intro state next front block behind kept cloning shares returns
    obtain ⟨mapping, uses, cloned⟩ := cloning.clonedBlock returns
    exact shares.cloneBlock cloning.sound uses (by simp) untouched cloned
  exact (vmSpaceClone_preserves sound fresh different keeps
    (shares.join fresh src) returns).2

theorem SharesFrames.step (wide : 32 ≤ w)
    {source target : VmFamily w Vnode} {past : List (VmLabel w Vnode)}
    {label : VmLabel w Vnode}
    (shares : SharesFrames source.state source.root (FaultedIn past))
    (sound : VmSound source.state) (near : NearFault source.state label)
    (first : FirstFault source label)
    (family : FamilyStep memory source label target) :
    SharesFrames target.state target.root (FaultedIn (past ++ [label])) := by
  have weakened : ∀ {state : VmState w Vnode} {root : Nat → Nat},
        (∀ {space virt}, ¬ FaultedIn [label] space virt) →
        SharesFrames state root (FaultedIn past) →
        SharesFrames state root (FaultedIn (past ++ [label])) := by
    intro state root noFault itShares
    refine itShares.weaken ?_
    intro space virt isFaulted
    exact (faultedIn_append.mp isFaulted).resolve_right noFault
  obtain ⟨target, targetRoot⟩ := target
  obtain ⟨step, isRoot⟩ := family
  subst isRoot
  cases step with
  | clone fresh different returns =>
    refine weakened ?_ (shares.clone sound fresh different returns)
    rintro space virt ⟨_, _, _, _, member, -⟩
    simp at member
  | fault unused returns =>
    exact shares.fault wide sound near first returns
  | store writes =>
    refine weakened ?_ ?_
    · rintro space virt ⟨_, _, _, _, member, -⟩
      simp at member
    · obtain ⟨pte, -, -, sameRegions, -, sameSpaces, -⟩ :=
        VmState.store_some writes
      exact shares.congr sameSpaces sameRegions

end Steps

/--
The address spaces of a family that have faulted in one page of a shared
mapping show one frame there.
-/
def OneFrame (labels : List (VmLabel w Vnode))
    (family : VmFamily w Vnode) : Prop :=
  ∀ space block mapping index,
    SharedPage family.state space block mapping index →
    ∃ frame, ∀ other otherBlock otherMapping,
      SharedPage family.state other otherBlock otherMapping index →
      family.root other = family.root space →
      otherBlock.start = block.start →
      FaultedIn labels other (pageAddress block.start index) →
      ∃ pte,
        family.state.entry other (pageAddress block.start index) = some pte ∧
          pte.frame = frame

/-- A page fault that meets the condition replaces no shared page. -/
def KeepsPages (condition : VmFamily w Vnode → VmLabel w Vnode → Prop)
    (family : VmFamily w Vnode) : Prop :=
  ∀ space address rw read frame result next,
    condition family (.fault space address rw read frame result) →
    family.state.pages frame = none →
    vmPagefault family.state space address rw read frame = some (next, result) →
    ∀ other block mapping index page,
      SharedPage family.state other block mapping index →
      family.state.slot mapping.region index = some page →
      next.slot mapping.region index = some page ∧
        next.bytes page = family.state.bytes page

/-- No fault lies far into its mapping or repeats one of a shared page. -/
def FaultsOnce (family : VmFamily w Vnode) (label : VmLabel w Vnode) : Prop :=
  NearFault family.state label ∧ FirstFault family label

section Results

variable {family : VmFamily w Vnode} {labels : List (VmLabel w Vnode)}

theorem SharesFrames.oneFrame
    (shares : SharesFrames family.state family.root (FaultedIn labels)) :
    OneFrame labels family := by
  intro space block mapping index page
  have present : ∀ {other otherBlock otherMapping},
        SharedPage family.state other otherBlock otherMapping index →
        otherBlock.start = block.start →
        FaultedIn labels other (pageAddress block.start index) →
        family.state.entry other (pageAddress block.start index) ≠ none := by
    intro other otherBlock otherMapping otherPage sameStart isFaulted
    have isMapped := shares.present otherPage
    rw [sameStart] at isMapped
    exact isMapped isFaulted
  by_cases mapped : ∃ other, family.root other = family.root space ∧
        family.state.entry other (pageAddress block.start index) ≠ none
  · obtain ⟨first, itsFamily, isMapped⟩ := mapped
    obtain ⟨shown, isShown⟩ := Option.ne_none_iff_exists'.mp isMapped
    refine ⟨shown.frame, ?_⟩
    intro other otherBlock otherMapping otherPage sameFamily sameStart isFaulted
    obtain ⟨pte, isEntry⟩ := Option.ne_none_iff_exists'.mp
      (present otherPage sameStart isFaulted)
    exact ⟨pte, isEntry,
      shares.entries page sameFamily itsFamily isEntry isShown⟩
  · refine ⟨0, ?_⟩
    intro other otherBlock otherMapping otherPage sameFamily sameStart isFaulted
    exact absurd
      ⟨other, sameFamily, present otherPage sameStart isFaulted⟩ mapped

/-- A first fault of a page leaves the pages of all other slots alone. -/
theorem SharesFrames.keepsPages (wide : 32 ≤ w)
    (shares : SharesFrames family.state family.root (FaultedIn labels))
    (sound : VmSound family.state) : KeepsPages FaultsOnce family := by
  intro space address rw read frame result next once unused returns other
    block mapping index page shared holds
  have differs : page ≠ frame := by
    rintro rfl
    exact sound.counted.unused unused holds
  rcases sound.vmPagefault_served wide returns with
    ⟨rfl, -⟩ | ⟨faultBlock, faultMapping, region, faultIndex, uses, hits,
      live, bounded, -, served, atPage⟩
  · exact ⟨holds, rfl⟩
  · have isPage := atPage (once.1 faultBlock uses.1 hits)
    obtain ⟨cell, isCell, sameSize, -⟩ := sound.live _ _ _ uses
    rw [live, Option.some.injEq] at isCell
    subst isCell
    rw [sameSize] at bounded
    by_cases readOnly : faultMapping.has protWrite = false ∧ rw = true
    · obtain ⟨noWrite, rfl⟩ := readOnly
      obtain ⟨rfl, -⟩ := sound.vmPagefault_refused uses hits noWrite returns
      exact ⟨holds, rfl⟩
    · rcases served.change live with
        ⟨-, -, rfl, -⟩ | ⟨slot, entry, change, -, -, bytes⟩
      · exact ⟨holds, rfl⟩
      · refine ⟨?_, bytes page differs⟩
        rw [change.slot_eq live, if_neg]
        · exact holds
        · -- a page in the slot would have been mapped before the fault
          rintro ⟨sameRegion, rfl⟩
          have sameStart :=
            sound.same_start _ _ _ _ _ _ shared.uses uses sameRegion
          have sameRoot := shares.same_root shared.uses uses sameRegion
          have covers :=
            ((sound.layout other).shaped block
              shared.uses.1).covers_pageAddress shared.bounded
          have faultCovers :=
            ((sound.layout space).shaped faultBlock
              uses.1).covers_pageAddress bounded
          rw [← sameStart] at faultCovers isPage
          have sameFlags :=
            shares.same_flags shared.uses uses sameRoot covers faultCovers
          have isShared : faultMapping.has mapShared = true := by
            rw [VmMapping.has, ← sameFlags]
            exact shared.shared
          have mayFault : faultMapping.has protWrite = true ∨ rw = false := by
            cases hasWrite : faultMapping.has protWrite <;> simp_all
          obtain ⟨shower, itsFamily, isShown⟩ := shares.shown shared holds
          rw [isPage] at isShown
          exact isShown
            (once.2 faultBlock faultMapping uses hits isShared mayFault
              shower (itsFamily.trans sameRoot))

/--
In a run that faults no page of a shared mapping in twice, all address spaces
of a family that have faulted a page in show one frame, and the next such
fault replaces no page of a shared mapping.
-/
theorem sharedMappings_one_frame (wide : 32 ≤ w) {memory : UserMemory w}
    (below : memory.start.toNat + memory.size.toNat < 2 ^ w)
    {first : VmState w Vnode} (setUp : SetUp memory first)
    {last : VmFamily w Vnode}
    (run :
      Run (Guarded FaultsOnce (FamilyStep memory)) ⟨first, id⟩ labels last) :
    OneFrame labels last ∧ KeepsPages FaultsOnce last := by
  have reached : VmSound last.state ∧
        SharesFrames last.state last.root (FaultedIn labels) := by
    refine run.invariant
      (fun past family =>
        VmSound family.state ∧
          SharesFrames family.state family.root (FaultedIn past))
      ⟨setUp.sound below, setUp.sharesFrames (setUp.sound below).layout⟩ ?_
    rintro past source label target ⟨sound, shares⟩ ⟨⟨near, first⟩, step⟩
    exact ⟨step.step.sound wide sound, shares.step wide sound near first step⟩
  exact ⟨reached.2.oneFrame, reached.2.keepsPages wide reached.1⟩

end Results

/-- Map one page of a file with `MAP_SHARED` at the start of user memory. -/
def mapSharedPage : MmapCall 32 Unit where
  filedes := fun fd => if fd = 3 then some { vnode := some () } else none
  request :=
    { start := 0x00400000
      length := 0x1000
      flags := protRead ||| protWrite ||| mapShared
      fd := 3
      offset := 0 }

/-- One address space with a shared page of a file. -/
def sharedSpace : VmState 32 Unit :=
  vmSpaceMmap (VmState.boot userMemory32 fun _ => zeroPage) 0 mapSharedPage

theorem sharedSpace_setUp : SetUp userMemory32 sharedSpace := by
  have stays : SetUpStays (VmState.boot userMemory32 fun _ => zeroPage)
        ⟨0, mapSharedPage⟩ := by
    refine ⟨boot_staysInBlock (by decide), ?_⟩
    intro fd file isOpen
    simp only [mapSharedPage] at isOpen
    split at isOpen
    · rw [← Option.some.inj isOpen]
      simp
    · simp at isOpen
  exact (setUp_boot (by decide) userMemory32 _).vmSpaceMmap (by decide) stays

/-- The page is faulted in, and the address space is cloned. -/
def faultThenClone : List (VmLabel 32 Unit) :=
  [.fault 0 0x00400000 false noFiles 1 0, .clone 1 0]

/-- What a run of labels leaves, with the families. -/
def VmFamily.after (family : VmFamily w Vnode)
    (label : VmLabel w Vnode) : VmFamily w Vnode where
  state := family.state.after label
  root := cloneRoot family.root label

/-- The two address spaces show one frame after a single fault. -/
theorem faultThenClone_one_frame :
    OneFrame faultThenClone
      (faultThenClone.foldl VmFamily.after ⟨sharedSpace, id⟩) := by
  have once :
      FaultsOnce ⟨sharedSpace, id⟩ (.fault 0 0x00400000 false noFiles 1 0) :=
    ⟨by decide, fun _ _ _ _ _ _ other _ =>
      sharedSpace_setUp.no_entries other _⟩
  have run :
      Run (Guarded FaultsOnce (FamilyStep userMemory32)) ⟨sharedSpace, id⟩
        faultThenClone
        (faultThenClone.foldl VmFamily.after ⟨sharedSpace, id⟩) :=
    .extend (.extend .start ⟨once, .fault rfl rfl, rfl⟩)
      ⟨⟨trivial, trivial⟩, .clone rfl (by decide) rfl, rfl⟩
  exact (sharedMappings_one_frame (by decide) (by decide)
    sharedSpace_setUp run).1

/-- The clone then faults the page in, too. -/
def faultTwice : List (VmLabel 32 Unit) :=
  faultThenClone ++ [.fault 1 0x00400000 false noFiles 2 0]

/-- A second fault of a shared page fetches a second frame. -/
theorem vmGetpage_refetches_shared_page :
    ¬ ∀ {first : VmState 32 Unit} {labels : List (VmLabel 32 Unit)}
        {last : VmFamily 32 Unit},
      SetUp userMemory32 first →
      Run (FamilyStep userMemory32) ⟨first, id⟩ labels last →
      OneFrame labels last ∧ KeepsPages (fun _ _ => True) last := by
  intro oneFrame
  have once : FamilyStep userMemory32 ⟨sharedSpace, id⟩
        (.fault 0 0x00400000 false noFiles 1 0)
        (VmFamily.after ⟨sharedSpace, id⟩
          (.fault 0 0x00400000 false noFiles 1 0)) :=
    ⟨.fault rfl rfl, rfl⟩
  have again : FamilyStep userMemory32
        (faultThenClone.foldl VmFamily.after ⟨sharedSpace, id⟩)
        (.fault 1 0x00400000 false noFiles 2 0)
        (faultTwice.foldl VmFamily.after ⟨sharedSpace, id⟩) :=
    ⟨.fault rfl rfl, rfl⟩
  have run : Run (FamilyStep userMemory32) ⟨sharedSpace, id⟩ faultTwice
        (faultTwice.foldl VmFamily.after ⟨sharedSpace, id⟩) :=
    .extend (.extend (.extend .start once)
      ⟨.clone rfl (by decide) rfl, rfl⟩) again
  have page :
      SharedPage (faultTwice.foldl VmFamily.after ⟨sharedSpace, id⟩).state 0
        (SmaBlock.mk smaFlagsUsed 0x00400000 0x1000
          (some
            { flags := protRead ||| protWrite ||| mapShared
              region := 0
              offset := 0 }))
        { flags := protRead ||| protWrite ||| mapShared
          region := 0
          offset := 0 }
        0 :=
    ⟨⟨List.mem_singleton.mpr rfl, rfl⟩, by decide, by decide⟩
  have otherPage :
      SharedPage (faultTwice.foldl VmFamily.after ⟨sharedSpace, id⟩).state 1
        (SmaBlock.mk smaFlagsUsed 0x00400000 0x1000
          (some
            { flags := protRead ||| protWrite ||| mapShared
              region := 0
              offset := 0 }))
        { flags := protRead ||| protWrite ||| mapShared
          region := 0
          offset := 0 }
        0 :=
    ⟨⟨List.mem_singleton.mpr rfl, rfl⟩, by decide, by decide⟩
  obtain ⟨frame, shows⟩ := (oneFrame sharedSpace_setUp run).1 _ _ _ _ page
  obtain ⟨pte, isEntry, isFrame⟩ :=
    shows _ _ _ page rfl rfl
      ⟨0x00400000, false, noFiles, 1, List.mem_cons_self, rfl⟩
  obtain ⟨otherPte, isOtherEntry, isOtherFrame⟩ :=
    shows _ _ _ otherPage rfl rfl
      ⟨0x00400000, false, noFiles, 2,
        List.mem_cons_of_mem _ (List.mem_cons_of_mem _ List.mem_cons_self), rfl⟩
  have first : some pte = some { frame := 1, user := true, rw := true } :=
    isEntry.symm
  have second : some otherPte = some { frame := 2, user := true, rw := true } :=
    isOtherEntry.symm
  rw [Option.some.injEq] at first second
  rw [first] at isFrame
  rw [second] at isOtherFrame
  exact absurd (isFrame.trans isOtherFrame.symm) (by decide)

end Idylla.Mm
