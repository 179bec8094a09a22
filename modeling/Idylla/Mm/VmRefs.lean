import Idylla.Mm.VmCallCounts

namespace Idylla.Mm

open Idylla.Lib

/-!
# Reference counts in every reachable state

The counts of pages, regions and vnodes after any run of calls, and the moment
at which a frame goes back to `phys_free`.  Only a page fault allocates a page,
so that a frame some slot holds is never handed out again.
-/

variable {w : Nat} {Vnode : Type}

/-- The frames `phys_alloc` has handed out meet a condition. -/
def AllocatesOnly (allowed : Nat → Prop)
    (events : List (VmEvent w Vnode)) : Prop :=
  ∀ frame, .physAlloc frame ∈ events → allowed frame

namespace AllocatesOnly

variable {allowed : Nat → Prop} {first second : List (VmEvent w Vnode)}
  {state : VmState w Vnode}

theorem nil : AllocatesOnly allowed ([] : List (VmEvent w Vnode)) := by
  intro frame member
  cases member

theorem append (inFirst : AllocatesOnly allowed first)
    (inSecond : AllocatesOnly allowed second) :
    AllocatesOnly allowed (first ++ second) := by
  intro frame member
  rcases List.mem_append.mp member with isFirst | isSecond
  · exact inFirst frame isFirst
  · exact inSecond frame isSecond

theorem hold (vnode : Option Vnode) :
    AllocatesOnly allowed (holdEvents vnode : List (VmEvent w Vnode)) := by
  intro frame member
  cases vnode <;> simp [holdEvents] at member

theorem rel (vnode : Option Vnode) :
    AllocatesOnly allowed (relEvents vnode : List (VmEvent w Vnode)) := by
  intro frame member
  cases vnode <;> simp [relEvents] at member

theorem releasePage (state : VmState w Vnode) (page : Nat) :
    AllocatesOnly allowed (releasePageEvents state page) := by
  intro frame member
  unfold releasePageEvents at member
  split at member
  · cases member
  · split at member <;> simp at member

theorem mapPage (space : Nat) (virt : BitVec w) :
    AllocatesOnly allowed ([.mapPage space virt] : List (VmEvent w Vnode)) := by
  intro frame member
  simp at member

theorem copyPage {frame : Nat}
    (isAllowed : allowed frame) (state : VmState w Vnode) (space : Nat)
    (virt : BitVec w) (old : Nat) :
    AllocatesOnly allowed (vmCopyPageEvents state space virt old frame) := by
  refine .append ?_ (.releasePage _ _)
  intro other member
  simp only [List.mem_cons, VmEvent.physAlloc.injEq, reduceCtorEq,
    List.not_mem_nil, or_self, or_false] at member
  rwa [member]

theorem getpage {frame : Nat}
    (isAllowed : allowed frame) (region : VmRegion w Vnode) (space : Nat)
    (virt : BitVec w) (offset : Int) (read : VnodeRead Vnode) :
    AllocatesOnly allowed
      (region.getpageEvents space virt offset read frame) := by
  intro other member
  unfold VmRegion.getpageEvents at member
  have isFrame : other = frame := by
    split at member
    · simpa using member
    · split at member
      · cases member
      · split at member <;> simpa using member
  rwa [isFrame]

theorem fault {frame : Nat}
    (isAllowed : allowed frame) (state : VmState w Vnode) (space : Nat)
    (address : BitVec w) (rw : Bool) (read : VnodeRead Vnode) :
    AllocatesOnly allowed
      (vmPagefaultEvents state space address rw read frame) := by
  unfold vmPagefaultEvents
  split
  · exact .nil
  split
  · exact .nil
  split
  · exact .nil
  unfold vmGetpageEvents
  split
  · exact .nil
  split
  · exact .nil
  dsimp only
  split
  · exact .nil
  split
  · split
    · exact .append (.copyPage isAllowed _ _ _ _) (.mapPage _ _)
    · exact .mapPage _ _
  · refine .append (.getpage isAllowed _ _ _ _ _) ?_
    split
    · exact .mapPage _ _
    · exact .nil

theorem fault_first
    (state : VmState w Vnode) (space : Nat) (address : BitVec w) (rw : Bool)
    (read : VnodeRead Vnode) (frame : Nat) :
    AllocatesOnly (fun _ => False)
        (vmPagefaultEvents state space address rw read frame) ∨
      ∃ later,
        vmPagefaultEvents state space address rw read frame =
          .physAlloc frame :: later := by
  unfold vmPagefaultEvents
  split
  · exact .inl .nil
  split
  · exact .inl .nil
  split
  · exact .inl .nil
  unfold vmGetpageEvents
  split
  · exact .inl .nil
  split
  · exact .inl .nil
  next region _ =>
    dsimp only
    split
    · exact .inl .nil
    split
    · split
      · exact .inr ⟨_, rfl⟩
      · exact .inl (.mapPage _ _)
    · unfold VmRegion.getpageEvents VmRegion.getpage
      cases region.ops with
      | anon =>
        exact .inr ⟨_, rfl⟩
      | vfs =>
        cases region.vnode with
        | none =>
          exact .inl .nil
        | some vnode =>
          dsimp only
          split
          · exact .inr ⟨_, rfl⟩
          · exact .inr ⟨_, rfl⟩

theorem destroyRegion (state : VmState w Vnode) (region count : Nat) :
    AllocatesOnly allowed (vmDestroyRegionEvents state region count) := by
  refine .append ?_ (.rel _)
  induction count with
  | zero =>
    exact .nil
  | succ count ih =>
    refine .append ih ?_
    unfold releaseSlotEvents
    split
    · exact .nil
    · exact .releasePage _ _

theorem protectSlots (state : VmState w Vnode) (src : Nat) (start : BitVec w)
    (region count : Nat) :
    AllocatesOnly allowed
      (protectSlotsEvents state src start region count) := by
  induction count with
  | zero =>
    exact .nil
  | succ count ih =>
    refine .append ih ?_
    split
    · exact .nil
    · exact .mapPage _ _

theorem clone (state : VmState w Vnode) (src dest : Nat)
    (block : SmaBlock w VmMapping) :
    AllocatesOnly allowed (vmCloneEvents state src dest block) := by
  unfold vmCloneEvents
  split
  · exact .nil
  split
  · exact .nil
  split
  · exact .nil
  split
  · exact .nil
  · refine .append
      (.append (.append (.hold _) (.hold _)) (.protectSlots _ _ _ _ _)) ?_
    split
    · exact .destroyRegion _ _ _
    · exact .nil

theorem cloneBlocks
    (src dest : Nat) (front behind : List (SmaBlock w VmMapping))
    (state : VmState w Vnode) :
    AllocatesOnly allowed (cloneBlocksEvents src dest front behind state) := by
  induction behind generalizing front state with
  | nil =>
    exact .nil
  | cons block behind ih =>
    refine .append (.clone _ _ _ _) ?_
    split
    · exact .nil
    · exact .nil
    · exact ih _ _

theorem mmap (state : VmState w Vnode) (space : Nat) (call : MmapCall w Vnode) :
    AllocatesOnly allowed (vmSpaceMmapEvents state space call) := by
  unfold vmSpaceMmapEvents
  split
  · exact .nil
  split
  · exact .nil
  · exact .hold _

theorem destroyBlocks {space : Nat} {blocks : List (SmaBlock w VmMapping)}
    {state after : VmState w Vnode} {events : List (VmEvent w Vnode)}
    (returns : Mm.destroyBlocks space blocks state = some (after, events)) :
    AllocatesOnly allowed events := by
  induction blocks generalizing state events with
  | nil =>
    cases returns
    exact .nil
  | cons block rest ih =>
    unfold Mm.destroyBlocks at returns
    split at returns
    · cases returns
    next destroyed new destroys =>
      split at returns
      · cases returns
      next later loops =>
        cases returns
        refine .append ?_ (ih loops)
        unfold vmDestroy at destroys
        split at destroys
        · cases destroys
        split at destroys
        · cases destroys
        split at destroys
        · cases destroys
          exact .destroyRegion _ _ _
        · cases destroys
          exact .nil

end AllocatesOnly

/--
A call allocates nothing, or the frame of a page that was not in use before it
does anything else.
-/
theorem VmCallStep.allocates
    {memory : UserMemory w} {spaces next : VmSpaces w Vnode}
    {call : VmCall w Vnode} (called : VmCallStep memory spaces call next) :
    ∃ events,
      next.events = spaces.events ++ events ∧
        (AllocatesOnly (fun _ => False) events ∨
          ∃ frame later,
            spaces.vm.pages frame = none ∧ events = .physAlloc frame :: later ∧
              AllocatesOnly (fun other => other = frame) events) := by
  obtain ⟨promised, returns⟩ := called
  cases call with
  | create | share space =>
    cases returns
    exact ⟨[], (List.append_nil _).symm, .inl .nil⟩
  | mmap space call =>
    cases returns
    exact ⟨_, rfl, .inl (.mmap _ _ _)⟩
  | fault space address rw read frame =>
    obtain ⟨⟨vm, result⟩, -, rfl⟩ := Option.map_eq_some_iff.mp returns
    refine ⟨_, rfl, ?_⟩
    have onlyIts : AllocatesOnly (fun other => other = frame)
          (vmPagefaultEvents spaces.vm space address rw read frame) :=
      @AllocatesOnly.fault w Vnode (fun other => other = frame) frame rfl
        _ _ _ _ _
    rcases AllocatesOnly.fault_first spaces.vm space address rw read
      frame with nothing | ⟨later, isFirst⟩
    · exact .inl nothing
    · exact .inr ⟨frame, later, promised.2, isFirst, onlyIts⟩
  | clone dest src =>
    obtain ⟨⟨vm, result⟩, -, rfl⟩ := Option.map_eq_some_iff.mp returns
    exact ⟨_, rfl, .inl (.cloneBlocks _ _ _ _ _)⟩
  | destroy space =>
    have returns : spaces.vmSpaceDestroy space = some next := returns
    unfold VmSpaces.vmSpaceDestroy at returns
    dsimp only at returns
    split at returns
    · cases returns
      exact ⟨[], (List.append_nil _).symm, .inl .nil⟩
    split at returns
    · cases returns
    next vm events destroys =>
      cases returns
      refine ⟨events, rfl, .inl ?_⟩
      unfold smaAreaDestroy at destroys
      split at destroys
      · cases destroys
      next loops =>
        cases destroys
        exact .destroyBlocks loops

/-- The mappings of a region in all spaces created so far. -/
def VmSpaces.mappings (spaces : VmSpaces w Vnode) (region : Nat) : Nat :=
  spaces.vm.mappings spaces.created region

/-- A slot of some region holds the page that owns a frame. -/
def VmState.Holds (state : VmState w Vnode) (frame : Nat) : Prop :=
  ∃ region index, state.slot region index = some frame

/-- The page fault is one whose page `vm_getpage` finds in the array. -/
def VmCall.InReach (spaces : VmSpaces w Vnode) : VmCall w Vnode → Prop
  | .fault space address rw _ _ => FaultInReach spaces.vm space address rw
  | _ => True

variable [DecidableEq Vnode]

/--
The counts of pages, regions and vnodes are the numbers of slots, mappings and
regions that refer to them, and a frame that no slot holds has been freed as
often as it has been allocated.
-/
structure CountsExact (spaces : VmSpaces w Vnode) : Prop where
  pages : ∀ frame,
      HasCount
        (fun slot : Nat × Nat => spaces.vm.slot slot.1 slot.2 = some frame)
        ((spaces.vm.pages frame).getD 0)
  regions : ∀ pointer region, spaces.vm.regions.cells pointer = some region →
      region.refs = spaces.mappings pointer
  vnodes : ∀ vnode, ∃ held,
      HasCount (spaces.vm.Maps vnode) held ∧
        spaces.events.count (.vnodeHold vnode) =
          spaces.events.count (.vnodeRel vnode) + held
  freed : ∀ frame, ¬ spaces.vm.Holds frame →
      spaces.events.count (.physAlloc frame) =
        spaces.events.count (.physFree frame)
  inUse : ∀ frame, spaces.vm.Holds frame →
      spaces.events.count (.physAlloc frame) =
        spaces.events.count (.physFree frame) + 1

/--
A frame that a slot holds is freed once by the call that takes the last such
slot away, and not by any other call.
-/
def FreesLast (before after : VmSpaces w Vnode) : Prop :=
  ∃ events,
    after.events = before.events ++ events ∧
      ∀ frame, before.vm.Holds frame →
        (after.vm.Holds frame → events.count (.physFree frame) = 0) ∧
          (¬ after.vm.Holds frame → events.count (.physFree frame) = 1)

/-- What every call keeps. -/
structure Accounted (spaces : VmSpaces w Vnode) : Prop where
  sound : SpacesSound spaces.vm spaces.created
  ledger : Ledger spaces.vm spaces.events
  unborn : ∀ space, spaces.created ≤ space → spaces.refs space = 0

namespace Accounted

variable {memory : UserMemory w} {spaces next : VmSpaces w Vnode}

variable (accounted : Accounted spaces)

include accounted

theorem below {space : Nat} (inUse : 0 < spaces.refs space) :
    space < spaces.created :=
  VmSpaces.Unborn.below accounted.unborn inUse

theorem holds_iff (frame : Nat) :
    spaces.vm.Holds frame ↔ spaces.vm.pages frame ≠ none :=
  (accounted.ledger.pages.in_use_iff frame).symm

theorem owned_of_holds {frame : Nat} (holds : spaces.vm.Holds frame) :
    spaces.vm.owned frame = 1 := by
  obtain ⟨refs, isRefs⟩ :=
    Option.ne_none_iff_exists'.mp ((accounted.holds_iff frame).mp holds)
  simp [VmState.owned, isRefs]

theorem owned_of_not_holds {frame : Nat} (unheld : ¬ spaces.vm.Holds frame) :
    spaces.vm.owned frame = 0 := by
  rw [accounted.holds_iff, ne_eq, Decidable.not_not] at unheld
  simp [VmState.owned, unheld]

theorem countsExact : CountsExact spaces where
  pages := fun frame => (accounted.ledger.pages frame).2
  regions := accounted.sound.refs
  vnodes := accounted.ledger.vnodes
  freed := by
    intro frame unheld
    rw [accounted.ledger.frames, accounted.owned_of_not_holds unheld]
    rfl
  inUse := by
    intro frame holds
    rw [accounted.ledger.frames, accounted.owned_of_holds holds]

variable {call : VmCall w Vnode}

theorem freesLast (after : Accounted next)
    (called : VmCallStep memory spaces call next) : FreesLast spaces next := by
  obtain ⟨events, isEvents, allocates⟩ := called.allocates
  refine ⟨events, isEvents, fun frame holds => ?_⟩
  have notAllocated : events.count (.physAlloc frame) = 0 := by
    rw [List.count_eq_zero]
    intro member
    rcases allocates with nothing | ⟨other, later, unused, -, only⟩
    · exact nothing frame member
    · rw [← only frame member] at unused
      exact (accounted.holds_iff frame).mp holds unused
  have before := accounted.ledger.frames frame
  have later := after.ledger.frames frame
  rw [accounted.owned_of_holds holds] at before
  rw [isEvents, List.count_append, List.count_append] at later
  constructor
  · intro stillHeld
    rw [after.owned_of_holds stillHeld] at later
    omega
  · intro unheld
    rw [after.owned_of_not_holds unheld] at later
    omega

omit accounted

theorem boot (memory : UserMemory w) (bytes : Nat → PageBytes) :
    Accounted (VmSpaces.boot memory bytes : VmSpaces w Vnode) := by
  refine ⟨⟨?_, ?_, ?_, ?_⟩, .boot memory bytes, fun _ _ => rfl⟩
  · intro space below
    exact absurd below (Nat.not_lt_zero space)
  · intro space below
    exact absurd below (Nat.not_lt_zero space)
  · intro pointer region isRegion
    cases isRegion
  · intro pointer region isRegion
    cases isRegion

theorem create (accounted : Accounted spaces) :
    Accounted (spaces.vmSpaceCreate memory) := by
  refine ⟨?_, accounted.ledger.congr rfl (VmState.slot_congr rfl) fun _ => rfl,
    VmSpaces.Unborn.create accounted.unborn memory⟩
  refine (accounted.sound.counted.create memory).sound ?_ accounted.sound.within
  intro space below block member
  rw [spaces.area_vmSpaceCreate] at member
  split at member
  next isNew => cases member
  next isOld =>
    refine accounted.sound.unshared space ?_ block member
    exact Nat.lt_of_le_of_ne (Nat.le_of_lt_succ below) isOld

theorem record (accounted : Accounted spaces)
    {vm : VmState w Vnode} {events : List (VmEvent w Vnode)}
    (sound : SpacesSound vm spaces.created)
    (ledger : Ledger vm (spaces.events ++ events)) :
    Accounted (spaces.record vm events) :=
  ⟨sound, ledger, accounted.unborn⟩

theorem setRefs (accounted : Accounted spaces) {space : Nat}
    (below : space < spaces.created) (refs : Nat) :
    Accounted (spaces.setRefs space refs) :=
  ⟨accounted.sound, accounted.ledger,
    VmSpaces.Unborn.setRefs accounted.unborn below refs⟩

theorem destroy (accounted : Accounted spaces) {space : Nat}
    (below : space < spaces.created) :
    ∃ next, spaces.vmSpaceDestroy space = some next ∧ Accounted next := by
  have dropped := accounted.setRefs below (spaces.refs space - 1)
  unfold VmSpaces.vmSpaceDestroy
  dsimp only
  split
  · exact ⟨_, rfl, dropped⟩
  · obtain ⟨after, events, destroys, sound, ledger⟩ :=
      dropped.sound.smaAreaDestroy dropped.ledger below
    rw [destroys]
    exact ⟨_, rfl, dropped.record sound ledger⟩

theorem step (wide : 32 ≤ w) (accounted : Accounted spaces)
    (called : VmCallStep memory spaces call next) : Accounted next := by
  obtain ⟨promised, returns⟩ := called
  cases call with
  | create =>
    cases returns
    exact accounted.create
  | share space =>
    cases returns
    exact accounted.setRefs (accounted.below promised) _
  | mmap space call =>
    cases returns
    obtain ⟨sound, ledger⟩ := accounted.sound.mmap wide accounted.ledger
      (accounted.below promised.1) promised.2
    exact accounted.record sound ledger
  | fault space address rw read frame =>
    obtain ⟨⟨vm, result⟩, faults, rfl⟩ := Option.map_eq_some_iff.mp returns
    obtain ⟨sound, ledger⟩ := accounted.sound.fault wide accounted.ledger
      (accounted.below promised.1) promised.2 faults
    exact accounted.record sound ledger
  | clone dest src =>
    obtain ⟨⟨vm, result⟩, clones, rfl⟩ := Option.map_eq_some_iff.mp returns
    obtain ⟨destInUse, srcInUse, different⟩ := promised
    obtain ⟨after, outcome, loops, sound, ledger⟩ :=
      accounted.sound.cloneBlocks accounted.ledger
        (accounted.below srcInUse) (accounted.below destInUse) different
        (List.nil_append _).symm
    cases loops.symm.trans clones
    exact accounted.record sound ledger
  | destroy space =>
    obtain ⟨after, destroys, destroyed⟩ :=
      accounted.destroy (accounted.below promised)
    cases destroys.symm.trans returns
    exact destroyed

theorem defined (wide : 32 ≤ w)
    (accounted : Accounted spaces) (promised : call.Promised spaces)
    (inReach : call.InReach spaces) :
    ∃ next, call.run memory spaces = some next := by
  cases call with
  | create =>
    exact ⟨_, rfl⟩
  | share space =>
    exact ⟨_, rfl⟩
  | mmap space call =>
    exact ⟨_, rfl⟩
  | fault space address rw read frame =>
    obtain ⟨vm, result, faults⟩ := accounted.sound.fault_defined wide
      (accounted.below promised.1) inReach read frame
    exact ⟨_, congrArg (Option.map _) faults⟩
  | clone dest src =>
    obtain ⟨destInUse, srcInUse, different⟩ := promised
    obtain ⟨after, outcome, loops, -⟩ :=
      accounted.sound.cloneBlocks accounted.ledger
        (accounted.below srcInUse) (accounted.below destInUse) different
        (List.nil_append _).symm
    exact ⟨_, congrArg (Option.map _) loops⟩
  | destroy space =>
    obtain ⟨after, destroys, -⟩ := accounted.destroy (accounted.below promised)
    exact ⟨after, destroys⟩

theorem run (wide : 32 ≤ w)
    {bytes : Nat → PageBytes} {calls : List (VmCall w Vnode)}
    (ran : Run (VmCallStep memory) (VmSpaces.boot memory bytes) calls spaces) :
    Accounted spaces :=
  ran.invariant (fun _ spaces => Accounted spaces) (.boot memory bytes)
    fun accounted called => accounted.step wide called

end Accounted

/--
The counts are exact in every reachable state, and every call whose page fault
is in reach keeps them and frees each frame with its last slot.
-/
theorem counts_exact {memory : UserMemory w} (wide : 32 ≤ w)
    {bytes : Nat → PageBytes} {calls : List (VmCall w Vnode)}
    {spaces : VmSpaces w Vnode}
    (ran : Run (VmCallStep memory) (VmSpaces.boot memory bytes) calls spaces) :
    CountsExact spaces ∧
      ∀ call : VmCall w Vnode, call.Promised spaces → call.InReach spaces →
        ∃ next,
          call.run memory spaces = some next ∧ CountsExact next ∧
            FreesLast spaces next := by
  have accounted := Accounted.run wide ran
  refine ⟨accounted.countsExact, fun call promised inReach => ?_⟩
  obtain ⟨next, returns⟩ := accounted.defined wide promised inReach
  have called : VmCallStep memory spaces call next := ⟨promised, returns⟩
  have after := accounted.step wide called
  exact ⟨next, returns, after.countsExact, accounted.freesLast after called⟩

/-- The state after a call, or the same state where it is undefined. -/
def VmSpaces.after (memory : UserMemory w) (spaces : VmSpaces w Vnode)
    (call : VmCall w Vnode) : VmSpaces w Vnode :=
  (call.run memory spaces).getD spaces

/-- A page is written and cloned, and both spaces are destroyed. -/
def cloneAndDestroy : List (VmCall 32 Unit) :=
  [.create, .mmap 0 (mapFromStart 0x1000),
    .fault 0 0x00400000 true noFiles 1, .create, .clone 1 0,
    .fault 1 0x00400000 true noFiles 2, .destroy 0, .destroy 1]

/-- A clone is written, and both spaces give their frames back. -/
theorem cloneAndDestroy_counted :
    CountsExact
      (cloneAndDestroy.foldl (VmSpaces.after userMemory32)
        (.boot userMemory32 fun _ => zeroPage)) := by
  have ran :
      Run (VmCallStep userMemory32) (.boot userMemory32 fun _ => zeroPage)
        cloneAndDestroy
        (cloneAndDestroy.foldl (VmSpaces.after userMemory32)
          (.boot userMemory32 fun _ => zeroPage)) :=
    .extend (.extend (.extend (.extend (.extend (.extend (.extend (.extend
      .start
      ⟨trivial, rfl⟩)
      ⟨⟨Nat.one_pos, by decide⟩, rfl⟩)
      ⟨⟨Nat.one_pos, rfl⟩, rfl⟩)
      ⟨trivial, rfl⟩)
      ⟨⟨Nat.one_pos, Nat.one_pos, by decide⟩, rfl⟩)
      ⟨⟨Nat.one_pos, rfl⟩, rfl⟩)
      ⟨by exact Nat.one_pos, rfl⟩)
      ⟨by exact Nat.one_pos, rfl⟩
  exact (counts_exact (by decide) ran).1

/-- A page two gigabytes into a mapping has a negative index. -/
theorem far_fault_not_counted :
    ¬ ∀ (calls : List (VmCall 32 Unit)) (spaces : VmSpaces 32 Unit),
      Run (VmCallStep userMemory32) (.boot userMemory32 fun _ => zeroPage)
        calls spaces →
      CountsExact spaces ∧
        ∀ call : VmCall 32 Unit, call.Promised spaces →
          ∃ next,
            call.run userMemory32 spaces = some next ∧
              CountsExact next ∧ FreesLast spaces next := by
  intro always
  have ran : Run (VmCallStep userMemory32)
        (.boot userMemory32 fun _ => zeroPage : VmSpaces 32 Unit)
        [.create, .mmap 0 (mapFromStart 0x90000000)]
        ([.create, .mmap 0 (mapFromStart 0x90000000)].foldl
          (VmSpaces.after userMemory32)
          (.boot userMemory32 fun _ => zeroPage)) :=
    .extend (.extend .start ⟨trivial, rfl⟩) ⟨⟨Nat.one_pos, by decide⟩, rfl⟩
  obtain ⟨next, returns, -⟩ :=
    (always _ _ ran).2 (.fault 0 0x80400000 true noFiles 1) ⟨Nat.one_pos, rfl⟩
  cases returns

end Idylla.Mm
