import Idylla.Ext2.BitmapCalls
import Idylla.Kernel.Semaphore

namespace Idylla.Ext2

open Idylla.Lib
open Idylla.Kernel

/-!
# The locks of the groups

The calls of any number of threads to `block_alloc` and `inode_alloc`.  A step
runs up to the next access to `data->groups` or to a mutex; the work under the
lock of a group is one step.  An index outside of the arrays is undefined, so
that a call that has got one takes no further step.
-/

/-- Where a call to `block_alloc` or `inode_alloc` is. -/
inductive AllocPhase where
  | checking (group : Int)
  | comparing (best : BitVec 16) (i : Nat) (group : Int)
  | assigning (i : Nat)
  | testing (group : Int)
  | locking (group : Int)
  | inside (group : Int)
  | leaving (group : Int)
  deriving DecidableEq

/-- The index into the groups or their mutexes that the next step uses. -/
def AllocPhase.index (groupsCount : Nat) : AllocPhase → Option Int
  | .checking group => some group
  | .comparing _ i _ => if i < groupsCount then some i else none
  | .assigning i => some i
  | .testing group => some group
  | .locking group => some group
  | .inside group => some group
  | .leaving group => some group

/-- From the lock of a group to its unlock. -/
def AllocPhase.InGroup (phase : AllocPhase) (group : Nat) : Prop :=
  phase = .inside group ∨ phase = .leaving group

/-- A thread's call. -/
structure AllocThread where
  kind : BitmapKind
  phase : AllocPhase

/-- The threads that allocate, with what they share. -/
structure AllocSystem where
  data : Ext2Data
  groupsMutex : Nat → MutexSystem
  threads : Nat → Option AllocThread

/-- A new call of a thread, or its next step. -/
inductive AllocLabel where
  | call (thread : Nat) (kind : BitmapKind) (group : Int)
  | step (thread : Nat) (io : BitmapIo)

/-- The groups that a caller may ask for. -/
def BitmapKind.Accepts (kind : BitmapKind) (groupsCount : Nat)
    (group : Int) : Prop :=
  group < groupsCount ∧ (kind = .block → 0 ≤ group)

instance
    (kind : BitmapKind) (groupsCount : Nat)
    (group : Int) :
    Decidable (kind.Accepts groupsCount group) :=
  inferInstanceAs (Decidable (_ ∧ (_ → _)))

/-- Where a call begins. -/
def BitmapKind.begin (kind : BitmapKind) (group : Int) : AllocPhase :=
  match kind with
  | .block => .checking group
  | .inode => if group < 0 then .comparing 0 0 group else .locking group

namespace AllocSystem

/-- No thread has called. -/
def start (data : Ext2Data) : AllocSystem where
  data := data
  groupsMutex := fun _ => .init
  threads := fun _ => none

/-- A thread's call replaced. -/
def setThread (system : AllocSystem) (thread : Nat)
    (call : Option AllocThread) : AllocSystem :=
  { system with
    threads := fun other =>
      if other = thread then call else system.threads other }

/-- The mutex of a group replaced. -/
def setMutex (system : AllocSystem) (group : Nat)
    (mutex : MutexSystem) : AllocSystem :=
  { system with
    groupsMutex := fun other =>
      if other = group then mutex else system.groupsMutex other }

/-- The next step of a thread's call. -/
def next (system : AllocSystem) (thread : Nat) (kind : BitmapKind)
    (io : BitmapIo) : AllocPhase → Option AllocSystem
  | .checking group =>
    (system.data.groupIndex group).map fun index =>
      system.setThread thread
        (some
          { kind := kind
            phase :=
              if (system.data.groups index).free kind = 0 then
                .comparing 0 0 group
              else
                .testing group })
  | .comparing best i group =>
    some
      (system.setThread thread
        (some
          { kind := kind
            phase :=
              if i < system.data.groupsCount then
                if best < (system.data.groups i).free kind then
                  .assigning i
                else
                  .comparing best (i + 1) group
              else
                match kind with
                | .block => .testing group
                | .inode => .locking group }))
  | .assigning i =>
    some
      (system.setThread thread
        (some
          { kind := kind
            phase := .comparing ((system.data.groups i).free kind) (i + 1) i }))
  | .testing group =>
    (system.data.groupIndex group).map fun index =>
      system.setThread thread
        (some
          { kind := kind
            phase :=
              if (system.data.groups index).free kind = 0 then
                .leaving group
              else
                .locking group })
  | .locking group =>
    (system.data.groupIndex group).bind fun index =>
      if thread ∈ (system.groupsMutex index).mutex.wait then
        none
      else
        let mutex := (system.groupsMutex index).lock thread
        some
          ((system.setMutex index mutex).setThread thread
            (some
              { kind := kind
                phase := if mutex.locks thread then .locking group
                  else .inside group }))
  | .inside group =>
    (system.data.groupIndex group).map fun index =>
      let data :=
        if kind = .inode ∧ (system.data.groups index).free kind = 0 then
          system.data
        else
          (allocIn kind system.data index io).data
      { system with data := data }.setThread thread
        (some { kind := kind, phase := .leaving group })
  | .leaving group =>
    (system.data.groupIndex group).map fun index =>
      (system.setMutex index
        ((system.groupsMutex index).unlock thread)).setThread thread none

/-- One step of the system. -/
def step (system : AllocSystem) : AllocLabel → Option AllocSystem
  | .call thread kind group =>
    if system.threads thread = none ∧
        kind.Accepts system.data.groupsCount group then
      some
        (system.setThread thread
          (some { kind := kind, phase := kind.begin group }))
    else
      none
  | .step thread io =>
    (system.threads thread).bind fun call =>
      system.next thread call.kind io call.phase

end AllocSystem

/-- One step as a transition. -/
def AllocStep (system : AllocSystem) (label : AllocLabel)
    (after : AllocSystem) : Prop :=
  system.step label = some after

/-- Indices are in range, and locks are held by exactly those inside. -/
structure AllocSystem.LocksBalanced (system : AllocSystem) : Prop where
  indices : ∀ thread call index, system.threads thread = some call →
      call.phase.index system.data.groupsCount = some index →
      0 ≤ index ∧ index < system.data.groupsCount
  held : ∀ thread group,
      (system.groupsMutex group).holds thread = true ↔
        ∃ call, system.threads thread = some call ∧ call.phase.InGroup group
  alone : ∀ thread other group call another, system.threads thread = some call →
      system.threads other = some another →
      call.phase.InGroup group →
      another.phase.InGroup group →
      thread = other

/--
The last test of a `block_alloc` finds a free block in its group, and the search
of an `inode_alloc` has found a group.
-/
def FindsGroup (system : AllocSystem) : AllocLabel → Prop
  | .call _ _ _ => True
  | .step thread _ =>
    ∀ call, system.threads thread = some call → match call.phase with
      | .testing group =>
        (system.data.groups group.toNat).free call.kind ≠ 0
      | .comparing _ i group => system.data.groupsCount ≤ i → 0 ≤ group
      | _ => True

/-- The groups of a call at each point. -/
def AllocPhase.Valid (kind : BitmapKind) (groupsCount : Nat) : AllocPhase → Prop
  | .checking group => 0 ≤ group ∧ group < groupsCount
  | .comparing _ _ group => kind.Accepts groupsCount group
  | .assigning i => i < groupsCount
  | .testing group => 0 ≤ group ∧ group < groupsCount
  | .locking group => 0 ≤ group ∧ group < groupsCount
  | .inside group => 0 ≤ group ∧ group < groupsCount
  | .leaving group => 0 ≤ group ∧ group < groupsCount

/-- What the steps keep. -/
structure LocksSound (system : AllocSystem) : Prop where
  mutexes : ∀ group, MutexSound (system.groupsMutex group)
  phases : ∀ thread call, system.threads thread = some call →
      call.phase.Valid call.kind system.data.groupsCount
  held : ∀ thread group,
      (system.groupsMutex group).holds thread = true ↔
        ∃ call, system.threads thread = some call ∧ call.phase.InGroup group
  waits : ∀ thread group, (system.groupsMutex group).locks thread = true →
      ∃ call, system.threads thread = some call ∧ call.phase = .locking group

theorem allocIn_groupsCount (kind : BitmapKind) (data : Ext2Data) (group : Nat)
    (io : BitmapIo) :
    (allocIn kind data group io).data.groupsCount = data.groupsCount := by
  unfold allocIn
  split
  · rfl
  · split
    · rfl
    · unfold bitmapWrite
      split
      · rfl
      · split <;> rfl

theorem begin_valid {kind : BitmapKind} {groupsCount : Nat} {group : Int}
    (accepts : kind.Accepts groupsCount group) :
    (kind.begin group).Valid kind groupsCount ∧
      ∀ index, ¬ (kind.begin group).InGroup index := by
  cases kind with
  | block =>
    exact ⟨⟨accepts.2 rfl, accepts.1⟩, fun index => by
      rintro (isPhase | isPhase) <;> cases isPhase⟩
  | inode =>
    unfold BitmapKind.begin
    dsimp only
    split
    next isNegative =>
      exact ⟨accepts, fun index => by
        rintro (isPhase | isPhase) <;> cases isPhase⟩
    next notNegative =>
      exact ⟨⟨Int.not_lt.mp notNegative, accepts.1⟩, fun index => by
        rintro (isPhase | isPhase) <;> cases isPhase⟩

namespace LocksSound

variable {system : AllocSystem} {thread : Nat} {kind : BitmapKind}

theorem start (data : Ext2Data) : LocksSound (.start data) where
  mutexes := fun _ => .init
  phases := fun _ _ isCall => by
    cases isCall
  held := fun thread group => by
    refine ⟨fun holds => ?_, fun ⟨call, isCall, _⟩ => ?_⟩
    · cases holds
    · cases isCall
  waits := fun _ _ waits => by
    cases waits

/-- A thread moves on, and so may one mutex, where nobody else moves. -/
theorem change (sound : LocksSound system)
    {group : Nat} {mutex : MutexSystem} {call : Option AllocThread}
    (isSound : MutexSound mutex)
    (others :
      ∀ other, other ≠ thread →
        mutex.holds other = (system.groupsMutex group).holds other ∧
          mutex.locks other = (system.groupsMutex group).locks other)
    (valid :
      ∀ now, call = some now → now.phase.Valid now.kind system.data.groupsCount)
    (held :
      ∀ index,
        ((system.setMutex group mutex).groupsMutex index).holds thread = true ↔
          ∃ now, call = some now ∧ now.phase.InGroup index)
    (waits :
      ∀ index,
        ((system.setMutex group mutex).groupsMutex index).locks thread = true →
          ∃ now, call = some now ∧ now.phase = .locking index) :
    LocksSound ((system.setMutex group mutex).setThread thread call) := by
  have threads (other : Nat) :
      ((system.setMutex group mutex).setThread thread call).threads other =
        if other = thread then call else system.threads other :=
    rfl
  have mutexes (index : Nat) :
      ((system.setMutex group mutex).setThread thread call).groupsMutex index =
        if index = group then mutex else system.groupsMutex index :=
    rfl
  refine ⟨fun index => ?_, fun other now isOther => ?_,
    fun other index => ?_, fun other index isLocking => ?_⟩
  · rw [mutexes]
    split
    · exact isSound
    · exact sound.mutexes index
  · rw [threads] at isOther
    split at isOther
    · exact valid now isOther
    · exact sound.phases other now isOther
  · by_cases sameThread : other = thread
    · rw [threads, if_pos sameThread, sameThread]
      exact held index
    · rw [threads, if_neg sameThread, mutexes, ← sound.held other index]
      split
      next sameGroup => rw [(others other sameThread).1, sameGroup]
      · rfl
  · by_cases sameThread : other = thread
    · rw [threads, if_pos sameThread]
      exact waits index (sameThread ▸ isLocking)
    · rw [threads, if_neg sameThread]
      refine sound.waits other index ?_
      rw [mutexes] at isLocking
      split at isLocking
      next sameGroup =>
        rwa [(others other sameThread).2, ← sameGroup] at isLocking
      · exact isLocking

variable (sound : LocksSound system)

include sound

theorem setThread {call : Option AllocThread}
    (valid :
      ∀ now, call = some now → now.phase.Valid now.kind system.data.groupsCount)
    (held :
      ∀ index,
        (system.groupsMutex index).holds thread = true ↔
          ∃ now, call = some now ∧ now.phase.InGroup index)
    (waits :
      ∀ index,
        (system.groupsMutex index).locks thread = true →
          ∃ now, call = some now ∧ now.phase = .locking index) :
    LocksSound (system.setThread thread call) := by
  have unchanged : system.setMutex 0 (system.groupsMutex 0) = system := by
    unfold AllocSystem.setMutex
    congr 1
    funext index
    split
    next same => rw [same]
    · rfl
  have moved :=
    @change system thread sound 0 (system.groupsMutex 0) call
      (sound.mutexes 0) (fun _ _ => ⟨rfl, rfl⟩) valid
  rw [unchanged] at moved
  exact moved held waits

variable {call : AllocThread}

theorem not_waiting (isCall : system.threads thread = some call) {index : Nat}
    (notLocking : call.phase ≠ .locking index) :
    (system.groupsMutex index).locks thread ≠ true := by
  intro waits
  obtain ⟨now, alsoCall, isLocking⟩ := sound.waits thread index waits
  rw [isCall] at alsoCall
  obtain rfl := Option.some.inj alsoCall
  exact notLocking isLocking

theorem holds_iff (isCall : system.threads thread = some call) (index : Nat) :
    (system.groupsMutex index).holds thread = true ↔
      call.phase.InGroup index := by
  rw [sound.held thread index, isCall]
  simp

theorem move
    (outside :
      ∀ call group, system.threads thread = some call →
        ¬ call.phase.InGroup group ∧ call.phase ≠ .locking group)
    (valid : call.phase.Valid call.kind system.data.groupsCount)
    (stays : ∀ group, ¬ call.phase.InGroup group) :
    LocksSound (system.setThread thread (some call)) := by
  refine sound.setThread (fun now isNow => ?_) (fun index => ?_)
    fun index waits => ?_
  · obtain rfl := Option.some.inj isNow
    exact valid
  · rw [sound.held thread index]
    constructor
    · rintro ⟨before, isBefore, inGroup⟩
      exact absurd inGroup (outside before index isBefore).1
    · rintro ⟨now, isNow, inGroup⟩
      obtain rfl := Option.some.inj isNow
      exact absurd inGroup (stays index)
  · obtain ⟨before, isBefore, isLocking⟩ := sound.waits thread index waits
    exact absurd isLocking (outside before index isBefore).2

/-- A section of `mutex_lock`. -/
theorem lock {group : Nat}
    (isCall :
      system.threads thread = some { kind := kind, phase := .locking group })
    (inside : group < system.data.groupsCount)
    (awake : thread ∉ (system.groupsMutex group).mutex.wait) :
    LocksSound
      ((system.setMutex group
          ((system.groupsMutex group).lock thread)).setThread thread
        (some
          { kind := kind
            phase :=
              if ((system.groupsMutex group).lock thread).locks thread then
                .locking group
              else
                .inside group })) := by
  have notHeld (index : Nat) :
      (system.groupsMutex index).holds thread = false := by
    rw [← Bool.not_eq_true, sound.holds_iff isCall]
    rintro (isPhase | isPhase) <;> cases isPhase
  have selfHolds : ((system.groupsMutex group).lock thread).holds thread =
        !((system.groupsMutex group).lock thread).locks thread := by
    unfold MutexSystem.lock
    dsimp only
    rw [if_pos rfl, if_pos rfl, notHeld, Bool.or_false, Bool.not_not]
  refine sound.change ((sound.mutexes group).lock awake)
    (fun other differs => ⟨if_neg differs, if_neg differs⟩)
    (fun now isNow => ?_) (fun index => ?_) fun index waits => ?_
  · obtain rfl := Option.some.inj isNow
    have inRange :
        (0 : Int) ≤ group ∧ (group : Int) < system.data.groupsCount := by
      omega
    dsimp only
    split <;> exact inRange
  · unfold AllocSystem.setMutex
    dsimp only
    by_cases sameGroup : index = group
    · subst sameGroup
      rw [if_pos rfl, selfHolds]
      cases isLocked :
          ((system.groupsMutex index).lock thread).locks thread with
      | true | false =>
        simp [AllocPhase.InGroup]
    · rw [if_neg sameGroup, notHeld]
      refine ⟨fun holds => absurd holds Bool.false_ne_true, ?_⟩
      rintro ⟨now, isNow, inGroup⟩
      obtain rfl := Option.some.inj isNow
      unfold AllocPhase.InGroup at inGroup
      split at inGroup
      · simp at inGroup
      · simp only [AllocPhase.inside.injEq, reduceCtorEq, or_false] at inGroup
        omega
  · unfold AllocSystem.setMutex at waits
    dsimp only at waits
    split at waits
    next sameGroup =>
      rw [if_pos waits, sameGroup]
      exact ⟨_, rfl, rfl⟩
    next different =>
      refine absurd waits (sound.not_waiting isCall fun isLocking => ?_)
      cases isLocking
      exact different rfl

theorem work {group : Int}
    (isCall :
      system.threads thread = some { kind := kind, phase := .inside group })
    {data : Ext2Data} (same : data.groupsCount = system.data.groupsCount) :
    LocksSound
      ({ system with data := data }.setThread thread
        (some { kind := kind, phase := .leaving group })) := by
  have worked : LocksSound { system with data := data } :=
    ⟨sound.mutexes, same ▸ sound.phases, sound.held, sound.waits⟩
  refine worked.setThread (fun now isNow => ?_) (fun index => ?_)
    fun index waits => ?_
  · obtain rfl := Option.some.inj isNow
    have inRange := worked.phases thread _ isCall
    exact inRange
  · rw [worked.holds_iff isCall]
    simp [AllocPhase.InGroup]
  · exact absurd waits
      (worked.not_waiting isCall fun isLocking => by cases isLocking)

omit sound

theorem unlock (sound : LocksSound system) {group : Nat}
    (isCall :
      system.threads thread = some { kind := kind, phase := .leaving group }) :
    LocksSound
      ((system.setMutex group
        ((system.groupsMutex group).unlock thread)).setThread thread none) := by
  have holds : (system.groupsMutex group).holds thread = true :=
    (sound.holds_iff isCall group).mpr (.inr rfl)
  refine sound.change ((sound.mutexes group).unlock holds)
    (fun other differs => ⟨if_neg differs, rfl⟩)
    (fun now isNow => by cases isNow) (fun index => ?_)
    fun index waits => ?_
  · refine ⟨fun stillHolds => ?_, fun ⟨now, isNow, _⟩ => by cases isNow⟩
    unfold AllocSystem.setMutex at stillHolds
    dsimp only at stillHolds
    split at stillHolds
    · unfold MutexSystem.unlock at stillHolds
      simp at stillHolds
    next different =>
      rcases (sound.holds_iff isCall index).mp stillHolds with
        isPhase | isPhase
      · cases isPhase
      · cases isPhase
        exact absurd rfl different
  · have waitsBefore : (system.groupsMutex index).locks thread = true := by
      unfold AllocSystem.setMutex at waits
      dsimp only at waits
      split at waits
      next sameGroup =>
        rw [sameGroup]
        exact waits
      · exact waits
    exact absurd waitsBefore
      (sound.not_waiting isCall fun isLocking => by cases isLocking)

theorem balanced (sound : LocksSound system) : system.LocksBalanced := by
  refine ⟨fun thread call index isCall isIndex => ?_, sound.held, ?_⟩
  · have valid := sound.phases thread call isCall
    unfold AllocPhase.index at isIndex
    unfold AllocPhase.Valid at valid
    cases isPhase : call.phase with
    | comparing best i group =>
      simp only [isPhase] at isIndex
      split at isIndex
      · cases isIndex
        omega
      · cases isIndex
    | assigning i =>
      simp only [isPhase] at isIndex valid
      cases isIndex
      omega
    | _ =>
      simp only [isPhase] at isIndex valid
      cases isIndex
      exact valid
  · intro thread other group call another isCall isAnother inGroup alsoInGroup
    exact (sound.mutexes group).excludes.atMostOne thread other
      ((sound.held thread group).mpr ⟨call, isCall, inGroup⟩)
      ((sound.held other group).mpr ⟨another, isAnother, alsoInGroup⟩)

theorem next (sound : LocksSound system)
    {phase : AllocPhase} {io : BitmapIo} {after : AllocSystem}
    (isCall : system.threads thread = some { kind := kind, phase := phase })
    (finds : FindsGroup system (.step thread io))
    (stepped : system.next thread kind io phase = some after) :
    LocksSound after := by
  have valid := sound.phases thread _ isCall
  have finds := finds _ isCall
  have outside
      (outsideNow : ∀ group, ¬ phase.InGroup group ∧ phase ≠ .locking group)
      (call : AllocThread)
      (group : Nat)
      (alsoCall : system.threads thread = some call) :
      ¬ call.phase.InGroup group ∧ call.phase ≠ .locking group := by
    rw [isCall] at alsoCall
    obtain rfl := Option.some.inj alsoCall
    exact outsideNow group
  cases phase with
  | checking group =>
    obtain ⟨index, isIndex, rfl⟩ := Option.map_eq_some_iff.mp stepped
    refine sound.move (outside fun _ => by simp [AllocPhase.InGroup]) ?_
      fun _ => ?_
    · split
      · exact ⟨valid.2, fun _ => valid.1⟩
      · exact valid
    · split <;> simp [AllocPhase.InGroup]
  | comparing best i group =>
    obtain rfl := Option.some.inj stepped
    refine sound.move (outside fun _ => by simp [AllocPhase.InGroup]) ?_
      fun _ => ?_
    · split
      next below =>
        split
        · exact below
        · exact valid
      next above =>
        have found := finds (Nat.not_lt.mp above)
        cases kind <;> exact ⟨found, valid.1⟩
    · split
      · split <;> simp [AllocPhase.InGroup]
      · cases kind <;> simp [AllocPhase.InGroup]
  | assigning i =>
    obtain rfl := Option.some.inj stepped
    have below : i < system.data.groupsCount := valid
    refine sound.move (outside fun _ => by simp [AllocPhase.InGroup]) ?_
      fun _ => by simp [AllocPhase.InGroup]
    exact ⟨by omega, fun _ => Int.natCast_nonneg i⟩
  | testing group =>
    obtain ⟨index, isIndex, rfl⟩ := Option.map_eq_some_iff.mp stepped
    obtain ⟨rfl, inside⟩ := groupIndex_some.mp isIndex
    have some : (system.data.groups index).free kind ≠ 0 := finds
    rw [if_neg some]
    exact sound.move (outside fun _ => by simp [AllocPhase.InGroup]) valid
      fun _ => by simp [AllocPhase.InGroup]
  | locking group =>
    obtain ⟨index, isIndex, rest⟩ := Option.bind_eq_some_iff.mp stepped
    obtain ⟨rfl, inside⟩ := groupIndex_some.mp isIndex
    split at rest
    · cases rest
    next awake =>
      obtain rfl := Option.some.inj rest
      exact sound.lock isCall inside awake
  | inside group =>
    obtain ⟨index, isIndex, rfl⟩ := Option.map_eq_some_iff.mp stepped
    refine sound.work isCall ?_
    split
    · rfl
    · exact allocIn_groupsCount kind system.data index io
  | leaving group =>
    obtain ⟨index, isIndex, rfl⟩ := Option.map_eq_some_iff.mp stepped
    obtain ⟨rfl, inside⟩ := groupIndex_some.mp isIndex
    exact sound.unlock isCall

theorem step (sound : LocksSound system)
    {label : AllocLabel} {after : AllocSystem} (finds : FindsGroup system label)
    (stepped : AllocStep system label after) : LocksSound after := by
  unfold AllocStep AllocSystem.step at stepped
  cases label with
  | call thread kind group =>
    dsimp only at stepped
    split at stepped
    next called =>
      obtain rfl := Option.some.inj stepped
      obtain ⟨valid, stays⟩ := begin_valid called.2
      refine sound.move (fun call index isCall => ?_) valid stays
      rw [called.1] at isCall
      cases isCall
    · cases stepped
  | step thread io =>
    obtain ⟨⟨kind, phase⟩, isCall, rest⟩ := Option.bind_eq_some_iff.mp stepped
    exact sound.next isCall finds rest

theorem finds_of_balanced (sound : LocksSound system)
    {label : AllocLabel} {after : AllocSystem}
    (stepped : AllocStep system label after) (balanced : after.LocksBalanced) :
    FindsGroup system label := by
  cases label with
  | call thread kind group =>
    trivial
  | step thread io =>
    rintro ⟨kind, phase⟩ isCall
    unfold AllocStep AllocSystem.step at stepped
    dsimp only at stepped
    rw [isCall, Option.bind_some] at stepped
    have valid := sound.phases thread _ isCall
    cases phase with
    | testing group =>
      obtain ⟨index, isIndex, rfl⟩ := Option.map_eq_some_iff.mp stepped
      obtain ⟨rfl, inside⟩ := groupIndex_some.mp isIndex
      intro full
      have full : (system.data.groups index).free kind = 0 := full
      rw [if_pos full] at balanced
      -- the call unlocks what it has not locked
      have holds : (system.groupsMutex index).holds thread = true :=
        (balanced.held thread index).mpr ⟨_, if_pos rfl, .inr rfl⟩
      obtain ⟨call, alsoCall, inGroup⟩ := (sound.held thread index).mp holds
      rw [isCall] at alsoCall
      obtain rfl := Option.some.inj alsoCall
      rcases inGroup with isPhase | isPhase <;> cases isPhase
    | comparing best i group =>
      intro searched
      obtain rfl := Option.some.inj stepped
      rw [if_neg (Nat.not_lt.mpr searched)] at balanced
      cases kind with
      | block =>
        exact valid.2 rfl
      | inode =>
        exact (balanced.indices thread _ group (if_pos rfl) rfl).1
    | checking group =>
      trivial
    | assigning i =>
      trivial
    | locking group =>
      trivial
    | inside group =>
      trivial
    | leaving group =>
      trivial

end LocksSound

/--
In every interleaving in which no last test finds a group without free blocks
and no search is without a result, all indices are in range, each call unlocks
the group it has locked, and no two are in a group at once; any other step ends
that.
-/
theorem groupLocks_balanced
    {data : Ext2Data} {labels : List AllocLabel} {system : AllocSystem}
    (ran : Run (Guarded FindsGroup AllocStep) (.start data) labels system) :
    system.LocksBalanced ∧
      ∀ label after, AllocStep system label after →
        (after.LocksBalanced ↔ FindsGroup system label) := by
  have sound :=
    ran.invariant (fun _ system => LocksSound system) (.start data)
      fun sound stepped => sound.step stepped.1 stepped.2
  exact ⟨sound.balanced, fun label after stepped =>
    ⟨sound.finds_of_balanced stepped, fun finds =>
      (sound.step finds stepped).balanced⟩⟩

/-- A group without free blocks and with free inodes. -/
def fullBlocks : Ext2Data where
  sb :=
    { sFirstDataBlock := 1
      sBlocksPerGroup := 8
      sInodesPerGroup := 8
      sFreeBlocksCount := 0
      sFreeInodesCount := 8 }
  groupsCount := 1
  blkSize := 1024
  groups := fun _ =>
    { bgBlockBitmap := 3
      bgInodeBitmap := 4
      bgFreeBlocksCount := 0
      bgFreeInodesCount := 8 }
  disk := fun _ _ => 0

/-- A thread is in the group and another one waits for it. -/
theorem waitingInode_balanced :
    ∃ system : AllocSystem,
      (system.groupsMutex 0).holds 0 = true ∧
        (system.groupsMutex 0).Asleep 1 ∧ system.LocksBalanced := by
  have called (system : AllocSystem) (thread : Nat)
      (idle : system.threads thread = none)
      (one : system.data.groupsCount = 1) :
      Guarded FindsGroup AllocStep system (.call thread .inode 0)
        (system.setThread thread (some ⟨.inode, .locking 0⟩)) := by
    refine ⟨trivial, if_pos ⟨idle, ?_⟩⟩
    rw [one]
    decide
  have locked (system : AllocSystem) (thread : Nat)
      (runs : thread ∉ (system.groupsMutex 0).mutex.wait)
      (one : system.data.groupsCount = 1)
      (isCall : system.threads thread = some ⟨.inode, .locking 0⟩) :
      Guarded FindsGroup AllocStep system (.step thread ⟨true, true⟩)
        ((system.setMutex 0
            ((system.groupsMutex 0).lock thread)).setThread thread
          (some
            { kind := .inode
              phase :=
                if ((system.groupsMutex 0).lock thread).locks thread then
                  .locking 0
                else
                  .inside 0 })) := by
    refine ⟨fun call alsoCall => ?_, ?_⟩
    · rw [isCall] at alsoCall
      obtain rfl := Option.some.inj alsoCall
      trivial
    · unfold AllocStep AllocSystem.step
      dsimp only
      rw [isCall, Option.bind_some]
      unfold AllocSystem.next
      have first : system.data.groupIndex 0 = some 0 :=
        groupIndex_some.mpr ⟨rfl, by omega⟩
      dsimp only
      rw [first, Option.bind_some, if_neg runs]
  have ran :=
    (((Run.single (called (.start fullBlocks) 0 rfl rfl)).append
      (.single (locked _ 0 (by decide) rfl rfl))).append
      (.single (called _ 1 rfl rfl))).append
      (.single (locked _ 1 (by decide) rfl rfl))
  exact ⟨_, rfl, List.mem_cons_self, (groupLocks_balanced ran).1⟩

/-- A failed `block_alloc` lets a second thread into the group. -/
theorem fullBlocks_not_balanced :
    ¬ ∀ (data : Ext2Data) (labels : List AllocLabel) (system : AllocSystem),
        Run AllocStep (.start data) labels system → system.LocksBalanced := by
  intro balanced
  have reaches : ∃ system : AllocSystem,
        follow AllocSystem.step
          ([.call 0 .inode 0, .step 0 ⟨true, true⟩, .call 1 .block 0] ++
            List.replicate 5 (.step 1 ⟨true, true⟩) ++
            [.call 2 .inode 0, .step 2 ⟨true, true⟩])
          (.start fullBlocks) = some system ∧
        (∃ call, system.threads 0 = some call ∧ call.phase = .inside 0) ∧
        ∃ call, system.threads 2 = some call ∧ call.phase = .inside 0 :=
    ⟨_, rfl, ⟨_, rfl, rfl⟩, _, rfl, rfl⟩
  obtain ⟨system, ran, ⟨first, isFirst, inside⟩, second, isSecond, also⟩ :=
    reaches
  have alone :=
    (balanced _ _ _ (Run.of_follow (fun _ _ _ stepped => stepped) ran)).alone
      0 2 0 first second isFirst isSecond (.inl inside) (.inl also)
  cases alone

end Idylla.Ext2
