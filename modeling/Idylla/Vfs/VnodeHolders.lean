import Mathlib.Algebra.Group.Int.Defs
import Idylla.Vfs.VnodeSystem

namespace Idylla.Vfs

open Idylla.Lib

/-!
# The holders of a vnode

In every state the count of a vnode is the number of its references, and a
vnode that is not in the list is with one process: with the one that makes it,
which has the only reference, or with the one that frees it, to which nobody
else has one.
-/

/-- The references that a process holds through its open files. -/
def VnodeSystem.fileRefs (system : VnodeSystem) (process vnode : Nat) : Nat :=
  total (fun fd => if system.filedes process fd = some vnode then 1 else 0)
    OPEN_MAX

/-- The references that a process holds. -/
def VnodeSystem.owned (system : VnodeSystem) (vnode process : Nat) : Nat :=
  (system.phases process).held.count vnode + system.fileRefs process vnode

/-- The references to a vnode. -/
def VnodeSystem.refs
    (use : MountUse) (system : VnodeSystem) (vnode : Nat) : Nat :=
  use.pinned vnode + total (system.owned vnode) use.processes

/-- What the steps keep. -/
structure VnodeSound (use : MountUse) (system : VnodeSystem) : Prop where
  counts : ∀ vnode cell, system.vnodes.cells vnode = some cell →
      cell.refcount = system.refs use vnode
  referenced : ∀ vnode, 0 < system.refs use vnode →
      ∃ cell, system.vnodes.cells vnode = some cell ∧ cell.locked = false
  placed : ∀ vnode cell, system.vnodes.cells vnode = some cell →
      cell.locked = false →
      vnode ∈ system.vnodeList ∨ ∃ process, (system.phases process).Opens vnode
  listed : ∀ vnode ∈ system.vnodeList,
      ∃ cell, system.vnodes.cells vnode = some cell ∧ cell.locked = false
  nodup : system.vnodeList.Nodup
  opens : ∀ process vnode, (system.phases process).Opens vnode →
      vnode ∉ system.vnodeList ∧ system.refs use vnode = 1
  frees : ∀ process vnode, (system.phases process).Frees vnode →
      vnode ∉ system.vnodeList ∧ system.refs use vnode = 0 ∧
        ∃ cell, system.vnodes.cells vnode = some cell ∧ cell.locked = true
  freesOnce : ∀ process other vnode, (system.phases process).Frees vnode →
      (system.phases other).Frees vnode → process = other
  active :
    ∀ process, use.processes ≤ process → system.phases process = .point .idle

/-- No call is under way. -/
structure Quiescent (use : MountUse) (system : VnodeSystem) : Prop where
  idle : ∀ process, system.phases process = .point .idle
  counts : ∀ vnode cell, system.vnodes.cells vnode = some cell →
      cell.refcount = system.refs use vnode
  unlocked :
    ∀ vnode cell, system.vnodes.cells vnode = some cell → cell.locked = false
  referenced : ∀ vnode, 0 < system.refs use vnode → system.Live vnode
  cached : ∀ vnode, vnode ∈ system.vnodeList ↔ system.Live vnode
  nodup : system.vnodeList.Nodup

theorem Quiescent.sound {use : MountUse} {system : VnodeSystem}
    (quiescent : Quiescent use system) :
    VnodeSound use system where
  counts := quiescent.counts
  referenced := by
    intro vnode positive
    obtain ⟨cell, isCell⟩ := quiescent.referenced vnode positive
    exact ⟨cell, isCell, quiescent.unlocked vnode cell isCell⟩
  placed := fun vnode cell isCell _ =>
    .inl ((quiescent.cached vnode).mpr ⟨cell, isCell⟩)
  listed := by
    intro vnode inList
    obtain ⟨cell, isCell⟩ := (quiescent.cached vnode).mp inList
    exact ⟨cell, isCell, quiescent.unlocked vnode cell isCell⟩
  nodup := quiescent.nodup
  opens := by
    intro process vnode opens
    rw [quiescent.idle process] at opens
    exact absurd opens id
  frees := by
    intro process vnode frees
    rw [quiescent.idle process] at frees
    exact absurd frees id
  freesOnce := by
    intro process other vnode frees
    rw [quiescent.idle process] at frees
    exact absurd frees id
  active := fun process _ => quiescent.idle process

/-- Two processes at the root of a mountpoint. -/
def twoProcesses : MountUse where
  mp := 0
  processes := 2
  vnodeRoot := fun _ => 0
  vnodeCurrent := fun _ => 0
  pinned := fun vnode => if vnode = 0 then 5 else 0
  root_pinned := fun _ => Nat.zero_lt_succ 4
  current_pinned := fun _ => Nat.zero_lt_succ 4

/-- The mountpoint with only its root in the list. -/
def onlyRoot : VnodeSystem where
  vnodes := Heap.empty.alloc
    { vnode := { mp := 0, ino := 2 }
      nlink := 3
      refcount := 5
      locked := false
      vfsmountedhere := none }
  vnodeList := [0]
  phases := fun _ => .point .idle
  filedes := fun _ _ => none

theorem onlyRoot_cells {vnode : Nat} {cell : VnodeCell}
    (isCell : onlyRoot.vnodes.cells vnode = some cell) :
    vnode = 0 ∧ cell.refcount = 5 ∧ cell.locked = false := by
  rcases Heap.cells_alloc_some isCell with ⟨isRoot, rfl⟩ | isEmpty
  · exact ⟨isRoot, rfl, rfl⟩
  · cases isEmpty

theorem onlyRoot_refs (vnode : Nat) :
    onlyRoot.refs twoProcesses vnode = if vnode = 0 then 5 else 0 := by
  unfold VnodeSystem.refs
  rw [total_eq_zero fun process _ => ?_]
  · rfl
  · have noFiles : onlyRoot.fileRefs process vnode = 0 :=
      total_eq_zero fun fd _ => rfl
    exact (Nat.zero_add _).trans noFiles

theorem onlyRoot_quiescent : Quiescent twoProcesses onlyRoot where
  idle := fun _ => rfl
  counts := by
    intro vnode cell isCell
    obtain ⟨isRoot, isFive, -⟩ := onlyRoot_cells isCell
    rw [isFive, onlyRoot_refs, if_pos isRoot]
    rfl
  unlocked := fun vnode cell isCell => (onlyRoot_cells isCell).2.2
  referenced := by
    intro vnode positive
    rw [onlyRoot_refs] at positive
    by_cases isRoot : vnode = 0
    · rw [isRoot]
      decide
    · rw [if_neg isRoot] at positive
      exact absurd positive (Nat.lt_irrefl 0)
  cached := by
    intro vnode
    constructor
    · intro inList
      rw [List.mem_singleton.mp inList]
      decide
    · rintro ⟨cell, isCell⟩
      exact List.mem_singleton.mpr (onlyRoot_cells isCell).1
  nodup := by simp [onlyRoot]

section Counting

variable {use : MountUse} {system after : VnodeSystem} {process vnode : Nat}

theorem owned_le_refs (isProcess : process < use.processes) :
    use.pinned vnode + system.owned vnode process ≤ system.refs use vnode :=
  Nat.add_le_add_left (le_total isProcess) _

theorem owned_add_le_refs {other : Nat} (isProcess : process < use.processes)
    (isOther : other < use.processes) (differ : process ≠ other) :
    use.pinned vnode + (system.owned vnode process + system.owned vnode other) ≤
      system.refs use vnode :=
  Nat.add_le_add_left (add_le_total isProcess isOther differ) _

theorem refs_change (isProcess : process < use.processes)
    (others :
      ∀ other, other ≠ process →
        after.owned vnode other = system.owned vnode other) :
    after.refs use vnode + system.owned vnode process =
      system.refs use vnode + after.owned vnode process := by
  have change := @total_change (system.owned vnode) (after.owned vnode)
    use.processes process isProcess others
  unfold VnodeSystem.refs
  omega

theorem owned_pos_of_held (isHeld : vnode ∈ (system.phases process).held) :
    0 < system.owned vnode process :=
  Nat.lt_of_lt_of_le (List.count_pos_iff.mpr isHeld) (Nat.le_add_right _ _)

end Counting

theorem held_of_opens {phase : VnodePhase} {vnode : Nat}
    (opens : phase.Opens vnode) : vnode ∈ phase.held := by
  cases phase with
  | opened call directory newVnode =>
    rw [show newVnode = vnode from opens]
    exact List.mem_cons_self
  | _ => exact absurd opens id

namespace VnodeSound

variable {use : MountUse} {system : VnodeSystem} {process other vnode : Nat}

theorem isProcess (sound : VnodeSound use system)
    (busy : system.phases process ≠ .point .idle) : process < use.processes :=
  Nat.lt_of_not_le fun beyond => busy (sound.active process beyond)

theorem only_opener (sound : VnodeSound use system)
    (opens : (system.phases process).Opens vnode) :
    use.pinned vnode = 0 ∧
      ∀ other, other < use.processes → other ≠ process →
        system.owned vnode other = 0 := by
  have isProcess : process < use.processes := by
    refine sound.isProcess fun isIdle => ?_
    rw [isIdle] at opens
    exact opens
  have holds : 0 < system.owned vnode process :=
    owned_pos_of_held (held_of_opens opens)
  have one := (sound.opens process vnode opens).2
  constructor
  · have atMost := @owned_le_refs use system process vnode isProcess
    omega
  · intro other isOther differs
    have atMost := @owned_add_le_refs use system process vnode other
      isProcess isOther (Ne.symm differs)
    omega

theorem none_of_frees (sound : VnodeSound use system)
    (frees : (system.phases process).Frees vnode) :
    use.pinned vnode = 0 ∧
      ∀ other, other < use.processes → system.owned vnode other = 0 := by
  have zero := (sound.frees process vnode frees).2.1
  constructor
  · unfold VnodeSystem.refs at zero
    omega
  · intro other isOther
    have atMost := @owned_le_refs use system other vnode isOther
    omega

end VnodeSound

/--
A step of a process that leaves the list alone, changes the counts by what the
process gets or gives up, and makes and frees no vnode.
-/
structure QuietStep
    (use : MountUse) (system : VnodeSystem) (process : Nat)
    (change : Nat → Int)
    (after : VnodeSystem) : Prop where
  isProcess : process < use.processes
  phases : ∀ other, other ≠ process → after.phases other = system.phases other
  filedes :
    ∀ other, other ≠ process → after.filedes other = system.filedes other
  list : after.vnodeList = system.vnodeList
  cells : ∀ vnode, ∃ edit : VnodeCell → VnodeCell,
      after.vnodes.cells vnode = (system.vnodes.cells vnode).map edit ∧
        ∀ cell,
          (edit cell).refcount = cell.refcount + change vnode ∧
            (edit cell).locked = cell.locked ∧
            (edit cell).vnode = cell.vnode
  owned : ∀ vnode,
      (after.owned vnode process : Int) =
        system.owned vnode process + change vnode
  counted : ∀ vnode, change vnode ≠ 0 →
      vnode ∈ system.vnodeList ∨ 0 < use.pinned vnode ∨
        0 < system.owned vnode process
  notOpens : ∀ vnode, ¬ (system.phases process).Opens vnode
  opensNot : ∀ vnode, ¬ (after.phases process).Opens vnode
  frees : ∀ vnode,
      (after.phases process).Frees vnode ↔ (system.phases process).Frees vnode

namespace QuietStep

variable {use : MountUse} {system after : VnodeSystem}
  {process other vnode : Nat} {change : Nat → Int}

variable (quiet : QuietStep use system process change after)

include quiet

theorem owned_other (differs : other ≠ process) :
    after.owned vnode other = system.owned vnode other := by
  unfold VnodeSystem.owned VnodeSystem.fileRefs
  rw [quiet.phases other differs, quiet.filedes other differs]

theorem refs (vnode : Nat) :
    (after.refs use vnode : Int) = system.refs use vnode + change vnode := by
  have changed := @refs_change use system after process vnode
    quiet.isProcess fun other differs => quiet.owned_other differs
  have own := quiet.owned vnode
  omega

theorem opens_iff :
    (after.phases other).Opens vnode ↔ (system.phases other).Opens vnode := by
  by_cases same : other = process
  · rw [same]
    exact ⟨fun opens => absurd opens (quiet.opensNot vnode),
      fun opens => absurd opens (quiet.notOpens vnode)⟩
  · rw [quiet.phases other same]

theorem frees_iff :
    (after.phases other).Frees vnode ↔ (system.phases other).Frees vnode := by
  by_cases same : other = process
  · rw [same]
    exact quiet.frees vnode
  · rw [quiet.phases other same]

theorem change_of_opens (sound : VnodeSound use system)
    (opens : (system.phases other).Opens vnode) : change vnode = 0 := by
  apply Decidable.byContradiction
  intro changes
  obtain ⟨unpinned, notOwned⟩ := sound.only_opener opens
  have differs : process ≠ other := by
    rintro rfl
    exact quiet.notOpens vnode opens
  rcases quiet.counted vnode changes with inList | isPinned | isOwned
  · exact (sound.opens other vnode opens).1 inList
  · omega
  · have none := notOwned process quiet.isProcess differs
    omega

theorem change_of_frees (sound : VnodeSound use system)
    (frees : (system.phases other).Frees vnode) : change vnode = 0 := by
  apply Decidable.byContradiction
  intro changes
  obtain ⟨unpinned, notOwned⟩ := sound.none_of_frees frees
  rcases quiet.counted vnode changes with inList | isPinned | isOwned
  · exact (sound.frees other vnode frees).1 inList
  · omega
  · have none := notOwned process quiet.isProcess
    omega

theorem cell_before {cell : VnodeCell}
    (isCell : after.vnodes.cells vnode = some cell) :
    ∃ before, system.vnodes.cells vnode = some before ∧
      cell.refcount = before.refcount + change vnode ∧
      cell.locked = before.locked ∧ cell.vnode = before.vnode := by
  obtain ⟨edit, edited, same⟩ := quiet.cells vnode
  rw [edited] at isCell
  obtain ⟨before, isBefore, rfl⟩ := Option.map_eq_some_iff.mp isCell
  exact ⟨before, isBefore, same before⟩

theorem cell_after {before : VnodeCell}
    (isBefore : system.vnodes.cells vnode = some before) :
    ∃ cell, after.vnodes.cells vnode = some cell ∧
      cell.locked = before.locked ∧ cell.vnode = before.vnode := by
  obtain ⟨edit, edited, same⟩ := quiet.cells vnode
  rw [isBefore] at edited
  exact ⟨edit before, edited, (same before).2⟩

/-- Such a step keeps the system sound. -/
theorem sound (sound : VnodeSound use system) :
    VnodeSound use after where
  counts := by
    intro vnode cell isCell
    obtain ⟨before, isBefore, changed, -⟩ := quiet.cell_before isCell
    rw [changed, sound.counts vnode before isBefore, quiet.refs]
  referenced := by
    intro vnode positive
    have changed := quiet.refs vnode
    have wasLive : ∃ cell, system.vnodes.cells vnode = some cell ∧
          cell.locked = false := by
      by_cases wasReferenced : 0 < system.refs use vnode
      · exact sound.referenced vnode wasReferenced
      · -- A reference to a vnode without one is got through the list.
        have least := @owned_le_refs use system process vnode quiet.isProcess
        rcases quiet.counted vnode (by omega) with inList | isPinned | isOwned
        · exact sound.listed vnode inList
        · omega
        · omega
    obtain ⟨before, isBefore, unlocked⟩ := wasLive
    obtain ⟨cell, isCell, sameLock, -⟩ := quiet.cell_after isBefore
    exact ⟨cell, isCell, sameLock.trans unlocked⟩
  placed := by
    intro vnode cell isCell unlocked
    obtain ⟨before, isBefore, -, sameLock, -⟩ := quiet.cell_before isCell
    rw [quiet.list]
    rcases sound.placed vnode before isBefore (sameLock ▸ unlocked) with
      inList | ⟨opener, opens⟩
    · exact .inl inList
    · exact .inr ⟨opener, quiet.opens_iff.mpr opens⟩
  listed := by
    intro vnode inList
    rw [quiet.list] at inList
    obtain ⟨before, isBefore, unlocked⟩ := sound.listed vnode inList
    obtain ⟨cell, isCell, sameLock, -⟩ := quiet.cell_after isBefore
    exact ⟨cell, isCell, sameLock.trans unlocked⟩
  nodup := by
    rw [quiet.list]
    exact sound.nodup
  opens := by
    intro opener vnode opens
    have wasOpened := quiet.opens_iff.mp opens
    obtain ⟨notListed, one⟩ := sound.opens opener vnode wasOpened
    have unchanged := quiet.change_of_opens sound wasOpened
    have changed := quiet.refs vnode
    rw [quiet.list]
    exact ⟨notListed, by omega⟩
  frees := by
    intro freer vnode frees
    have wasFreed := quiet.frees_iff.mp frees
    obtain ⟨notListed, zero, before, isBefore, isLocked⟩ :=
      sound.frees freer vnode wasFreed
    have unchanged := quiet.change_of_frees sound wasFreed
    have changed := quiet.refs vnode
    obtain ⟨cell, isCell, sameLock, -⟩ := quiet.cell_after isBefore
    rw [quiet.list]
    exact ⟨notListed, by omega, cell, isCell, sameLock.trans isLocked⟩
  freesOnce := fun first second vnode isFirst isSecond =>
    sound.freesOnce first second vnode (quiet.frees_iff.mp isFirst)
      (quiet.frees_iff.mp isSecond)
  active := by
    intro beyond isBeyond
    have differs : beyond ≠ process := by
      have isProcess := quiet.isProcess
      omega
    rw [quiet.phases beyond differs]
    exact sound.active beyond isBeyond

end QuietStep

/-- The change of a vnode's count. -/
def Effect.change : Effect → Nat → Int
  | .look, _ => 0
  | .hold held, vnode => if held = vnode then 1 else 0
  | .rel held, vnode => if held = vnode then -1 else 0
  | .unlink _, _ => 0

theorem Effect.cells (effect : Effect) (vnodes : Heap VnodeCell) (vnode : Nat) :
    ∃ edit : VnodeCell → VnodeCell,
      (effect.apply vnodes).cells vnode = (vnodes.cells vnode).map edit ∧
        ∀ cell,
          (edit cell).refcount = cell.refcount + effect.change vnode ∧
            (edit cell).locked = cell.locked ∧
            (edit cell).vnode = cell.vnode := by
  have unchanged : ∃ edit : VnodeCell → VnodeCell,
        vnodes.cells vnode = (vnodes.cells vnode).map edit ∧
          ∀ cell,
            (edit cell).refcount = cell.refcount + 0 ∧
              (edit cell).locked = cell.locked ∧
              (edit cell).vnode = cell.vnode :=
    ⟨id, by simp, fun cell => ⟨(Int.add_zero _).symm, rfl, rfl⟩⟩
  cases effect with
  | look => exact unchanged
  | hold held | rel held =>
    by_cases same : held = vnode
    · subst same
      exact ⟨_, Heap.cells_modify_same,
        fun cell => ⟨by simp [change], rfl, rfl⟩⟩
    · simp only [apply, change, same, ↓reduceIte, addRef,
        Heap.cells_modify_of_ne (Ne.symm same)]
      exact unchanged
  | unlink other =>
    by_cases same : other = vnode
    · subst same
      exact ⟨_, Heap.cells_modify_same,
        fun cell => ⟨by simp [change], rfl, rfl⟩⟩
    · simp only [apply, change, Heap.cells_modify_of_ne (Ne.symm same)]
      exact unchanged

namespace Goes

variable {use : MountUse} {process : Nat} {vnodes : Heap VnodeCell}
  {phase after : VnodePhase} {effect : Effect}

variable (goes : Goes use process vnodes phase effect after)

include goes

theorem held (vnode : Nat) :
    (after.held.count vnode : Int) =
      phase.held.count vnode + effect.change vnode := by
  cases goes <;>
    simp [VnodePhase.held, CallPoint.held, PathCall.held, Effect.change,
      List.count_cons, List.count_append] <;>
    grind

theorem counted {vnode : Nat} (changes : effect.change vnode ≠ 0) :
    0 < use.pinned vnode ∨ vnode ∈ phase.held := by
  cases goes with
  | hold call absolute =>
    have same : use.start process absolute = vnode := by
      simpa [Effect.change] using changes
    rw [← same]
    left
    cases absolute with
    | true => exact use.root_pinned process
    | false => exact use.current_pinned process
  | release first rest next | unlinkRel first parent | closeRel first =>
    have same : first = vnode := by simpa [Effect.change] using changes
    exact .inr (by simp [VnodePhase.held, same])
  | _ => exact absurd rfl changes

theorem notOpens (vnode : Nat) : ¬ phase.Opens vnode ∧ ¬ after.Opens vnode := by
  cases goes <;> exact ⟨id, id⟩

theorem frees (vnode : Nat) : after.Frees vnode ↔ phase.Frees vnode := by
  cases goes <;> exact Iff.rfl

theorem examines {vnode : Nat} (examines : after.Examines vnode) :
    phase.Examines vnode ∨ vnode ∈ phase.held := by
  cases goes with
  | unlinkRel first parent | closeRel first =>
    have same : first = vnode := examines
    exact .inr (by simp [VnodePhase.held, same])
  | unneeded | needed => exact .inl examines
  | _ => exact absurd examines id

end Goes

section Quiet

variable {use : MountUse} {system : VnodeSystem} {process vnode : Nat}
  {phase after : VnodePhase}

theorem owned_setPhase (isPhase : system.phases process = phase) :
    ((system.setPhase process after).owned vnode process : Int) =
      system.owned vnode process - phase.held.count vnode +
        after.held.count vnode := by
  have files : (system.setPhase process after).fileRefs process vnode =
        system.fileRefs process vnode :=
    rfl
  unfold VnodeSystem.owned
  rw [files, isPhase]
  simp only [VnodeSystem.setPhase, ↓reduceIte]
  omega

theorem quiet_setPhase (effect : Effect) (isProcess : process < use.processes)
    (isPhase : system.phases process = phase)
    (held :
      ∀ vnode,
        (after.held.count vnode : Int) =
          phase.held.count vnode + effect.change vnode)
    (counted :
      ∀ vnode, effect.change vnode ≠ 0 →
        vnode ∈ system.vnodeList ∨ 0 < use.pinned vnode ∨ vnode ∈ phase.held)
    (notOpens : ∀ vnode, ¬ phase.Opens vnode ∧ ¬ after.Opens vnode)
    (frees : ∀ vnode, after.Frees vnode ↔ phase.Frees vnode) :
    QuietStep use system process effect.change
      ((system.setVnodes (effect.apply system.vnodes)).setPhase process
        after) where
  isProcess := isProcess
  phases := fun _ differs => if_neg differs
  filedes := fun _ _ => rfl
  list := rfl
  cells := effect.cells system.vnodes
  owned := by
    intro vnode
    have changed := @owned_setPhase
      (system.setVnodes (effect.apply system.vnodes)) process vnode phase
      after isPhase
    have same :
        (system.setVnodes (effect.apply system.vnodes)).owned vnode process =
          system.owned vnode process :=
      rfl
    rw [changed, same, held]
    omega
  counted := by
    intro vnode changes
    rcases counted vnode changes with inList | isPinned | isHeld
    · exact .inl inList
    · exact .inr (.inl isPinned)
    · rw [← isPhase] at isHeld
      exact .inr (.inr (owned_pos_of_held isHeld))
  notOpens := by
    intro vnode
    rw [isPhase]
    exact (notOpens vnode).1
  opensNot := by
    intro vnode
    simpa [VnodeSystem.setPhase] using (notOpens vnode).2
  frees := by
    intro vnode
    rw [isPhase]
    simpa [VnodeSystem.setPhase] using frees vnode

theorem fileRefs_setFiledes {fd : Nat} {entry : Option Nat}
    (isFd : fd < OPEN_MAX) :
    (system.setFiledes process fd entry).fileRefs process vnode +
        (if system.filedes process fd = some vnode then 1 else 0) =
      system.fileRefs process vnode +
        (if entry = some vnode then 1 else 0) := by
  have changed := @total_change
    (fun fd => if system.filedes process fd = some vnode then 1 else 0)
    (fun other =>
      if (system.setFiledes process fd entry).filedes process other =
          some vnode then 1 else 0)
    OPEN_MAX fd isFd fun other differs => by
      simp [VnodeSystem.setFiledes, differs]
  have atFd : (system.setFiledes process fd entry).filedes process fd = entry :=
    if_pos ⟨rfl, rfl⟩
  rw [atFd] at changed
  exact changed

/-- A reference passes between a descriptor and a call. -/
theorem quiet_setFiledes {fd : Nat} {entry : Option Nat}
    (isProcess : process < use.processes)
    (isPhase : system.phases process = phase) (isFd : fd < OPEN_MAX)
    (held :
      ∀ vnode,
        after.held.count vnode + (if entry = some vnode then 1 else 0) =
          phase.held.count vnode +
            (if system.filedes process fd = some vnode then 1 else 0))
    (notOpens : ∀ vnode, ¬ phase.Opens vnode ∧ ¬ after.Opens vnode)
    (frees : ∀ vnode, after.Frees vnode ↔ phase.Frees vnode) :
    QuietStep use system process (fun _ => 0)
      ((system.setFiledes process fd entry).setPhase process after) where
  isProcess := isProcess
  phases := fun _ differs => if_neg differs
  filedes := by
    intro other differs
    simp [VnodeSystem.setFiledes, VnodeSystem.setPhase, differs]
  list := rfl
  cells := fun vnode =>
    ⟨id, by simp [VnodeSystem.setFiledes, VnodeSystem.setPhase],
      fun cell => ⟨(Int.add_zero _).symm, rfl, rfl⟩⟩
  owned := by
    intro vnode
    have files := @fileRefs_setFiledes system process vnode fd entry isFd
    have sameFiles :
        ((system.setFiledes process fd entry).setPhase process
            after).fileRefs process vnode =
          (system.setFiledes process fd entry).fileRefs process vnode :=
      rfl
    have balance := held vnode
    unfold VnodeSystem.owned
    rw [sameFiles, isPhase]
    simp only [VnodeSystem.setPhase, ↓reduceIte]
    omega
  counted := fun vnode changes => absurd rfl changes
  notOpens := by
    intro vnode
    rw [isPhase]
    exact (notOpens vnode).1
  opensNot := by
    intro vnode
    simpa [VnodeSystem.setPhase] using (notOpens vnode).2
  frees := by
    intro vnode
    rw [isPhase]
    simpa [VnodeSystem.setPhase] using frees vnode

/-- The steps that leave the list alone and make and free no vnode. -/
def VnodeAction.Quiet : VnodeAction → Prop
  | .call .. | .sysClose _ | .go | .search | .busy | .install _ => True
  | _ => False

theorem VnodeStep.quiet {label : VnodeLabel} {next : VnodeSystem}
    (step : VnodeStep use system label next) (isQuiet : label.action.Quiet) :
    ∃ change, QuietStep use system label.process change next := by
  cases step with
  | call call absolute isProcess isIdle begins =>
    refine ⟨_, quiet_setPhase .look isProcess isIdle (fun vnode => ?_)
      (fun vnode changes => absurd rfl changes)
      (fun vnode => ⟨id, id⟩) fun vnode => Iff.rfl⟩
    rcases begins with rfl | rfl | rfl <;> rfl
  | sysClose isProcess isIdle isFd isOpen =>
    refine ⟨_, quiet_setFiledes isProcess isIdle isFd (fun vnode => ?_)
      (fun vnode => ⟨id, id⟩) fun vnode => Iff.rfl⟩
    rw [isOpen]
    simp [VnodePhase.held, CallPoint.held, List.count_singleton]
  | go isProcess isPhase defined goes =>
    exact ⟨_, quiet_setPhase _ isProcess isPhase goes.held
      (fun vnode changes => .inr (goes.counted changes))
      goes.notOpens goes.frees⟩
  | miss isProcess isPhase defined searched =>
    exact ⟨_, quiet_setPhase .look isProcess isPhase
      (fun vnode => (Int.add_zero _).symm)
      (fun vnode changes => absurd rfl changes)
      (fun vnode => ⟨id, id⟩) fun vnode => Iff.rfl⟩
  | @hit _ directory ino found call isProcess isPhase defined searched =>
    refine ⟨_, quiet_setPhase (.hold _) isProcess isPhase
      (fun vnode => ?_) (fun vnode changes => ?_)
      (fun vnode => ⟨id, id⟩) fun vnode => Iff.rfl⟩
    · simp only [VnodePhase.held, List.count_cons, Effect.change]
      by_cases same : found = vnode
      · simp [same]
      · simp [same]
    · have same : found = vnode := by simpa [Effect.change] using changes
      rw [← same]
      exact .inl (cachedVnode_isCached searched).1
  | busy isProcess isPhase defined isCell unlocked used =>
    refine ⟨_, quiet_setPhase .look isProcess isPhase (fun vnode => ?_)
      (fun vnode changes => absurd rfl changes)
      (fun vnode => ⟨id, id⟩) fun vnode => Iff.rfl⟩
    simp [VnodePhase.held, CallPoint.held, Effect.change]
  | install isProcess isPhase defined isFd isFree =>
    refine ⟨_, quiet_setFiledes isProcess isPhase isFd (fun vnode => ?_)
      (fun vnode => ⟨id, id⟩) fun vnode => Iff.rfl⟩
    rw [isFree]
    simp [VnodePhase.held, CallPoint.held, PathCall.held, List.count_singleton]
  | _ => exact absurd isQuiet id

end Quiet

end Idylla.Vfs
