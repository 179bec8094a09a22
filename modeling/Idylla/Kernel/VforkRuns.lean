import Idylla.Kernel.Vfork

namespace Idylla.Kernel

open Idylla.Lib

/-!
# Runs of a family of processes

A vfork parent and its child are a pair; what a pair has to be like carries
the runs in which the wakeups are timely.
-/

namespace Family

variable {family next : Family} {proc : Nat} {main : MainThread}

@[simp, grind =] theorem main_set (other : Nat) :
    (family.set proc main).main other =
      if other = proc then main else family.main other :=
  rfl

@[simp, grind =] theorem nextPid_set :
    (family.set proc main).nextPid = family.nextPid :=
  rfl

@[simp, grind =] theorem nextSpace_set :
    (family.set proc main).nextSpace = family.nextSpace :=
  rfl

@[grind .] theorem awaken_not_suspended (point : MainPoint) :
    point.awaken ≠ .asleep ∧ (∀ pid, point.awaken ≠ .waiting pid) ∧
      ∀ child, point.awaken ≠ .blocked child := by
  cases point <;> simp [MainPoint.awaken]

variable {point : MainPoint}

@[grind =] theorem awaken_eq_absent :
    point.awaken = .absent ↔ point = .absent := by
  cases point <;> simp [MainPoint.awaken]

theorem awaken_of_suspended (suspended : point.suspended = true) :
    (∃ child, point = .blocked child ∧ point.awaken = .vforks child) ∨
      (point = .asleep ∨ ∃ pid, point = .waiting pid) ∧
        point.awaken = .runs := by
  cases point <;> simp_all [MainPoint.suspended, MainPoint.awaken]

theorem exists_of_isBlocked
    (isBlocked : point.isBlocked = true) : ∃ child, point = .blocked child := by
  cases point <;> simp_all [MainPoint.isBlocked]

/-- `waitpid` is what a process waits for. -/
structure Recorded (family : Family) : Prop where
  fresh : ∀ pid, family.nextPid ≤ pid → (family.main pid).point = .absent
  waiting : ∀ proc pid, (family.main proc).point = .waiting pid →
    (family.main proc).waitpid = pid
  blocked : ∀ proc child, (family.main proc).point = .blocked child →
    (family.main proc).waitpid = child

theorem Recorded.boot : Recorded .boot := by
  constructor <;> grind [Family.boot, initProc]

theorem set_wake {parent : Nat} (differs : proc ≠ parent) :
    (family.set proc main).wake parent =
      (family.wake parent).set proc main := by
  unfold wake
  unfold set
  grind

theorem Recorded.wake (recorded : family.Recorded) :
    (family.wake proc).Recorded := by
  obtain ⟨fresh, waiting, blocked⟩ := recorded
  constructor <;> grind [Family.wake]

theorem Recorded.step {label : FamilyLabel} (recorded : family.Recorded)
    (stepped : family.step label = some next) : next.Recorded := by
  obtain ⟨fresh, waiting, blocked⟩ := recorded
  cases label
  all_goals
    simp only [Family.step, Family.wake] at stepped
    repeat' split at stepped
    all_goals cases stepped
    all_goals constructor <;> grind

theorem Recorded.run {labels : List FamilyLabel}
    (run : Run Step .boot labels family) : family.Recorded :=
  run.invariant (fun _ family => family.Recorded) .boot
    fun recorded stepped => recorded.step stepped

theorem asleep_leaves {label : FamilyLabel} (recorded : family.Recorded)
    (noExec : label.ofExecve = false) (stepped : family.step label = some next)
    (sleeps : (family.main proc).point = .asleep)
    (awake : (next.main proc).point ≠ .asleep) :
    label = .wakeup proc ∨
      ∃ child, label = .die child ∧ (family.main child).parent = proc ∧
        family.ExitWakes child := by
  have fresh := recorded.fresh proc
  cases label
  all_goals
    simp only [Family.step, Family.wake] at stepped
    repeat' split at stepped
    all_goals cases stepped
    all_goals grind [FamilyLabel.ofExecve]

/--
`sys_exit` wakes rightly exactly when no `waitpid` of an earlier wait matches.
-/
theorem wakesRightly_iff {labels : List FamilyLabel} {label : FamilyLabel}
    (run : Run Step .boot labels family) (noExec : label.ofExecve = false)
    (stepped : family.Step label next) :
    family.WakesRightly label next ↔ ¬ family.StaleWait label := by
  have recorded := Recorded.run run
  constructor
  · rintro rightly ⟨child, isDie, sleeps, waits⟩
    have wakes : family.ExitWakes child := ⟨by rw [sleeps]; rfl, waits⟩
    rcases rightly.exit child isDie wakes with blocked | ⟨pid, waiting, -⟩
    · rw [sleeps] at blocked
      cases blocked
    · rw [sleeps] at waiting
      cases waiting
  · intro fresh
    refine ⟨fun child isDie wakes => ?_, fun proc sleeps awake => ?_⟩
    · obtain ⟨suspended, waits⟩ := wakes
      cases isPoint : (family.main (family.main child).parent).point with
      | blocked other =>
        rw [recorded.blocked _ other isPoint] at waits
        have same : other = child := by
          rcases waits with same | isAny <;> omega
        exact .inl (same ▸ isPoint)
      | waiting pid =>
        exact .inr ⟨pid, isPoint, recorded.waiting _ pid isPoint ▸ waits⟩
      | asleep =>
        exact absurd ⟨child, isDie, isPoint, waits⟩ fresh
      | _ =>
        rw [isPoint] at suspended
        cases suspended
    · rcases asleep_leaves recorded noExec stepped sleeps awake with
        isWakeup | ⟨child, isDie, rfl, wakes⟩
      · exact isWakeup
      · exact absurd ⟨child, isDie, sleeps, wakes.2⟩ fresh

/-- What a vfork child has to be like, next to its parent. -/
structure PairSound
    (nextPid proc child : Nat) (parent main : MainThread) : Prop where
  born : child < nextPid
  differs : child ≠ proc
  isParent : main.parent = proc
  space : parent.vmspace ≠ none
  blocked : parent.point = .blocked child → parent.queued = false
  pending : parent.queued = false → main.woke = false
  apart :
    (main.woke = true ∨ main.point = .execs ∨
      ∃ target, main.point = .wakes target ∨ main.point = .queues target) →
    main.vmspace ≠ parent.vmspace
  aims : ∀ target,
    main.point = .wakes target ∨ main.point = .queues target → target = proc

/-- Pairs are sound, and one process at a time is about to queue another. -/
structure Sound (family : Family) : Prop where
  recorded : family.Recorded
  spaces : ∀ proc space,
    (family.main proc).vmspace = some space → space < family.nextSpace
  dead : ∀ proc,
    (family.main proc).point = .exits ∨ (family.main proc).point = .zombie →
    (family.main proc).vmspace = none
  window : ∀ proc target, (family.main proc).point = .queues target →
    (family.main target).queued = false ∧
      ∃ child, (family.main target).point = .vforks child
  once : ∀ proc other target, (family.main proc).point = .queues target →
    (family.main other).point = .queues target → proc = other
  pair : ∀ proc child, family.InVfork proc child →
    PairSound family.nextPid proc child (family.main proc) (family.main child)

theorem Sound.boot : Sound .boot := by
  refine ⟨.boot, ?_, ?_, ?_, ?_, ?_⟩
  all_goals grind [Family.boot, initProc, InVfork]

/-- What a process has to be like after a step that concerns it only. -/
structure Fits
    (family : Family) (proc : Nat) (main : MainThread) : Prop where
  space : ∀ space, main.vmspace = some space → space < family.nextSpace
  dead : main.point = .exits ∨ main.point = .zombie → main.vmspace = none
  outside : ∀ target, main.point = .queues target →
    (family.main proc).point = .queues target
  window : ∀ other, (family.main other).point = .queues proc →
    main.queued = false ∧ ∃ child, main.point = .vforks child
  asParent : ∀ child, main.point = .vforks child ∨ main.point = .blocked child →
    PairSound family.nextPid proc child main (family.main child)
  asChild : ∀ parent, parent ≠ proc → family.InVfork parent proc →
    PairSound family.nextPid parent proc (family.main parent) main

namespace Sound

variable (sound : family.Sound)

include sound

theorem set (fits : family.Fits proc main)
    (recorded : (family.set proc main).Recorded) :
    (family.set proc main).Sound := by
  obtain ⟨space, dead, outside, window, asParent, asChild⟩ := fits
  refine ⟨recorded, ?_, ?_, ?_, ?_, fun other child isIn => ?_⟩
  · have spaces := sound.spaces
    grind
  · have allDead := sound.dead
    grind
  · have windows := sound.window
    grind
  · have once := sound.once
    grind
  · by_cases isProc : other = proc
    · subst other
      have isPoint : main.point = .vforks child ∨ main.point = .blocked child :=
        by simpa [InVfork] using isIn
      have pair := asParent child isPoint
      have differs := pair.differs
      grind
    · have old : family.InVfork other child := by
        grind [InVfork]
      by_cases isChild : child = proc
      · grind
      · have pair := sound.pair other child old
        grind

theorem move (isQueued : (family.main proc).queued = true)
    (recorded : (family.set proc main).Recorded)
    (space : main.vmspace = (family.main proc).vmspace ∨ main.vmspace = none)
    (dead : main.point = .exits ∨ main.point = .zombie → main.vmspace = none)
    (away : ∀ other, main.point ≠ .vforks other ∧ main.point ≠ .blocked other ∧
      main.point ≠ .queues other ∧ main.point ≠ .wakes other)
    (noExec : main.point ≠ .execs)
    (sameParent : main.parent = (family.main proc).parent)
    (woke : main.woke = (family.main proc).woke) :
    (family.set proc main).Sound := by
  have window := fun other => sound.window other proc
  have spaces := sound.spaces proc
  refine sound.set ⟨?_, dead, fun other isTarget =>
    absurd isTarget (away other).2.2.1, ?_, ?_, ?_⟩
    recorded
  · grind
  · grind
  · grind
  · intro parent _ isIn
    obtain ⟨_, _, _, _, _, _, _, _⟩ := sound.pair parent proc isIn
    constructor <;> grind

theorem wake (suspended : (family.main proc).point.suspended = true) :
    (family.wake proc).Sound := by
  have window := fun other => sound.window other proc
  have goesOn := awaken_of_suspended suspended
  refine sound.set ⟨sound.spaces proc, ?_, ?_, ?_, ?_, ?_⟩ sound.recorded.wake
  · grind
  · grind
  · grind
  · intro child isIn
    have old : family.InVfork proc child := by
      grind [InVfork]
    obtain ⟨_, _, _, _, _, _, _, _⟩ := sound.pair proc child old
    constructor <;> grind
  · intro parent _ isIn
    obtain ⟨_, _, _, _, _, _, _, _⟩ := sound.pair parent proc isIn
    constructor <;> grind

variable {label : FamilyLabel}

theorem fork {vfork : Bool}
    (stepped : family.step (.fork proc vfork) = some next) : next.Sound := by
  have recorded := sound.recorded.step stepped
  have fresh := sound.recorded.fresh
  have spaces := sound.spaces
  simp only [Family.step] at stepped
  split at stepped
  next isPoint =>
    cases stepped
    refine ⟨recorded, ?_, ?_, ?_, ?_, fun other child isIn => ?_⟩
    · grind
    · have dead := sound.dead
      grind
    · have window := sound.window
      grind
    · have once := sound.once
      grind
    · by_cases isProc : other = proc
      · obtain ⟨rfl, rfl⟩ : vfork = true ∧ child = family.nextPid := by
          simp only [InVfork] at isIn
          grind
        constructor <;> grind
      · have old : family.InVfork other child ∧ other ≠ family.nextPid := by
          grind [InVfork]
        obtain ⟨_, _, _, _, _, _, _, _⟩ := sound.pair other child old.1
        constructor <;> grind
  next => cases stepped

theorem test (stepped : family.step (.test proc) = some next) : next.Sound := by
  have recorded := sound.recorded.step stepped
  simp only [Family.step] at stepped
  split at stepped
  next child isPoint =>
    have pair := sound.pair proc child (.inl isPoint)
    have window := fun other => sound.window other proc
    split at stepped
    · cases stepped
    · split at stepped
      · cases stepped
        refine sound.move ?_ recorded (.inl rfl) ?_ ?_ ?_ rfl rfl <;> grind
      · cases stepped
        refine sound.set ⟨sound.spaces proc, ?_, ?_, ?_, ?_, ?_⟩ recorded
        · grind
        · grind
        · grind
        · intro other isIn
          obtain ⟨_, _, _, _, _, _, _, _⟩ := pair
          constructor <;> grind
        · intro parent _ isIn
          obtain ⟨_, _, _, _, _, _, _, _⟩ := sound.pair parent proc isIn
          constructor <;> grind
  next => cases stepped

theorem switch (stepped : family.step (.switch proc) = some next) :
    next.Sound := by
  have recorded := sound.recorded.step stepped
  have spaces := sound.spaces
  simp only [Family.step] at stepped
  split at stepped
  next isPoint =>
    cases stepped
    have grown : Sound { family with nextSpace := family.nextSpace + 1 } :=
      ⟨⟨sound.recorded.fresh, sound.recorded.waiting, sound.recorded.blocked⟩,
        fun other space isSpace =>
          Nat.lt_succ_of_lt (spaces other space isSpace),
        sound.dead, sound.window, sound.once, sound.pair⟩
    have window := fun other => sound.window other proc
    refine grown.set ⟨?_, ?_, ?_, ?_, ?_, ?_⟩ recorded
    · grind
    · grind
    · grind
    · grind
    · grind
    · intro parent _ isIn
      obtain ⟨_, _, _, _, _, _, _, _⟩ := sound.pair parent proc isIn
      constructor <;> grind
  next => cases stepped

theorem check (timely : family.Timely (.check proc))
    (stepped : family.step (.check proc) = some next) : next.Sound := by
  have recorded := sound.recorded.step stepped
  have window := fun other => sound.window other proc
  simp only [Family.step] at stepped
  split at stepped
  next isPoint =>
    split at stepped
    all_goals cases stepped
    all_goals
      refine sound.set ⟨sound.spaces proc, ?_, ?_, ?_, ?_, ?_⟩ recorded
      · grind
      · grind
      · grind
      · grind
      · intro parent _ isIn
        obtain ⟨_, _, _, _, _, _, _, _⟩ := sound.pair parent proc isIn
        constructor <;> grind [InVfork, Timely, MainPoint.isBlocked]
  next => cases stepped

theorem ready (timely : family.Timely (.ready proc))
    (stepped : family.step (.ready proc) = some next) : next.Sound := by
  have recorded := sound.recorded.step stepped
  simp only [Family.step] at stepped
  split at stepped
  next target isPoint =>
    split at stepped
    · cases stepped
    · cases stepped
      obtain ⟨child, isBlocked⟩ := exists_of_isBlocked (timely target isPoint)
      simp only [isBlocked, MainPoint.awaken] at recorded ⊢
      refine ⟨recorded, ?_, ?_, ?_, ?_, fun other child isIn => ?_⟩
      · have spaces := sound.spaces
        grind
      · have dead := sound.dead
        grind
      · have window := sound.window
        grind
      · have window := sound.window
        have once := sound.once
        grind
      · have old : family.InVfork other child := by
          grind [InVfork]
        obtain ⟨_, _, _, _, _, _, _, _⟩ := sound.pair other child old
        constructor <;> grind [InVfork]
  next => cases stepped

theorem queue (stepped : family.step (.queue proc) = some next) :
    next.Sound := by
  have recorded := sound.recorded.step stepped
  simp only [Family.step] at stepped
  split at stepped
  next target isPoint =>
    have window := sound.window
    have once := sound.once
    split at stepped
    · cases stepped
    · cases stepped
      refine ⟨recorded, ?_, ?_, ?_, ?_, fun other child isIn => ?_⟩
      · have spaces := sound.spaces
        grind
      · have dead := sound.dead
        grind
      · grind
      · grind
      · have old : family.InVfork other child := by
          grind [InVfork]
        obtain ⟨_, _, _, _, _, _, _, _⟩ := sound.pair other child old
        constructor <;> grind
  next => cases stepped

/-- A parent that is blocked for the child is woken when the child dies. -/
theorem die (timely : family.Timely (.die proc))
    (stepped : family.step (.die proc) = some next) : next.Sound := by
  have recorded := sound.recorded.step stepped
  have blocked := sound.recorded.blocked
  simp only [Family.step] at stepped
  split at stepped
  next isPoint =>
    have window := fun other => sound.window other proc
    have dead := sound.dead proc
    split at stepped
    next wakes =>
      have differs : proc ≠ (family.main proc).parent := by
        intro isSelf
        have suspended := wakes.1
        rw [← isSelf, isPoint.1] at suspended
        cases suspended
      have awake := sound.wake wakes.1
      cases stepped
      rw [set_wake differs] at recorded ⊢
      have isWoken :
          ((family.wake (family.main proc).parent).main
            (family.main proc).parent).queued = true := by
        grind [Family.wake]
      have same : (family.wake (family.main proc).parent).main proc =
          family.main proc := by
        grind [Family.wake]
      have spaces := awake.spaces proc
      have windows := fun other => awake.window other proc
      rw [same] at spaces windows
      refine awake.set ⟨spaces, ?_, ?_, ?_, ?_, ?_⟩ recorded
      · grind
      · grind
      · grind
      · grind
      · intro parent _ isIn
        have pair := awake.pair parent proc isIn
        obtain ⟨_, _, _, _, _, _, _, _⟩ := pair
        constructor <;> grind
    next asleep =>
      have notBlocked :
          (family.main (family.main proc).parent).point ≠ .blocked proc := by
        intro isBlocked
        refine asleep ⟨by rw [isBlocked]; rfl, .inl ?_⟩
        exact (blocked _ proc isBlocked).symm
      cases stepped
      refine sound.set ⟨sound.spaces proc, ?_, ?_, ?_, ?_, ?_⟩ recorded
      · grind
      · grind
      · grind
      · grind
      · intro parent _ isIn
        obtain ⟨_, _, _, _, _, _, _, _⟩ := sound.pair parent proc isIn
        constructor <;> grind [InVfork, Timely]
  next => cases stepped

theorem step (timely : family.Timely label)
    (stepped : family.step label = some next) : next.Sound := by
  have recorded := sound.recorded.step stepped
  have whole := stepped
  cases label
  case fork => exact sound.fork whole
  case test => exact sound.test whole
  case switch => exact sound.switch whole
  case check => exact sound.check timely whole
  case ready => exact sound.ready timely whole
  case queue => exact sound.queue whole
  case die => exact sound.die timely whole
  all_goals
    simp only [Family.step] at stepped
    split at stepped
    all_goals cases stepped
  case waits isPoint =>
    exact sound.move isPoint.2 recorded (.inl rfl) (by simp) (by simp) (by simp)
      rfl rfl
  case sleeps isPoint =>
    exact sound.move isPoint.2 recorded (.inl rfl) (by simp) (by simp) (by simp)
      rfl rfl
  case exit isPoint =>
    exact sound.move isPoint.2.1 recorded (.inl rfl) (by simp) (by simp)
      (by simp) rfl rfl
  case drop isPoint =>
    exact sound.move isPoint.2 recorded (.inr rfl) (by simp) (by simp) (by simp)
      rfl rfl
  case reap proc child isPoint =>
    have window := fun other => sound.window other child
    refine sound.set ⟨?_, ?_, ?_, ?_, ?_, ?_⟩ recorded
    · grind
    · grind
    · grind
    · grind
    · grind
    · intro parent _ isIn
      have isParent := (sound.pair parent child isIn).isParent
      grind [InVfork]
  case detach proc child isPoint =>
    refine sound.set ⟨sound.spaces child, sound.dead child, fun _ => id,
      fun other => sound.window other child, ?_, ?_⟩ recorded
    · intro other isIn
      obtain ⟨_, _, _, _, _, _, _, _⟩ := sound.pair child other isIn
      constructor <;> grind
    · intro parent _ isIn
      have isParent := (sound.pair parent child isIn).isParent
      grind [InVfork]
  case wakeup proc isPoint =>
    exact sound.wake (by rw [isPoint]; rfl)

theorem exact : family.VforkExact := by
  constructor
  · intro proc child next isPoint stepped returned
    have pair := sound.pair proc child (.inl isPoint)
    have dead := sound.dead child
    have space := pair.space
    simp only [Step, Family.step] at stepped
    grind
  · intro proc child isIn
    exact (sound.pair proc child isIn).pending

end Sound

/-- Two children; the one that has not been waited for dies later. -/
def staleLabels : List FamilyLabel :=
  [.fork 1 false, .fork 1 false, .waits 1 (-1), .exit 2, .drop 2, .die 2,
    .reap 1 2, .sleeps 1, .exit 3, .drop 3]

/-- A parent in a wait queue is woken by `sys_exit` of its second child. -/
theorem secondChild_wakes_wrongly :
    ∃ labels family next, Run Step boot labels family ∧
      family.Step (.die 3) next ∧ ¬ family.WakesRightly (.die 3) next := by
  obtain ⟨family, next, reaches, stepped, sleeps, awake⟩ :
      ∃ family next, follow step staleLabels boot = some family ∧
        family.step (.die 3) = some next ∧
        (family.main 1).point = .asleep ∧ (next.main 1).point = .runs :=
    ⟨_, _, rfl, rfl, rfl, rfl⟩
  refine ⟨staleLabels, family, next, .of_follow (fun _ _ _ => id) reaches,
    stepped, fun rightly => ?_⟩
  cases rightly.asleep 1 sleeps (by rw [awake]; simp)

/-- A parent that waits for its child is woken by `sys_exit` rightly. -/
theorem waitedChild_wakes_rightly :
    ∃ family next, Step family (.die 2) next ∧ (next.main 1).point = .runs ∧
      WakesRightly family (.die 2) next := by
  obtain ⟨family, next, reaches, stepped, waits, awake⟩ :
      ∃ family next : Family,
        follow step [.fork 1 false, .waits 1 2, .exit 2, .drop 2] boot =
          some family ∧
        family.step (.die 2) = some next ∧
        (family.main (family.main 2).parent).point = .waiting 2 ∧
        (next.main 1).point = .runs :=
    ⟨_, _, rfl, rfl, rfl, rfl⟩
  have run : Run Step boot _ family := .of_follow (fun _ _ _ => id) reaches
  refine ⟨family, next, stepped, awake,
    (wakesRightly_iff run rfl stepped).mpr ?_⟩
  rintro ⟨child, isDie, sleeps, -⟩
  cases isDie
  rw [waits] at sleeps
  cases sleeps

end Family

end Idylla.Kernel
