import Idylla.Kernel.SchedulerSound

namespace Idylla.Kernel

open Idylla.Lib

/-!
# Runs of the scheduler

A step keeps all threads in their place or loses one: `schedule` puts a thread
behind itself, or an interrupt comes between the state and the list of a
thread that `sched_wakeup` wakes.
-/

/-- The invariant of runs that lose no thread. -/
structure SchedulerSteady (sched : Scheduler) : Prop where
  sound : ∃ lists, SchedulerSound sched lists
  current : CurrentSound sched
  only : ∀ waker thread exiting, sched.point waker = .queueing thread exiting →
      waker = sched.current

namespace CurrentSound

variable {sched : Scheduler}

variable (current : CurrentSound sched)

include current

theorem runs (outside : sched.point sched.current = .outside) :
    sched.state sched.current = .running := by
  refine current.active ?_ ?_
  · rw [outside]
    rfl
  · rw [outside]
    nofun

theorem enabled (free : (sched.point sched.current).unpreempted = false) :
    sched.preemptDisabled = 0 := by
  rw [current.disabled, free]
  rfl

theorem disabled_once (held : (sched.point sched.current).unpreempted = true) :
    sched.preemptDisabled = 1 := by
  rw [current.disabled, held]
  rfl

theorem waitSleepMark (outside : sched.point sched.current = .outside)
    (wait : Nat) : CurrentSound (sched.waitSleepMark wait) := by
  have enabled := current.enabled (by rw [outside]; rfl)
  constructor <;>
    simp [Scheduler.waitSleepMark, Scheduler.setPoint, Scheduler.listAddLast,
      Scheduler.setState, Scheduler.preemptDisable, enabled]

theorem waitpidMark (outside : sched.point sched.current = .outside)
    (state : ThreadState) (pid : Int) :
    CurrentSound (sched.waitpidMark state pid) := by
  have enabled := current.enabled (by rw [outside]; rfl)
  constructor <;>
    simp [Scheduler.waitpidMark, Scheduler.setPoint, Scheduler.setState,
      Scheduler.preemptDisable, enabled]

theorem exitMark (outside : sched.point sched.current = .outside)
    (parent pid : Nat) : CurrentSound (sched.exitMark parent pid) := by
  have enabled := current.enabled (by rw [outside]; rfl)
  simp only [Scheduler.exitMark]
  split <;> constructor <;>
    simp [Scheduler.setPoint, Scheduler.setState, Scheduler.preemptDisable,
      enabled]

variable {thread : Nat}

theorem wakeupReady {exiting : Bool}
    (wakes : sched.point sched.current = .waking thread exiting)
    (notCurrent : thread ≠ sched.current) :
    CurrentSound
      ((sched.makeReady thread).setPoint (.queueing thread exiting)) := by
  obtain ⟨active, sleeps, disabled⟩ := current
  constructor <;>
    simp only [Scheduler.makeReady, Scheduler.setPoint, Scheduler.setState,
      Scheduler.listRemove] at * <;>
    grind

theorem wakeupQueue
    (wakes : sched.point sched.current = .queueing thread false) :
    CurrentSound ((sched.listAdd .ready thread).setPoint .outside) := by
  obtain ⟨active, sleeps, disabled⟩ := current
  constructor <;>
    simp only [Scheduler.setPoint, Scheduler.listAdd] at * <;>
    grind

theorem wakeupQueue_exiting
    (wakes : sched.point sched.current = .queueing thread true) :
    CurrentSound
      ((sched.listAdd .ready thread).preemptEnable.setPoint .exited) := by
  obtain ⟨active, sleeps, disabled⟩ := current
  constructor <;>
    simp only [Scheduler.setPoint, Scheduler.listAdd,
      Scheduler.preemptEnable] at * <;>
    grind

theorem schedWakeup (isWaiting : sched.state thread = .waiting) :
    CurrentSound (sched.schedWakeup thread) := by
  obtain ⟨active, sleeps, disabled⟩ := current
  constructor <;>
    simp only [Scheduler.schedWakeup, Scheduler.makeReady,
      Scheduler.listRemove, Scheduler.listAdd, Scheduler.setState] at * <;>
    grind

theorem setPoint (outside : sched.point sched.current = .outside)
    {point : SchedPoint} (free : point.unpreempted = false) :
    CurrentSound (sched.setPoint point) := by
  have enabled := current.enabled (by rw [outside]; rfl)
  have runs := current.runs outside
  constructor <;> simp [Scheduler.setPoint, runs, free, enabled]

end CurrentSound

namespace SchedulerSteady

variable {sched : Scheduler}

theorem booted : SchedulerSteady .booted := by
  have isIdle {thread : Nat}
      (notNew : Scheduler.booted.state thread ≠ .new) :
      thread = idle :=
    Classical.byContradiction fun differs => notNew (if_neg differs)
  have isNew (thread : Nat) (spawned : 1 ≤ thread) :
      Scheduler.booted.state thread = .new :=
    if_neg (Nat.ne_of_gt spawned)
  refine ⟨⟨fun _ => [], Links.Holds.empty, nofun, nofun, nofun, .inl rfl,
    ?_, ?_, isNew, nofun, nofun, nofun, fun _ _ => rfl⟩,
    ⟨fun _ _ => rfl, nofun, rfl⟩, nofun⟩
  · intro thread isReady notIdle
    exact absurd (isIdle (by rw [isReady]; nofun)) notIdle
  · intro thread runs
    exact isIdle (by rw [runs]; nofun)

variable (steady : SchedulerSteady sched)

include steady

theorem schedule :
    ∃ next lists, sched.schedule = some next ∧
      SchedulerSound next lists ∧ CurrentSound next ∧
      next.point = sched.point := by
  obtain ⟨⟨lists, sound⟩, current, -⟩ := steady
  cases held : (sched.point sched.current).unpreempted with
  | true =>
    have disabled : 0 < sched.preemptDisabled := by
      rw [current.disabled_once held]
      exact Nat.one_pos
    exact ⟨sched, lists, if_pos disabled, sound, current, rfl⟩
  | false =>
    refine sound.schedule (current.enabled held) held fun isReady => ?_
    rw [current.sleeps (.inl isReady)] at held
    cases held

theorem sleepSchedule (sleeping : sched.point sched.current = .sleeping)
    (unlost : LosesNoThread sched .sleepSchedule) :
    ∃ next lists, sched.sleepSchedule = some next ∧
      SchedulerSound next lists ∧ CurrentSound next ∧
      next.point = (sched.setPoint .outside).point := by
  obtain ⟨⟨lists, sound⟩, current, -⟩ := steady
  have disabled := current.disabled_once (by rw [sleeping]; rfl)
  have awake : SchedulerSound (sched.setPoint .outside) lists :=
    sound.setPoint nofun nofun (by rw [sleeping]; nofun)
  refine awake.preemptEnable.schedule ?_ ?_ fun isReady isLast => ?_
  · show sched.preemptDisabled - 1 = 0
    rw [disabled]
  · show (if sched.current = sched.current then SchedPoint.outside
      else _).unpreempted = false
    rw [if_pos rfl]
    rfl
  · have isReadyBefore : sched.state sched.current = .ready := isReady
    have isLastBefore :
        sched.links.prev (.head .ready) = .member sched.current := isLast
    simp [LosesNoThread, Scheduler.losesThread, isReadyBefore,
      isLastBefore] at unlost

theorem interruptWakeup (wait : Nat) :
    ∃ next lists, sched.interruptWakeup wait = some next ∧
      SchedulerSound next lists ∧ CurrentSound next ∧
      next.point = sched.point ∧ next.current = sched.current := by
  obtain ⟨⟨lists, sound⟩, current, -⟩ := steady
  unfold Scheduler.interruptWakeup
  rw [sound.firstSleeper wait]
  cases members : lists (.wait wait) with
  | nil =>
    exact ⟨sched, lists, rfl, sound, current, rfl, rfl⟩
  | cons first rest =>
    have sleeps : first ∈ lists (.wait wait) := by
      rw [members]
      exact List.mem_cons_self
    obtain ⟨after, wokenSound⟩ := sound.schedWakeup sleeps
    exact ⟨_, after, rfl, wokenSound,
      current.schedWakeup (sound.waits wait first sleeps), rfl, rfl⟩

theorem wakes (outside : sched.point sched.current = .outside) {thread : Nat}
    (suspended : sched.state thread = .waiting ∨
      sched.state thread = .blocked) :
    SchedulerSteady (sched.setPoint (.waking thread false)) := by
  obtain ⟨⟨lists, sound⟩, current, only⟩ := steady
  have runs := current.runs outside
  refine ⟨⟨lists, sound.setPoint ?_ nofun (by rw [outside]; nofun)⟩,
    current.setPoint outside rfl, ?_⟩
  · have idleState := sound.idleState
    have unspawned := sound.unspawned thread
    grind
  · intro waker other exiting isQueueing
    simp only [Scheduler.setPoint] at isQueueing ⊢
    grind

theorem only_of_point {next : Scheduler} (point : SchedPoint)
    (notQueueing : ∀ thread exiting, point ≠ .queueing thread exiting)
    (samePoints : next.point = (sched.setPoint point).point)
    (waker thread : Nat) (exiting : Bool) :
    next.point waker ≠ .queueing thread exiting := by
  rw [samePoints]
  intro isQueueing
  simp only [Scheduler.setPoint] at isQueueing
  split at isQueueing
  next => exact notQueueing thread exiting isQueueing
  next notCurrent =>
    exact notCurrent (steady.only waker thread exiting isQueueing)

theorem none_of_not_inWindow (notInWindow : sched.inWindow = false)
    (waker thread : Nat) (exiting : Bool) :
    sched.point waker ≠ .queueing thread exiting := by
  intro isQueueing
  have isCurrent := steady.only waker thread exiting isQueueing
  rw [isCurrent] at isQueueing
  simp [Scheduler.inWindow, isQueueing] at notInWindow

theorem step {label : SchedLabel} {next : Scheduler}
    (unlost : LosesNoThread sched label)
    (taken : sched.step label = some next) : SchedulerSteady next := by
  have ⟨⟨lists, sound⟩, current, only⟩ := steady
  have marked (point : SchedPoint) {after : Scheduler}
      {lists : ThreadQueue → List Nat}
      (afterSound : SchedulerSound after lists)
      (afterCurrent : CurrentSound after)
      (notQueueing : ∀ thread exiting, point ≠ .queueing thread exiting)
      (samePoints : after.point = (sched.setPoint point).point) :
      SchedulerSteady after :=
    ⟨⟨lists, afterSound⟩, afterCurrent, fun waker thread exiting isQueueing =>
      absurd isQueueing
        (steady.only_of_point point notQueueing samePoints waker thread
          exiting)⟩
  cases label with
  | schedule =>
    obtain ⟨after, lists, isNext, afterSound, afterCurrent, samePoints⟩ :=
      steady.schedule
    cases isNext.symm.trans taken
    refine ⟨⟨lists, afterSound⟩, afterCurrent, ?_⟩
    intro waker thread exiting isQueueing
    rw [samePoints] at isQueueing
    exact absurd isQueueing
      (steady.none_of_not_inWindow unlost waker thread exiting)
  | waitSleep wait =>
    obtain ⟨calls, ⟨⟩⟩ := Option.ite_none_right_eq_some.mp taken
    have runs := current.runs calls.2
    obtain ⟨after, afterSound⟩ := sound.waitSleepMark calls runs wait
    exact marked .sleeping afterSound
      (current.waitSleepMark calls.2 wait) (by simp) rfl
  | waitpid pid =>
    obtain ⟨calls, ⟨⟩⟩ := Option.ite_none_right_eq_some.mp taken
    have runs := current.runs calls.2
    exact marked .sleeping (sound.waitpidMark calls runs (.inl rfl) pid)
      (current.waitpidMark calls.2 _ pid) (by simp) rfl
  | vfork pid =>
    obtain ⟨calls, ⟨⟩⟩ := Option.ite_none_right_eq_some.mp taken
    have runs := current.runs calls.2
    exact marked .sleeping (sound.waitpidMark calls runs (.inr rfl) pid)
      (current.waitpidMark calls.2 _ pid) (by simp) rfl
  | sleepSchedule =>
    obtain ⟨sleeping, isNext⟩ := Option.ite_none_right_eq_some.mp taken
    obtain ⟨after, lists, isAfter, afterSound, afterCurrent, samePoints⟩ :=
      steady.sleepSchedule sleeping unlost
    cases isAfter.symm.trans isNext
    exact marked .outside afterSound afterCurrent (by simp) samePoints
  | waitWakeup wait =>
    obtain ⟨outside, isNext⟩ := Option.ite_none_right_eq_some.mp taken
    rw [Scheduler.waitWakeupCall, sound.firstSleeper wait] at isNext
    cases members : lists (.wait wait) with
    | nil =>
      rw [members] at isNext
      cases isNext
      exact steady
    | cons first rest =>
      rw [members] at isNext
      cases isNext
      have sleeps : first ∈ lists (.wait wait) := by
        rw [members]
        exact List.mem_cons_self
      exact steady.wakes outside (.inl (sound.waits wait first sleeps))
  | threadSpawn prio =>
    obtain ⟨outside, ⟨⟩⟩ := Option.ite_none_right_eq_some.mp taken
    have runs := current.runs outside
    have enabled := current.enabled (by rw [outside]; rfl)
    have isKnown : sched.current ≠ sched.nextTid := fun isNew =>
      sound.known (sound.unspawned _ (Nat.le_of_eq isNew.symm))
    refine marked (.waking sched.nextTid false)
      (sound.threadSpawn outside prio) ?_ (by simp) rfl
    constructor <;>
      simp [Scheduler.threadSpawn, Scheduler.setPoint, Scheduler.setState,
        Scheduler.setTimeout, runs, isKnown, enabled]
  | exit parent pid =>
    obtain ⟨calls, ⟨⟩⟩ := Option.ite_none_right_eq_some.mp taken
    have runs := current.runs calls.2
    have afterSound := sound.exitMark calls runs parent pid
    have afterCurrent := current.exitMark calls.2 parent pid
    simp only [Scheduler.exitMark] at afterSound afterCurrent ⊢
    split at afterSound
    next wakes =>
      rw [if_pos wakes] at afterCurrent ⊢
      exact marked (.waking parent true) afterSound afterCurrent (by simp) rfl
    next spares =>
      rw [if_neg spares] at afterCurrent ⊢
      exact marked .exited afterSound afterCurrent (by simp) rfl
  | execve parent =>
    obtain ⟨calls, ⟨⟩⟩ := Option.ite_none_right_eq_some.mp taken
    unfold Scheduler.execveWakeup
    split
    next isBlocked => exact steady.wakes calls.2 (.inr isBlocked)
    next => exact steady
  | wakeupReady =>
    simp only [Scheduler.step, Scheduler.wakeupReady] at taken
    split at taken
    next thread exiting wakes =>
      cases taken
      have notCurrent := (sound.waking _ _ _ wakes).1
      refine ⟨⟨_, sound.wakeupReady wakes⟩,
        current.wakeupReady wakes notCurrent, ?_⟩
      intro waker other exits isQueueing
      simp only [Scheduler.setPoint, Scheduler.makeReady,
        Scheduler.setState, Scheduler.listRemove] at isQueueing ⊢
      grind
    next => cases taken
  | wakeupQueue =>
    simp only [Scheduler.step, Scheduler.wakeupQueue] at taken
    split at taken
    next thread wakes =>
      cases taken
      exact marked .exited
        (sound.wakeupQueue wakes only (.inr rfl)).preemptEnable
        (current.wakeupQueue_exiting wakes) (by simp) rfl
    next thread wakes =>
      cases taken
      exact marked .outside (sound.wakeupQueue wakes only (.inl rfl))
        (current.wakeupQueue wakes) (by simp) rfl
    next => cases taken
  | interruptWakeup wait =>
    obtain ⟨after, lists, isAfter, afterSound, afterCurrent, samePoints,
      sameCurrent⟩ := steady.interruptWakeup wait
    cases isAfter.symm.trans taken
    refine ⟨⟨lists, afterSound⟩, afterCurrent, ?_⟩
    intro waker thread exiting isQueueing
    rw [samePoints] at isQueueing
    rw [sameCurrent]
    exact only waker thread exiting isQueueing

end SchedulerSteady

theorem not_queuesSound_of_alone {sched : Scheduler} {thread : Nat}
    (isReady : sched.state thread = .ready) (notIdle : thread ≠ idle)
    (alone : sched.links.next (.member thread) = .member thread) :
    ¬ QueuesSound sched := by
  rintro ⟨lists, holds, inPlace⟩
  have once := inPlace.ready thread notIdle isReady
  have isListed : thread ∈ lists .ready :=
    List.count_pos_iff.mp (by rw [once]; exact Nat.one_pos)
  exact holds.next_ne isListed alone

namespace SchedulerSteady

variable {sched : Scheduler}

theorem sleepSchedule_loses (steady : SchedulerSteady sched)
    (sleeping : sched.point sched.current = .sleeping)
    (isReady : sched.state sched.current = .ready)
    (isLast : sched.links.prev (.head .ready) = .member sched.current)
    {next : Scheduler} (taken : sched.sleepSchedule = some next) :
    ¬ QueuesSound next := by
  obtain ⟨⟨lists, sound⟩, current, -⟩ := steady
  have disabled := current.disabled_once (by rw [sleeping]; rfl)
  have notIdle : sched.current ≠ idle := by
    rcases (sound.holds.ring .ready).prev_stop sound.holds.matched with
      isHead | ⟨thread, isListed, isPrev⟩
    · cases isLast.symm.trans isHead
    · cases isLast.symm.trans isPrev
      rintro isIdle
      rw [isIdle] at isListed
      exact sound.idleAlone _ isListed
  have isNextHead : sched.links.next (.member sched.current) = .head .ready :=
    sound.holds.matched.next_eq_iff.mpr isLast.symm
  have scheduled : sched.sleepSchedule =
        ((sched.setPoint .outside).preemptEnable.listAddLast .ready
          sched.current).pickNext := by
    have enabled :
        ¬ 0 < (sched.setPoint .outside).preemptEnable.preemptDisabled := by
      show ¬ 0 < sched.preemptDisabled - 1
      rw [disabled]
      exact Nat.lt_irrefl 0
    have notRunning : (sched.setPoint .outside).preemptEnable.state
            (sched.setPoint .outside).preemptEnable.current ≠ .running := by
      show sched.state sched.current ≠ .running
      rw [isReady]
      nofun
    have requeued : idle < (sched.setPoint .outside).preemptEnable.current ∧
          (sched.setPoint .outside).preemptEnable.state
            (sched.setPoint .outside).preemptEnable.current = .ready :=
      ⟨Nat.pos_of_ne_zero notIdle, isReady⟩
    rw [Scheduler.sleepSchedule, Scheduler.schedule, if_neg enabled,
      if_neg notRunning, Scheduler.requeue, if_pos requeued]
    rfl
  have isLinks :
      ((sched.setPoint .outside).preemptEnable.listAddLast .ready
          sched.current).links =
        sched.links.add (.member sched.current) (.member sched.current) := by
    show sched.links.add (sched.links.prev (.head .ready)) _ = _
    rw [isLast]
  have isPrev :
      (sched.links.add (.member sched.current) (.member sched.current)).prev
          (.head .ready) =
        .member sched.current := by
    rw [Links.prev_add_self, if_pos isNextHead.symm]
  have notEmpty :
      ¬ ((sched.setPoint .outside).preemptEnable.listAddLast .ready
          sched.current).links.isEmpty .ready = true := by
    rw [isLinks, Links.isEmpty, isPrev]
    simp
  rw [scheduled, Scheduler.pickNext, if_neg notEmpty, isLinks] at taken
  split at taken
  next first isFirst =>
    cases taken
    rw [Links.next_add_self, if_neg nofun] at isFirst
    have notCurrent : first ≠ sched.current := by
      rintro rfl
      split at isFirst
      next => cases isNextHead.symm.trans isFirst
      next notPrev => exact notPrev (sound.holds.matched.next_eq_iff.mp isFirst)
    have stillAlone :
        ((((sched.setPoint .outside).preemptEnable.listAddLast .ready
          sched.current).links.remove (.member first))).next
            (.member sched.current) = .member sched.current := by
      have differs :
          (.member sched.current : Node ThreadQueue Nat) ≠ .member first := by
        rintro ⟨⟩
        exact notCurrent rfl
      have notPrev :
          (sched.links.add (.member sched.current)
            (.member sched.current)).prev (.member first) ≠
              .member sched.current := by
        have notNext :
            .member first ≠ sched.links.next (.member sched.current) := by
          rw [isNextHead]
          nofun
        rw [Links.prev_add_self, if_neg notNext, if_neg differs.symm]
        exact fun isBefore =>
          notNext (sound.holds.matched.next_eq_iff.mpr isBefore.symm).symm
      rw [isLinks, Links.next_remove, if_neg differs, if_neg notPrev.symm,
        Links.next_add_self, if_pos rfl]
    exact not_queuesSound_of_alone
      ((if_neg notCurrent.symm).trans isReady) notIdle stillAlone
  next => cases taken

theorem of_run {labels : List SchedLabel} {last : Scheduler}
    (run : Run (Guarded LosesNoThread SchedStep) .booted labels last) :
    SchedulerSteady last :=
  run.invariant (fun _ sched => SchedulerSteady sched) booted
    fun steady taken => steady.step taken.1 taken.2

/-- A call that returns without a loss leaves all threads in their place. -/
theorem returns_sound (steady : SchedulerSteady sched) {label : SchedLabel}
    (returns : sched.returns label = true)
    (unlost : LosesNoThread sched label) :
    ∃ next, sched.step label = some next ∧ QueuesSound next := by
  cases label with
  | schedule =>
    obtain ⟨next, lists, isNext, sound, -, samePoints⟩ := steady.schedule
    refine ⟨next, isNext, sound.queuesSound fun waker thread exiting => ?_⟩
    rw [samePoints]
    exact steady.none_of_not_inWindow unlost waker thread exiting
  | sleepSchedule =>
    have sleeping : sched.point sched.current = .sleeping :=
      decide_eq_true_iff.mp returns
    obtain ⟨next, lists, isNext, sound, -, samePoints⟩ :=
      steady.sleepSchedule sleeping unlost
    exact ⟨next, (if_pos sleeping).trans isNext,
      sound.queuesSound (steady.only_of_point .outside nofun samePoints)⟩
  | wakeupQueue =>
    obtain ⟨next, isNext⟩ := Option.isSome_iff_exists.mp returns
    have ⟨lists, sound⟩ := (steady.step unlost isNext).sound
    refine ⟨next, isNext, sound.queuesSound ?_⟩
    simp only [Scheduler.wakeupQueue] at isNext
    split at isNext
    next =>
      cases isNext
      exact steady.only_of_point .exited nofun rfl
    next =>
      cases isNext
      exact steady.only_of_point .outside nofun rfl
    next => cases isNext
  | interruptWakeup wait =>
    obtain ⟨next, lists, isNext, sound, -, samePoints, -⟩ :=
      steady.interruptWakeup wait
    refine ⟨next, isNext, sound.queuesSound fun waker thread exiting => ?_⟩
    have notEmpty : sched.links.isEmpty (.wait wait) = false := by
      simpa [Scheduler.returns] using returns
    have notInWindow : sched.inWindow = false := by
      simpa [LosesNoThread, Scheduler.losesThread, notEmpty] using unlost
    rw [samePoints]
    exact steady.none_of_not_inWindow notInWindow waker thread exiting
  | _ => cases returns

theorem loses (steady : SchedulerSteady sched)
    {label : SchedLabel} {next : Scheduler}
    (returns : sched.returns label = true)
    (lost : sched.losesThread label = true)
    (taken : sched.step label = some next) : ¬ QueuesSound next := by
  have inWindow_loses {after : Scheduler} {lists : ThreadQueue → List Nat}
      (inWindow : sched.inWindow = true)
      (sound : SchedulerSound after lists)
      (samePoints : after.point = sched.point) :
      ¬ QueuesSound after := by
    unfold Scheduler.inWindow at inWindow
    split at inWindow
    next thread exiting isQueueing =>
      rw [← samePoints] at isQueueing
      exact sound.not_queuesSound isQueueing
    next => cases inWindow
  cases label with
  | schedule =>
    obtain ⟨after, lists, isNext, sound, -, samePoints⟩ := steady.schedule
    cases isNext.symm.trans taken
    exact inWindow_loses lost sound samePoints
  | sleepSchedule =>
    have sleeping : sched.point sched.current = .sleeping :=
      decide_eq_true_iff.mp returns
    obtain ⟨isReady, isLast⟩ := Bool.and_eq_true_iff.mp lost
    exact steady.sleepSchedule_loses sleeping (decide_eq_true_iff.mp isReady)
      (decide_eq_true_iff.mp isLast) ((if_pos sleeping).symm.trans taken)
  | interruptWakeup wait =>
    obtain ⟨after, lists, isNext, sound, -, samePoints, -⟩ :=
      steady.interruptWakeup wait
    cases isNext.symm.trans taken
    exact inWindow_loses (Bool.and_eq_true_iff.mp lost).1 sound samePoints
  | _ => cases lost

end SchedulerSteady

/--
After steps that lose no thread, a call of `schedule` or `sched_wakeup` returns
with every thread in its place if and only if it loses no thread.
-/
theorem returns_with_threads_in_place_iff
    {labels : List SchedLabel} {sched : Scheduler} {label : SchedLabel}
    (run : Run (Guarded LosesNoThread SchedStep) .booted labels sched)
    (returns : sched.returns label = true) :
    (∃ next, sched.step label = some next ∧ QueuesSound next) ↔
      LosesNoThread sched label := by
  have steady := SchedulerSteady.of_run run
  constructor
  · rintro ⟨next, taken, inPlace⟩
    cases lost : sched.losesThread label with
    | false =>
      exact lost
    | true =>
      exact absurd inPlace (steady.loses returns lost taken)
  · exact steady.returns_sound returns

/-- Two new threads, of which the second runs. -/
def twoThreads : List SchedLabel :=
  [.threadSpawn 5, .wakeupReady, .wakeupQueue,
    .threadSpawn 5, .wakeupReady, .wakeupQueue, .schedule, .schedule]

/-- The thread is woken before it sleeps, in front of another one. -/
theorem woken_thread_in_place :
    ∃ sched next,
      Run (Guarded LosesNoThread SchedStep) .booted
        (twoThreads ++ [.waitSleep 0, .interruptWakeup 0]) sched ∧
      sched.state sched.current = .ready ∧
      sched.step .sleepSchedule = some next ∧ QueuesSound next := by
  have reaches :
      (follow
        (fun (sched : Scheduler) label =>
          if sched.losesThread label then none else sched.step label)
        (twoThreads ++ [.waitSleep 0, .interruptWakeup 0])
        .booted).isSome := by
    decide
  obtain ⟨sched, isReached⟩ := Option.isSome_iff_exists.mp reaches
  have ran : Run (Guarded LosesNoThread SchedStep) .booted
        (twoThreads ++ [.waitSleep 0, .interruptWakeup 0]) sched := by
    refine .of_follow (fun source label target steps => ?_) isReached
    split at steps
    · cases steps
    next unlost => exact ⟨Bool.eq_false_iff.mpr unlost, steps⟩
  have inPlace_iff (returns : sched.returns .sleepSchedule = true) :=
    returns_with_threads_in_place_iff ran returns
  cases isReached
  obtain ⟨next, taken, inPlace⟩ := (inPlace_iff rfl).mpr rfl
  exact ⟨_, next, ran, rfl, taken, inPlace⟩

/--
The thread 1 is woken before it sleeps, then 2 in front of it: `schedule` puts
1 behind itself and runs 2, and 1 is ready in no list.
-/
theorem woken_thread_lost :
    ¬ ∀ labels sched label next, Run SchedStep .booted labels sched →
      sched.returns label = true →
      sched.step label = some next →
      QueuesSound next := by
  intro inPlace
  have reaches :
      ((follow Scheduler.step
        (twoThreads ++
          [.waitSleep 0, .sleepSchedule, .waitSleep 1, .interruptWakeup 1,
            .interruptWakeup 0])
        .booted).bind fun sched => sched.step .sleepSchedule).isSome := by
    decide
  obtain ⟨next, both⟩ := Option.isSome_iff_exists.mp reaches
  obtain ⟨sched, isReached, taken⟩ := Option.bind_eq_some_iff.mp both
  have ran : Run SchedStep .booted _ sched :=
    .of_follow (fun _ _ _ steps => steps) isReached
  have isSound (returns : sched.returns .sleepSchedule = true) :=
    inPlace _ sched .sleepSchedule next ran returns taken
  cases isReached
  cases taken
  have notIdle : 1 ≠ idle := by decide
  exact not_queuesSound_of_alone rfl notIdle rfl (isSound rfl)

end Idylla.Kernel
