import Idylla.Kernel.Scheduler

namespace Idylla.Kernel

open Idylla.Lib

/-!
# Threads in their place

What lists, states and points of the threads have in common, and one lemma for
each function that changes them.
-/

/-- What lists, states and points of the threads have in common. -/
structure SchedulerSound
    (sched : Scheduler)
    (lists : ThreadQueue → List Nat) : Prop where
  holds : sched.links.Holds lists
  ready : ∀ thread ∈ lists .ready, sched.state thread = .ready
  waits : ∀ wait, ∀ thread ∈ lists (.wait wait), sched.state thread = .waiting
  idleAlone : ∀ queue, idle ∉ lists queue
  idleState : sched.state idle = .running ∨ sched.state idle = .ready
  queued : ∀ thread, sched.state thread = .ready → thread ≠ idle →
      thread ∈ lists .ready ∨
        ∃ waker exiting, sched.point waker = .queueing thread exiting
  running : ∀ thread, sched.state thread = .running → thread = sched.current
  unspawned : ∀ thread, sched.nextTid ≤ thread → sched.state thread = .new
  known : sched.state sched.current ≠ .new
  waking : ∀ waker thread exiting, sched.point waker = .waking thread exiting →
      thread ≠ waker ∧ thread ≠ idle ∧ thread < sched.nextTid
  queueing :
    ∀ waker thread exiting, sched.point waker = .queueing thread exiting →
      sched.state thread = .ready ∧ thread ≠ idle ∧
        thread ≠ sched.current ∧ ∀ queue, thread ∉ lists queue
  preempted :
    ∀ thread, thread ≠ sched.current → (sched.point thread).unpreempted = false

/-- The current thread runs or gives up the processor. -/
structure CurrentSound (sched : Scheduler) : Prop where
  active : (sched.point sched.current).unpreempted = false →
      sched.point sched.current ≠ .exited →
      sched.state sched.current = .running
  sleeps :
    sched.state sched.current = .ready ∨ sched.state sched.current = .waiting →
      sched.point sched.current = .sleeping
  disabled : sched.preemptDisabled =
      if (sched.point sched.current).unpreempted then 1 else 0

namespace SchedulerSound

variable {sched : Scheduler} {lists : ThreadQueue → List Nat}

variable {thread : Nat}

variable (sound : SchedulerSound sched lists)

include sound

theorem running_not_listed (runs : sched.state thread = .running)
    (queue : ThreadQueue) : thread ∉ lists queue := by
  intro isListed
  cases queue with
  | ready =>
    cases runs.symm.trans (sound.ready thread isListed)
  | wait wait =>
    cases runs.symm.trans (sound.waits wait thread isListed)

theorem running_not_last (runs : sched.state thread = .running)
    (queue : ThreadQueue) :
    sched.links.prev (.head queue) ≠ .member thread := by
  rcases (sound.holds.ring queue).prev_stop sound.holds.matched with
    isHead | ⟨other, isListed, isPrev⟩
  · rw [isHead]
    nofun
  · rw [isPrev]
    rintro ⟨⟩
    exact sound.running_not_listed runs queue isListed

theorem setPoint {point : SchedPoint}
    (waking :
      ∀ thread exiting, point = .waking thread exiting →
        thread ≠ sched.current ∧ thread ≠ idle ∧ thread < sched.nextTid)
    (notQueueing : ∀ thread exiting, point ≠ .queueing thread exiting)
    (wasNot :
      ∀ thread exiting, sched.point sched.current ≠ .queueing thread exiting) :
    SchedulerSound (sched.setPoint point) lists := by
  obtain ⟨holds, ready, waits, idleAlone, idleState, queued, running,
    unspawned, known, wakingSound, queueing, preempted⟩ := sound
  refine ⟨holds, ready, waits, idleAlone, idleState, ?_, running,
    unspawned, known, ?_, ?_, ?_⟩
  all_goals
    simp only [Scheduler.setPoint]
    grind

theorem tick :
    SchedulerSound sched.tick lists :=
  ⟨sound.holds, sound.ready, sound.waits, sound.idleAlone, sound.idleState,
    sound.queued, sound.running, sound.unspawned, sound.known, sound.waking,
    sound.queueing, sound.preempted⟩

theorem preemptEnable :
    SchedulerSound sched.preemptEnable lists :=
  ⟨sound.holds, sound.ready, sound.waits, sound.idleAlone, sound.idleState,
    sound.queued, sound.running, sound.unspawned, sound.known, sound.waking,
    sound.queueing, sound.preempted⟩

theorem waitSleepMark (calls : sched.CallsWaiting)
    (runs : sched.state sched.current = .running) (wait : Nat) :
    ∃ after, SchedulerSound (sched.waitSleepMark wait) after := by
  have added := sound.holds.addBack (sound.running_not_last runs (.wait wait))
  refine ⟨_, added, ?_, ?_, ?_, ?_, ?_, ?_, ?_, ?_, ?_, ?_, ?_⟩
  all_goals
    obtain ⟨holds, ready, waits, idleAlone, idleState, queued, running,
      unspawned, known, waking, queueing, preempted⟩ := sound
    obtain ⟨notIdle, outside⟩ := calls
    simp only [Scheduler.waitSleepMark, Scheduler.setPoint,
      Scheduler.listAddLast, Scheduler.setState, Scheduler.preemptDisable,
      Links.withList]
    grind

theorem waitpidMark (calls : sched.CallsWaiting)
    (runs : sched.state sched.current = .running) {state : ThreadState}
    (suspends : state = .waiting ∨ state = .blocked) (pid : Int) :
    SchedulerSound (sched.waitpidMark state pid) lists := by
  obtain ⟨holds, ready, waits, idleAlone, idleState, queued, running,
    unspawned, known, waking, queueing, preempted⟩ := sound
  obtain ⟨notIdle, outside⟩ := calls
  refine ⟨holds, ?_, ?_, idleAlone, ?_, ?_, ?_, ?_, ?_, ?_, ?_, ?_⟩
  all_goals
    simp only [Scheduler.waitpidMark, Scheduler.setPoint, Scheduler.setState,
      Scheduler.preemptDisable]
    grind

theorem exitMark (calls : sched.CallsWaiting)
    (runs : sched.state sched.current = .running) (parent pid : Nat) :
    SchedulerSound (sched.exitMark parent pid) lists := by
  obtain ⟨holds, ready, waits, idleAlone, idleState, queued, running,
    unspawned, known, waking, queueing, preempted⟩ := sound
  obtain ⟨notIdle, outside⟩ := calls
  simp only [Scheduler.exitMark]
  split
  next wakes =>
    have suspended := wakes.1
    simp only [Scheduler.setState] at suspended
    refine ⟨holds, ?_, ?_, idleAlone, ?_, ?_, ?_, ?_, ?_, ?_, ?_, ?_⟩
    all_goals
      simp only [Scheduler.setPoint, Scheduler.setState,
        Scheduler.preemptDisable]
      grind
  next =>
    refine ⟨holds, ?_, ?_, idleAlone, ?_, ?_, ?_, ?_, ?_, ?_, ?_, ?_⟩
    all_goals
      simp only [Scheduler.setPoint, Scheduler.setState]
      grind

theorem threadSpawn (outside : sched.point sched.current = .outside)
    (prio : Int) : SchedulerSound (sched.threadSpawn prio) lists := by
  obtain ⟨holds, ready, waits, idleAlone, idleState, queued, running,
    unspawned, known, waking, queueing, preempted⟩ := sound
  refine ⟨holds, ?_, ?_, idleAlone, ?_, ?_, ?_, ?_, ?_, ?_, ?_, ?_⟩
  all_goals
    simp only [Scheduler.threadSpawn, Scheduler.setPoint, Scheduler.setState,
      Scheduler.setTimeout]
    grind

theorem firstSleeper (wait : Nat) :
    sched.firstSleeper wait = some (lists (.wait wait)).head? := by
  have isEmpty_iff :
      sched.links.isEmpty (.wait wait) = true ↔ lists (.wait wait) = [] :=
    sound.holds.isEmpty_iff
  unfold Scheduler.firstSleeper
  cases members : lists (.wait wait) with
  | nil =>
    rw [if_pos (isEmpty_iff.mpr members)]
    rfl
  | cons first rest =>
    have notEmpty : ¬ sched.links.isEmpty (.wait wait) = true := by
      rw [isEmpty_iff, members]
      nofun
    rw [if_neg notEmpty, sound.holds.next_head members]
    rfl

variable {exiting : Bool}

theorem wakeupReady
    (wakes : sched.point sched.current = .waking thread exiting) :
    SchedulerSound
      ((sched.makeReady thread).setPoint (.queueing thread exiting))
      (Links.without lists thread) := by
  have removed := sound.holds.remove thread
  obtain ⟨holds, ready, waits, idleAlone, idleState, queued, running,
    unspawned, known, waking, queueing, preempted⟩ := sound
  constructor
  case holds => exact removed
  case idleAlone =>
    exact fun queue isListed =>
      idleAlone queue (Links.mem_without.mp isListed).1
  case queued =>
    intro other isReady isOther
    by_cases same : other = thread
    · exact .inr ⟨sched.current, exiting, by rw [same]; exact if_pos rfl⟩
    · have wasReady : sched.state other = .ready :=
        (if_neg same).symm.trans isReady
      rcases queued other wasReady isOther with
        isListed | ⟨waker, exits, isQueueing⟩
      · exact .inl (Links.mem_without.mpr ⟨isListed, same⟩)
      · have notWaking : waker ≠ sched.current := by
          rintro rfl
          cases wakes.symm.trans isQueueing
        exact .inr ⟨waker, exits, (if_neg notWaking).trans isQueueing⟩
  all_goals
    simp only [Scheduler.makeReady, Scheduler.setPoint, Scheduler.setState,
      Scheduler.listRemove]
    grind

theorem wakeupQueue
    (wakes : sched.point sched.current = .queueing thread exiting)
    (only :
      ∀ waker other exits, sched.point waker = .queueing other exits →
        waker = sched.current) {point : SchedPoint}
    (leaves : point = .outside ∨ point = .exited) :
    SchedulerSound ((sched.listAdd .ready thread).setPoint point)
      (Links.withList (Links.without lists thread) .ready
        (thread :: Links.without lists thread .ready)) := by
  have added := sound.holds.addFront .ready thread
  obtain ⟨holds, ready, waits, idleAlone, idleState, queued, running,
    unspawned, known, waking, queueing, preempted⟩ := sound
  refine ⟨added, ?_, ?_, ?_, ?_, ?_, ?_, ?_, ?_, ?_, ?_, ?_⟩
  all_goals
    simp only [Scheduler.setPoint, Scheduler.listAdd, Links.withList]
    grind

theorem schedWakeup {wait thread : Nat} (sleeps : thread ∈ lists (.wait wait)) :
    ∃ after, SchedulerSound (sched.schedWakeup thread) after := by
  have added := (sound.holds.remove thread).addFront .ready thread
  refine ⟨_, added, ?_, ?_, ?_, ?_, ?_, ?_, ?_, ?_, ?_, ?_, ?_⟩
  all_goals
    obtain ⟨holds, ready, waits, idleAlone, idleState, queued, running,
      unspawned, known, waking, queueing, preempted⟩ := sound
    simp only [Scheduler.schedWakeup, Scheduler.makeReady,
      Scheduler.listRemove, Scheduler.listAdd, Scheduler.setState,
      Links.withList]
    grind

theorem yield (runs : sched.state sched.current = .running) :
    ∃ after,
      SchedulerSound (sched.tick.setState sched.current .ready).requeue after ∧
      ∀ thread,
        (sched.tick.setState sched.current .ready).requeue.state thread ≠
          .running := by
  have isReady : (sched.tick.setState sched.current .ready).state
        (sched.tick.setState sched.current .ready).current = .ready :=
    if_pos rfl
  have sameCurrent :
      (sched.tick.setState sched.current .ready).current = sched.current :=
    rfl
  unfold Scheduler.requeue
  by_cases isIdle : sched.current = idle
  · have notBehind :
        ¬ idle < (sched.tick.setState sched.current .ready).current := by
      rw [sameCurrent, isIdle]
      exact Nat.lt_irrefl idle
    rw [if_neg fun both => notBehind both.1]
    obtain ⟨holds, ready, waits, idleAlone, idleState, queued, running,
      unspawned, known, waking, queueing, preempted⟩ := sound
    refine ⟨lists, ⟨holds, ?_, ?_, idleAlone, ?_, ?_, ?_, ?_, ?_, waking, ?_,
      preempted⟩, ?_⟩
    all_goals
      simp only [Scheduler.setState, Scheduler.tick, Scheduler.setTimeout]
      grind
  · have behindIdle : idle < sched.current := Nat.pos_of_ne_zero isIdle
    rw [if_pos ⟨behindIdle, isReady⟩]
    have added := sound.holds.addBack (sound.running_not_last runs .ready)
    obtain ⟨holds, ready, waits, idleAlone, idleState, queued, running,
      unspawned, known, waking, queueing, preempted⟩ := sound
    refine ⟨_, ⟨added, ?_, ?_, ?_, ?_, ?_, ?_, ?_, ?_, waking, ?_,
      preempted⟩, ?_⟩
    all_goals
      simp only [Scheduler.listAddLast, Scheduler.setState, Scheduler.tick,
        Scheduler.setTimeout, Links.withList]
      grind

theorem requeue (suspended : sched.state sched.current ≠ .running)
    (notLast :
      sched.state sched.current = .ready →
        sched.links.prev (.head .ready) ≠ .member sched.current) :
    ∃ after, SchedulerSound sched.requeue after ∧
      ∀ thread, sched.requeue.state thread ≠ .running := by
  have noneRuns (thread : Nat) : sched.state thread ≠ .running := by
    intro runs
    rw [sound.running thread runs] at runs
    exact suspended runs
  unfold Scheduler.requeue
  split
  next both =>
    have added := sound.holds.addBack (notLast both.2)
    obtain ⟨holds, ready, waits, idleAlone, idleState, queued, running,
      unspawned, known, waking, queueing, preempted⟩ := sound
    refine ⟨_, ⟨added, ?_, ?_, ?_, idleState, ?_, running, unspawned, known,
      waking, ?_, preempted⟩, noneRuns⟩
    all_goals
      simp only [Scheduler.listAddLast, Links.withList]
      grind
  next => exact ⟨lists, sound, noneRuns⟩

theorem pickNext (noneRuns : ∀ thread, sched.state thread ≠ .running)
    (free : (sched.point sched.current).unpreempted = false) :
    ∃ next after, sched.pickNext = some next ∧ SchedulerSound next after ∧
      next.state next.current = .running ∧
      next.point = sched.point ∧
      next.preemptDisabled = sched.preemptDisabled := by
  have isEmpty_iff : sched.links.isEmpty .ready = true ↔ lists .ready = [] :=
    sound.holds.isEmpty_iff
  unfold Scheduler.pickNext
  cases members : lists .ready with
  | nil =>
    rw [if_pos (isEmpty_iff.mpr members)]
    have runs :
        (sched.runThread idle 0).state (sched.runThread idle 0).current =
          .running := by
      simp [Scheduler.runThread, Scheduler.setState]
    refine ⟨_, lists, rfl, ?_, runs, rfl, rfl⟩
    obtain ⟨holds, ready, waits, idleAlone, idleState, queued, running,
      unspawned, known, waking, queueing, preempted⟩ := sound
    refine ⟨holds, ?_, ?_, idleAlone, ?_, ?_, ?_, ?_, ?_, waking, ?_, ?_⟩
    all_goals
      simp only [Scheduler.runThread, Scheduler.setState, Scheduler.setTimeout]
      grind
  | cons first rest =>
    have notEmpty : ¬ sched.links.isEmpty .ready = true := by
      rw [isEmpty_iff, members]
      nofun
    rw [if_neg notEmpty, sound.holds.next_head members]
    refine ⟨_, Links.without lists first, rfl, ?_, if_pos rfl, rfl, rfl⟩
    have removed := sound.holds.remove first
    obtain ⟨holds, ready, waits, idleAlone, idleState, queued, running,
      unspawned, known, waking, queueing, preempted⟩ := sound
    have stillAlone (queue : ThreadQueue) :
        idle ∉ Links.without lists first queue :=
      fun isThere => idleAlone queue (Links.mem_without.mp isThere).1
    refine ⟨removed, ?_, ?_, stillAlone, ?_, ?_, ?_, ?_, ?_, waking, ?_, ?_⟩
    all_goals
      simp only [Scheduler.runThread, Scheduler.setState,
        Scheduler.setTimeout, Scheduler.listRemove]
      grind

/-- `schedule` finds a thread to run, and that thread alone runs. -/
theorem schedule (enabled : sched.preemptDisabled = 0)
    (free : (sched.point sched.current).unpreempted = false)
    (notLast :
      sched.state sched.current = .ready →
        sched.links.prev (.head .ready) ≠ .member sched.current) :
    ∃ next after, sched.schedule = some next ∧
      SchedulerSound next after ∧ CurrentSound next ∧
      next.point = sched.point := by
  have picked {queued : Scheduler} {others : ThreadQueue → List Nat}
      (queuedSound : SchedulerSound queued others)
      (noneRuns : ∀ thread, queued.state thread ≠ .running)
      (sameCurrent : queued.current = sched.current)
      (samePoint : queued.point = sched.point)
      (sameDisabled : queued.preemptDisabled = sched.preemptDisabled) :
      ∃ next after, queued.pickNext = some next ∧
        SchedulerSound next after ∧ CurrentSound next ∧
        next.point = sched.point := by
    have queuedFree : (queued.point queued.current).unpreempted = false := by
      rw [samePoint, sameCurrent, free]
    obtain ⟨next, after, picks, nextSound, runs, keptPoint, keptDisabled⟩ :=
      queuedSound.pickNext noneRuns queuedFree
    have nextFree : (next.point next.current).unpreempted = false := by
      by_cases same : next.current = sched.current
      · rw [keptPoint, samePoint, same, free]
      · rw [keptPoint]
        exact queuedSound.preempted _ (by rw [sameCurrent]; exact same)
    have nextEnabled : next.preemptDisabled = 0 := by
      rw [keptDisabled, sameDisabled, enabled]
    refine ⟨next, after, picks, nextSound, ⟨fun _ _ => runs, ?_, ?_⟩,
      keptPoint.trans samePoint⟩
    · rw [runs]
      nofun
    · rw [nextEnabled, nextFree]
      rfl
  have notDisabled : ¬ 0 < sched.preemptDisabled := by
    rw [enabled]
    exact Nat.lt_irrefl 0
  unfold Scheduler.schedule
  rw [if_neg notDisabled]
  by_cases runs : sched.state sched.current = .running
  · rw [if_pos runs]
    by_cases hasTime : 0 < sched.timeout sched.current
    · rw [if_pos hasTime]
      refine ⟨sched.tick, lists, rfl, sound.tick, ⟨fun _ _ => runs, ?_, ?_⟩,
        rfl⟩
      · show
          sched.state sched.current = .ready ∨
            sched.state sched.current = .waiting → _
        rw [runs]
        nofun
      · show
          sched.preemptDisabled =
            if (sched.point sched.current).unpreempted then 1 else 0
        rw [enabled, free]
        rfl
    · rw [if_neg hasTime]
      obtain ⟨others, queuedSound, noneRuns⟩ := sound.yield runs
      exact picked queuedSound noneRuns (Scheduler.requeue_current _)
        (Scheduler.requeue_point _) (Scheduler.requeue_preemptDisabled _)
  · rw [if_neg runs]
    obtain ⟨others, queuedSound, noneRuns⟩ := sound.requeue runs notLast
    exact picked queuedSound noneRuns (Scheduler.requeue_current _)
      (Scheduler.requeue_point _) (Scheduler.requeue_preemptDisabled _)

theorem queuesSound
    (noneQueueing :
      ∀ waker thread exiting, sched.point waker ≠ .queueing thread exiting) :
    QueuesSound sched := by
  refine ⟨lists, sound.holds, ?_, ?_, sound.idleAlone _, sound.running,
    sound.holds.nodup, sound.holds.apart⟩
  · intro thread notIdle isReady
    rcases sound.queued thread isReady notIdle with
      isListed | ⟨waker, exiting, isQueueing⟩
    · have once := List.nodup_iff_count.mp (sound.holds.nodup .ready) thread
      have atLeast := List.count_pos_iff.mpr isListed
      exact Nat.le_antisymm once atLeast
    · exact absurd isQueueing (noneQueueing waker thread exiting)
  · intro thread isListed
    rw [sound.ready thread isListed]
    exact ⟨nofun, nofun, nofun⟩

theorem not_queuesSound {waker thread : Nat}
    (isQueueing : sched.point waker = .queueing thread exiting) :
    ¬ QueuesSound sched := by
  rintro ⟨others, holds, inPlace⟩
  obtain ⟨isReady, notIdle, -, notListed⟩ :=
    sound.queueing waker thread exiting isQueueing
  have once := inPlace.ready thread notIdle isReady
  rw [← sound.holds.unique holds] at once
  exact notListed _ (List.count_pos_iff.mp (by rw [once]; exact Nat.one_pos))

end SchedulerSound

end Idylla.Kernel
