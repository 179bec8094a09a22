import Idylla.Lib.LinkedLists
import Idylla.Lib.Run

namespace Idylla.Kernel

open Idylla.Lib

/-!
# The scheduler

The threads of one CPU, the ready queue and the queues of sleepers that share
one list node of each thread.  A thread runs from one point of its calls to
the next; between two points the timer may call `schedule` and another
interrupt `wait_wakeup`.  In the handler of an interrupt all is one step.
-/

/-- The values of `thread->state`. -/
inductive ThreadState where
  | running
  | ready
  | waiting
  | new
  | blocked
  | zombie
  deriving Repr, DecidableEq

/-- The heads of the lists that a thread is linked in. -/
inductive ThreadQueue where
  /-- `_ready_queue` -/
  | ready
  /-- The queue of a `wait_t`. -/
  | wait (wait : Nat)
  deriving Repr, DecidableEq

/-- Where a thread stands in the calls that concern the scheduler. -/
inductive SchedPoint where
  | outside
  /-- `wait_sleep` or `sys_waitpid` from the marking of the thread on. -/
  | sleeping
  /-- The start of `sched_wakeup`, which `sys_exit` or another calls. -/
  | waking (thread : Nat) (exiting : Bool)
  /-- `sched_wakeup` behind `thread->state = THREAD_STATE_READY`. -/
  | queueing (thread : Nat) (exiting : Bool)
  /-- Behind `sys_exit`. -/
  | exited
  deriving Repr, DecidableEq

/-- Preemption is disabled at the point. -/
def SchedPoint.unpreempted : SchedPoint → Bool
  | .sleeping | .waking _ true | .queueing _ true => true
  | _ => false

namespace SchedPoint

variable (thread : Nat) (exiting : Bool)

@[simp, grind =] theorem unpreempted_outside :
    outside.unpreempted = false := rfl

@[simp, grind =] theorem unpreempted_sleeping :
    sleeping.unpreempted = true := rfl

@[simp, grind =] theorem unpreempted_waking :
    (waking thread exiting).unpreempted = exiting := by
  cases exiting <;> rfl

@[simp, grind =] theorem unpreempted_queueing :
    (queueing thread exiting).unpreempted = exiting := by
  cases exiting <;> rfl

@[simp, grind =] theorem unpreempted_exited : exited.unpreempted = false := rfl

end SchedPoint

/-- The scheduler and its threads by number. -/
structure Scheduler where
  links : Links ThreadQueue Nat
  state : Nat → ThreadState
  timeout : Nat → Int
  prio : Nat → Int
  waitpid : Nat → Int
  point : Nat → SchedPoint
  current : Nat
  preemptDisabled : Nat
  nextTid : Nat

/-- The number of `SCHED->idle`. -/
def idle : Nat := 0

namespace Scheduler

variable (sched : Scheduler)

/-- The state of one thread replaced. -/
def setState (thread : Nat) (state : ThreadState) : Scheduler :=
  { sched with
    state := fun other =>
      if other = thread then state else sched.state other }

/-- The timeout of one thread replaced. -/
def setTimeout (thread : Nat) (timeout : Int) : Scheduler :=
  { sched with
    timeout := fun other =>
      if other = thread then timeout else sched.timeout other }

/-- The current thread at another point. -/
def setPoint (point : SchedPoint) : Scheduler :=
  { sched with
    point := fun other =>
      if other = sched.current then point else sched.point other }

/-- `sched_preempt_disable` -/
def preemptDisable : Scheduler :=
  { sched with preemptDisabled := sched.preemptDisabled + 1 }

/-- `sched_preempt_enable` -/
def preemptEnable : Scheduler :=
  { sched with preemptDisabled := sched.preemptDisabled - 1 }

/-- `list_remove(&thread->list)` -/
def listRemove (thread : Nat) : Scheduler :=
  { sched with links := sched.links.remove (.member thread) }

/-- `list_add` of a thread behind the head of a queue. -/
def listAdd (queue : ThreadQueue) (thread : Nat) : Scheduler :=
  { sched with links := sched.links.add (.head queue) (.member thread) }

/-- `list_add(queue.prev, &thread->list)` -/
def listAddLast (queue : ThreadQueue) (thread : Nat) : Scheduler :=
  { sched with
    links := sched.links.add (sched.links.prev (.head queue)) (.member thread) }

/-- `schedule` makes a thread the current one. -/
def runThread (thread : Nat) (timeout : Int) : Scheduler :=
  { (sched.setTimeout thread timeout).setState thread .running with
    current := thread }

/-- The current thread gets into the ready queue if it is to run again. -/
def requeue : Scheduler :=
  if idle < sched.current ∧ sched.state sched.current = .ready then
    sched.listAddLast .ready sched.current
  else
    sched

@[simp]
theorem requeue_current : sched.requeue.current = sched.current := by
  unfold requeue
  split <;> rfl

@[simp]
theorem requeue_point : sched.requeue.point = sched.point := by
  unfold requeue
  split <;> rfl

@[simp]
theorem requeue_preemptDisabled :
    sched.requeue.preemptDisabled = sched.preemptDisabled := by
  unfold requeue
  split <;> rfl

/-- The idle thread or the first of the ready queue runs. -/
def pickNext : Option Scheduler :=
  if sched.links.isEmpty .ready then
    some (sched.runThread idle 0)
  else
    match sched.links.next (.head .ready) with
    | .member thread =>
      some ((sched.listRemove thread).runThread thread (sched.prio thread))
    -- `_ready_queue` itself is taken for a thread.
    | .head _ => none

/-- `timeout--` of the current thread. -/
def tick : Scheduler :=
  sched.setTimeout sched.current (sched.timeout sched.current - 1)

/-- `schedule` -/
def schedule : Option Scheduler :=
  if 0 < sched.preemptDisabled then
    some sched
  else if sched.state sched.current = .running then
    if 0 < sched.timeout sched.current then
      some sched.tick
    else
      (sched.tick.setState sched.current .ready).requeue.pickNext
  else
    sched.requeue.pickNext

/-- `sched_wakeup` up to `thread->state = THREAD_STATE_READY`. -/
def makeReady (thread : Nat) : Scheduler :=
  (sched.listRemove thread).setState thread .ready

/-- `sched_wakeup` -/
def schedWakeup (thread : Nat) : Scheduler :=
  (sched.makeReady thread).listAdd .ready thread

/-- `wait_sleep` up to `sched_preempt_enable`. -/
def waitSleepMark (wait : Nat) : Scheduler :=
  ((sched.preemptDisable.setState sched.current .waiting).listAddLast
    (.wait wait) sched.current).setPoint .sleeping

/-- `sys_waitpid` (or `do_fork` for `vfork`) up to `sched_preempt_enable`. -/
def waitpidMark (state : ThreadState) (pid : Int) : Scheduler :=
  let marked := sched.preemptDisable.setState sched.current state
  { marked with
    waitpid := fun other =>
      if other = sched.current then pid else sched.waitpid other }.setPoint
    .sleeping

/-- `wait_sleep` and `sys_waitpid` from `sched_preempt_enable` on. -/
def sleepSchedule : Option Scheduler :=
  (sched.setPoint .outside).preemptEnable.schedule

/-- The first thread in the queue of a `wait_t`, if there is one. -/
def firstSleeper (wait : Nat) : Option (Option Nat) :=
  if sched.links.isEmpty (.wait wait) then
    some none
  else
    match sched.links.next (.head (.wait wait)) with
    | .member thread => some (some thread)
    -- The queue itself is taken for a thread.
    | .head _ => none

/-- `wait_wakeup` up to the call of `sched_wakeup`. -/
def waitWakeupCall (wait : Nat) : Option Scheduler :=
  (sched.firstSleeper wait).map fun first =>
    match first with
    | some thread => sched.setPoint (.waking thread false)
    | none => sched

/-- `wait_wakeup` in the handler of an interrupt. -/
def interruptWakeup (wait : Nat) : Option Scheduler :=
  (sched.firstSleeper wait).map fun first =>
    match first with
    | some thread => sched.schedWakeup thread
    | none => sched

/-- `thread_spawn` up to the call of `sched_wakeup`. -/
def threadSpawn (prio : Int) : Scheduler :=
  let thread := sched.nextTid
  let spawned := (sched.setTimeout thread prio).setState thread .new
  { spawned with
    nextTid := thread + 1
    prio := fun other =>
      if other = thread then prio else sched.prio other }.setPoint
    (.waking thread false)

/-- `sys_exit` wakes the main thread of the parent process. -/
def ExitWakes (parent pid : Nat) : Prop :=
  (sched.state parent = .waiting ∨ sched.state parent = .blocked) ∧
    (sched.waitpid parent = pid ∨ sched.waitpid parent = -1)

instance (parent pid : Nat) : Decidable (sched.ExitWakes parent pid) :=
  inferInstanceAs (Decidable (_ ∧ _))

/-- `sys_exit` up to a call of `sched_wakeup`, or to its end. -/
def exitMark (parent pid : Nat) : Scheduler :=
  let zombie := sched.setState sched.current .zombie
  if zombie.ExitWakes parent pid then
    zombie.preemptDisable.setPoint (.waking parent true)
  else
    zombie.setPoint .exited

/-- `sys_execve` where it wakes the main thread of the parent process. -/
def execveWakeup (parent : Nat) : Scheduler :=
  if sched.state parent = .blocked then
    sched.setPoint (.waking parent false)
  else
    sched

/-- `sched_wakeup` from the first line to the change of the state. -/
def wakeupReady : Option Scheduler :=
  match sched.point sched.current with
  | .waking thread exiting =>
    some ((sched.makeReady thread).setPoint (.queueing thread exiting))
  | _ => none

/-- The rest of `sched_wakeup`, and of `sys_exit` behind it. -/
def wakeupQueue : Option Scheduler :=
  match sched.point sched.current with
  | .queueing thread true =>
    some ((sched.listAdd .ready thread).preemptEnable.setPoint .exited)
  | .queueing thread false =>
    some ((sched.listAdd .ready thread).setPoint .outside)
  | _ => none

/--
A thread runs its own code; that of the idle thread is a loop around `hlt`.
-/
def CallsWaiting : Prop :=
  sched.current ≠ idle ∧ sched.point sched.current = .outside

instance : Decidable sched.CallsWaiting :=
  inferInstanceAs (Decidable (_ ∧ _))

end Scheduler

/-- The steps of the current thread and of interrupts. -/
inductive SchedLabel where
  /-- `schedule`, by the timer or by a thread. -/
  | schedule
  | waitSleep (wait : Nat)
  | waitpid (pid : Int)
  | vfork (pid : Int)
  | sleepSchedule
  /-- `wait_wakeup`, or one turn of the loop of `wait_wakeup_all`. -/
  | waitWakeup (wait : Nat)
  | threadSpawn (prio : Int)
  | exit (parent pid : Nat)
  | execve (parent : Nat)
  | wakeupReady
  | wakeupQueue
  | interruptWakeup (wait : Nat)
  deriving Repr, DecidableEq

/-- The state after a step; nothing where the step is not next. -/
def Scheduler.step (sched : Scheduler) : SchedLabel → Option Scheduler
  | .schedule => sched.schedule
  | .waitSleep wait =>
    if sched.CallsWaiting then some (sched.waitSleepMark wait) else none
  | .waitpid pid =>
    if sched.CallsWaiting then some (sched.waitpidMark .waiting pid)
    else none
  | .vfork pid =>
    if sched.CallsWaiting then some (sched.waitpidMark .blocked pid)
    else none
  | .sleepSchedule =>
    if sched.point sched.current = .sleeping then sched.sleepSchedule
    else none
  | .waitWakeup wait =>
    if sched.point sched.current = .outside then sched.waitWakeupCall wait
    else none
  | .threadSpawn prio =>
    if sched.point sched.current = .outside then
      some (sched.threadSpawn prio)
    else none
  | .exit parent pid =>
    if sched.CallsWaiting then some (sched.exitMark parent pid) else none
  | .execve parent =>
    if sched.CallsWaiting then some (sched.execveWakeup parent) else none
  | .wakeupReady => sched.wakeupReady
  | .wakeupQueue => sched.wakeupQueue
  | .interruptWakeup wait => sched.interruptWakeup wait

/-- A step as a transition. -/
def SchedStep (sched : Scheduler) (label : SchedLabel) (next : Scheduler) :
    Prop :=
  sched.step label = some next

/-- The idle thread of `sched_init`, once preemption is enabled. -/
def Scheduler.booted : Scheduler where
  links := .empty
  state := fun thread => if thread = idle then .running else .new
  timeout := fun thread => if thread = idle then 1 else 0
  prio := fun _ => 0
  waitpid := fun _ => 0
  point := fun _ => .outside
  current := idle
  preemptDisabled := 0
  nextTid := 1

/-- The lists of the links, the states and the current thread agree. -/
structure ThreadsInPlace
    (sched : Scheduler)
    (lists : ThreadQueue → List Nat) : Prop where
  ready : ∀ thread, thread ≠ idle → sched.state thread = .ready →
      (lists .ready).count thread = 1
  suspended : ∀ thread ∈ lists .ready, sched.state thread ≠ .waiting ∧
      sched.state thread ≠ .blocked ∧ sched.state thread ≠ .zombie
  idle : idle ∉ lists .ready
  running : ∀ thread, sched.state thread = .running → thread = sched.current
  once : ∀ queue, (lists queue).Nodup
  one : ∀ queue other thread, thread ∈ lists queue → thread ∈ lists other →
      queue = other

/-- Every thread is in the list that its state says, and in no other. -/
def QueuesSound (sched : Scheduler) : Prop :=
  ∃ lists, sched.links.Holds lists ∧ ThreadsInPlace sched lists

/-- The step ends with the return of `schedule` or `sched_wakeup`. -/
def Scheduler.returns (sched : Scheduler) : SchedLabel → Bool
  | .schedule => true
  | .sleepSchedule => sched.point sched.current = .sleeping
  | .wakeupQueue => sched.wakeupQueue.isSome
  | .interruptWakeup wait => !sched.links.isEmpty (.wait wait)
  | _ => false

/-- The current thread is in `sched_wakeup`, between state and list. -/
def Scheduler.inWindow (sched : Scheduler) : Bool :=
  match sched.point sched.current with
  | .queueing _ _ => true
  | _ => false

/-- The step loses a thread that is ready. -/
def Scheduler.losesThread (sched : Scheduler) : SchedLabel → Bool
  | .schedule => sched.inWindow
  | .interruptWakeup wait =>
    sched.inWindow && !sched.links.isEmpty (.wait wait)
  | .sleepSchedule =>
    -- `list_add` of a thread behind itself.
    sched.state sched.current = .ready &&
      sched.links.prev (.head .ready) = .member sched.current
  | _ => false

/-- The step loses no thread that is ready. -/
def LosesNoThread (sched : Scheduler) (label : SchedLabel) : Prop :=
  sched.losesThread label = false

end Idylla.Kernel
