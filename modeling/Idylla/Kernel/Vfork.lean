import Idylla.Kernel.Waitpid

namespace Idylla.Kernel

/-!
# Waking the parent

What `do_fork`, `sys_execve`, `sys_exit`, `sys_waitpid` and `wait_sleep` do to
the main threads of a family of processes on one CPU.  Code under disabled
preemption is one step.  `sched_wakeup` is two where preemption is enabled:
the thread leaves its list and is `THREAD_STATE_READY`, and then it is queued.
-/

/-- Where the main thread of a process stands. -/
inductive MainPoint where
  | absent
  | runs
  /-- `THREAD_STATE_WAITING` in `sys_waitpid`. -/
  | waiting (pid : Int)
  /-- `THREAD_STATE_WAITING` in `wait_sleep`. -/
  | asleep
  /-- The loop of `do_fork`. -/
  | vforks (child : Nat)
  /-- `THREAD_STATE_BLOCKED` in that loop. -/
  | blocked (child : Nat)
  /-- `sys_execve` behind the switch of the address space. -/
  | execs
  /-- It has found this parent blocked and is about to wake it. -/
  | wakes (target : Nat)
  /-- It is inside of `sched_wakeup`, in front of `list_add`. -/
  | queues (target : Nat)
  /-- The loop of `sys_exit`. -/
  | leaves
  /-- `sys_exit` behind `proc->vmspace = NULL`. -/
  | exits
  /-- `THREAD_STATE_ZOMBIE` -/
  | zombie
  /-- The `while(1)` behind `sys_exit`, in another state. -/
  | spins
  deriving Repr, DecidableEq

/-- A process with its main thread. -/
structure MainThread where
  point : MainPoint := .absent
  parent : Nat := 0
  /-- `waitpid`, which keeps its value when the wait is over. -/
  waitpid : Int := 0
  vmspace : Option Nat := none
  /-- It is the current thread or in the run queue. -/
  queued : Bool := false
  /-- It has been through the wakeup of `sys_execve` or of `sys_exit`. -/
  woke : Bool := false

/-- The processes by number. -/
structure Family where
  main : Nat → MainThread
  nextPid : Nat
  nextSpace : Nat

/-- `sched_wakeup` of a thread, as far as it goes on somewhere else then. -/
def MainPoint.awaken : MainPoint → MainPoint
  | .blocked child => .vforks child
  | .waiting _ => .runs
  | .asleep => .runs
  | .zombie => .spins
  | point => point

/-- `THREAD_STATE_WAITING` or `THREAD_STATE_BLOCKED` -/
def MainPoint.suspended : MainPoint → Bool
  | .blocked _ | .waiting _ | .asleep => true
  | _ => false

/-- `THREAD_STATE_BLOCKED` -/
def MainPoint.isBlocked : MainPoint → Bool
  | .blocked _ => true
  | _ => false

/-- The steps, by the process that takes them. -/
inductive FamilyLabel where
  /-- `do_fork` up to its loop. -/
  | fork (proc : Nat) (vfork : Bool)
  /-- One turn of the loop of `do_fork`. -/
  | test (proc : Nat)
  /-- `sys_waitpid` that finds no dead child. -/
  | waits (proc : Nat) (pid : Int)
  /-- `sys_waitpid` that finds one. -/
  | reap (proc child : Nat)
  /-- `wait_sleep` -/
  | sleeps (proc : Nat)
  /-- `wait_wakeup` of a queue in which this one is the first. -/
  | wakeup (proc : Nat)
  /-- `sys_execve` up to the end of disabled preemption. -/
  | switch (proc : Nat)
  /-- `if (parent->main->state == THREAD_STATE_BLOCKED)` -/
  | check (proc : Nat)
  /-- `sched_wakeup` up to `thread->state = THREAD_STATE_READY`. -/
  | ready (proc : Nat)
  /-- `sched_wakeup` from there on. -/
  | queue (proc : Nat)
  | exit (proc : Nat)
  /-- `child->parent = __init_proc` -/
  | detach (proc child : Nat)
  /-- `proc->vmspace = NULL` -/
  | drop (proc : Nat)
  /-- `sys_exit` under disabled preemption. -/
  | die (proc : Nat)

/-- The steps of `sys_execve`. -/
def FamilyLabel.ofExecve : FamilyLabel → Bool
  | .switch _ | .check _ | .ready _ | .queue _ => true
  | _ => false

namespace Family

variable (family : Family)

/-- One process changed. -/
def set (proc : Nat) (main : MainThread) : Family :=
  { family with
    main := fun other => if other = proc then main else family.main other }

/-- The condition of `sys_exit` for `sched_wakeup`. -/
def ExitWakes (proc : Nat) : Prop :=
  let parent := family.main (family.main proc).parent
  parent.point.suspended = true ∧ WaitsFor parent.waitpid proc

instance (proc : Nat) : Decidable (family.ExitWakes proc) :=
  inferInstanceAs (Decidable (_ ∧ _))

/-- `sched_wakeup`, the whole of it. -/
def wake (proc : Nat) : Family :=
  let main := family.main proc
  family.set proc { main with point := main.point.awaken, queued := true }

/-- The family after a step; nothing where the process is not at that point. -/
def step : FamilyLabel → Option Family
  | .fork proc vfork =>
    let main := family.main proc
    if main.point = .runs ∧ main.queued ∧ main.vmspace ≠ none then
      let child : MainThread :=
        { point := .runs, parent := proc, queued := true
          vmspace := if vfork then main.vmspace else some family.nextSpace }
      let forks := if vfork then .vforks family.nextPid else .runs
      some
        { (family.set family.nextPid child).set proc
            { main with point := forks } with
          nextPid := family.nextPid + 1
          nextSpace := family.nextSpace + 1 }
    else
      none
  | .test proc =>
    let main := family.main proc
    match main.point with
    | .vforks child =>
      if ¬ main.queued then none
      else if
          (family.main child).point = .zombie ∨
            (family.main child).vmspace ≠ main.vmspace then
        some (family.set proc { main with point := .runs })
      else
        some (family.set proc
          { main with
            point := .blocked child, waitpid := child, queued := false })
    | _ => none
  | .waits proc pid =>
    let main := family.main proc
    if main.point = .runs ∧ main.queued then
      some (family.set proc
        { main with point := .waiting pid, waitpid := pid, queued := false })
    else
      none
  | .reap proc child =>
    let main := family.main proc
    if main.point = .runs ∧ main.queued ∧ (family.main child).parent = proc ∧
        (family.main child).point = .zombie then
      some (family.set child {})
    else
      none
  | .sleeps proc =>
    let main := family.main proc
    if main.point = .runs ∧ main.queued then
      some (family.set proc { main with point := .asleep, queued := false })
    else
      none
  | .wakeup proc =>
    if (family.main proc).point = .asleep then some (family.wake proc)
    else none
  | .switch proc =>
    let main := family.main proc
    if main.point = .runs ∧ main.queued then
      some
        { family.set proc
            { main with point := .execs, vmspace := some family.nextSpace } with
          nextSpace := family.nextSpace + 1 }
    else
      none
  | .check proc =>
    let main := family.main proc
    if main.point = .execs ∧ main.queued then
      if (family.main main.parent).point.isBlocked then
        some (family.set proc { main with point := .wakes main.parent })
      else
        some (family.set proc { main with point := .runs, woke := true })
    else
      none
  | .ready proc =>
    let main := family.main proc
    match main.point with
    | .wakes target =>
      if ¬ main.queued then none
      else
        let woken := family.main target
        some ((family.set proc { main with point := .queues target }).set target
          { woken with point := woken.point.awaken, queued := false })
    | _ => none
  | .queue proc =>
    let main := family.main proc
    match main.point with
    | .queues target =>
      if ¬ main.queued then none
      else
        some ((family.set proc { main with point := .runs, woke := true }).set
          target { family.main target with queued := true })
    | _ => none
  | .exit proc =>
    let main := family.main proc
    -- `sys_exit` of init panics.
    if main.point = .runs ∧ main.queued ∧ proc ≠ initProc then
      some (family.set proc { main with point := .leaves })
    else
      none
  | .detach proc child =>
    let main := family.main proc
    if main.point = .leaves ∧ main.queued ∧
        (family.main child).parent = proc then
      some (family.set child { family.main child with parent := initProc })
    else
      none
  | .drop proc =>
    let main := family.main proc
    if main.point = .leaves ∧ main.queued then
      some (family.set proc { main with point := .exits, vmspace := none })
    else
      none
  | .die proc =>
    let main := family.main proc
    if main.point = .exits ∧ main.queued then
      let died := family.set proc { main with point := .zombie, woke := true }
      some (if family.ExitWakes proc then died.wake main.parent else died)
    else
      none

/-- A step as a transition. -/
def Step (label : FamilyLabel) (next : Family) : Prop :=
  family.step label = some next

/-- Init runs. -/
def boot : Family where
  main := fun proc =>
    if proc = initProc then
      { point := .runs, vmspace := some 0, queued := true }
    else
      {}
  nextPid := 2
  nextSpace := 1

/-- The parent sleeps in a call that ends with this child. -/
def WaitsForChild (proc : Nat) : Prop :=
  let parent := (family.main (family.main proc).parent).point
  parent = .blocked proc ∨ ∃ pid, parent = .waiting pid ∧ WaitsFor pid proc

/--
`sys_exit` wakes a parent that waits for the child only, and out of a wait
queue a thread comes by a wakeup of that queue only.
-/
structure WakesRightly (label : FamilyLabel) (next : Family) : Prop where
  exit : ∀ proc, label = .die proc →
    family.ExitWakes proc → family.WaitsForChild proc
  asleep : ∀ proc, (family.main proc).point = .asleep →
    (next.main proc).point ≠ .asleep → label = .wakeup proc

/-- A child dies, and its parent sleeps with a `waitpid` of an earlier wait. -/
def StaleWait (label : FamilyLabel) : Prop :=
  ∃ proc, label = .die proc ∧
    let parent := family.main (family.main proc).parent
    parent.point = .asleep ∧ WaitsFor parent.waitpid proc

/-- The process is in the loop of `do_fork` for the child. -/
def InVfork (proc child : Nat) : Prop :=
  (family.main proc).point = .vforks child ∨
    (family.main proc).point = .blocked child

/--
`do_fork` returns when the child has given up the address space, and it is not
suspended when the child has been through its wakeup.
-/
structure VforkExact : Prop where
  returns : ∀ proc child next,
    (family.main proc).point = .vforks child → family.Step (.test proc) next →
    (next.main proc).point = .runs →
      (family.main child).vmspace ≠ (family.main proc).vmspace
  wakes : ∀ proc child,
    family.InVfork proc child → (family.main proc).queued = false →
      (family.main child).woke = false

/--
`sched_wakeup` of `sys_execve` finds the parent blocked as it has been tested,
and no vfork child tests its parent, or dies, while the wakeup of that parent
by another child is under way.
-/
def Timely : FamilyLabel → Prop
  | .ready proc =>
    ∀ target, (family.main proc).point = .wakes target →
      (family.main target).point.isBlocked
  | .check proc | .die proc =>
    let parent := family.main (family.main proc).parent
    parent.point = .vforks proc → parent.queued
  | _ => True

end Family

end Idylla.Kernel
