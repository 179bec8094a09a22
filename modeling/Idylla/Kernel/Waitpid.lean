import Idylla.Lib.Run

namespace Idylla.Kernel

open Idylla.Lib

/-!
# Waiting for children

`sys_fork`, `sys_exit` and `sys_waitpid` on the tree of processes of one CPU.
What runs under disabled preemption is one step; between two steps any other
process may run.  What the calls return is left out.
-/

/-- Where the main thread of a process stands. -/
inductive ProcPhase where
  /-- There is no such process, or no more. -/
  | absent
  | running
  /-- `do_fork` between `proc_spawn` and `list_add`. -/
  | forking (child : Nat)
  /-- The loop of `sys_exit`, with the child whose parent is already init. -/
  | exiting (moved : Option Nat)
  | zombie
  /-- The head of the loop of `sys_waitpid`. -/
  | scanning (pid : Int) (nohang : Bool)
  /-- `sys_waitpid` before `proc_free` of the child. -/
  | reaping (child : Nat)
  /-- `THREAD_STATE_WAITING` with this `waitpid`. -/
  | waiting (pid : Int)
  deriving Repr, DecidableEq

/-- The processes by number. -/
structure ProcTree where
  phase : Nat → ProcPhase
  parent : Nat → Nat
  childsList : Nat → List Nat
  nextPid : Nat

/-- The number of `__init_proc`. -/
def initProc : Nat := 1

/-- `sys_waitpid(pid)` asks for the process. -/
def WaitsFor (pid : Int) (proc : Nat) : Prop :=
  (proc : Int) = pid ∨ pid = -1

instance (pid : Int) (proc : Nat) : Decidable (WaitsFor pid proc) :=
  inferInstanceAs (Decidable ((proc : Int) = pid ∨ pid = -1))

namespace ProcTree

variable (tree : ProcTree)

/-- The phase of one process replaced. -/
def setPhase (proc : Nat) (phase : ProcPhase) : ProcTree :=
  { tree with
    phase := fun other => if other = proc then phase else tree.phase other }

theorem phase_of_setPhase
    {tree : ProcTree} {proc other : Nat} {phase old : ProcPhase}
    (isOld : (tree.setPhase proc phase).phase other = old)
    (differs : phase ≠ old) : tree.phase other = old := by
  simp only [setPhase] at isOld
  split at isOld
  · exact absurd isOld differs
  · exact isOld

/-- `child->parent = parent` -/
def setParent (child parent : Nat) : ProcTree :=
  { tree with
    parent := fun other =>
      if other = child then parent else tree.parent other }

/-- `list_remove(&child->list_siblings)`, from the list that it is in. -/
def listRemove (child : Nat) : ProcTree :=
  { tree with
    childsList := fun proc =>
      (tree.childsList proc).filter fun other => other ≠ child }

/-- `list_add(&proc->childs_list, &child->list_siblings)` -/
def listAdd (proc child : Nat) : ProcTree :=
  let removed := tree.listRemove child
  { removed with
    childsList := fun other =>
      if other = proc then child :: removed.childsList proc
      else removed.childsList other }

/-- `do_fork` up to `proc_spawn`, from which on the child may run. -/
def procSpawn (proc : Nat) : ProcTree :=
  let child := tree.nextPid
  let spawned :=
    ((tree.setParent child proc).setPhase child .running).setPhase proc
      (.forking child)
  { spawned with nextPid := child + 1 }

/-- The first child that `sys_waitpid` finds. -/
def findZombie (proc : Nat) (pid : Int) : Option Nat :=
  (tree.childsList proc).find? fun child =>
    tree.phase child = .zombie ∧ WaitsFor pid child

/-- `sched_wakeup` of a parent that `sys_exit` finds waiting. -/
def wakeParent (proc : Nat) : ProcTree :=
  match tree.phase (tree.parent proc) with
  | .waiting pid =>
    if WaitsFor pid proc then
      tree.setPhase (tree.parent proc) (.scanning pid false)
    else
      tree
  | _ => tree

/-- The loop of `sys_waitpid` up to the end of disabled preemption. -/
def scanChildren (proc : Nat) (pid : Int) (nohang : Bool) : ProcTree :=
  match tree.findZombie proc pid with
  | some child => tree.setPhase proc (.reaping child)
  | none => tree.setPhase proc (if nohang then .running else .waiting pid)

/-- `proc_free` of the child that `sys_waitpid` has found. -/
def procFree (proc child : Nat) : ProcTree :=
  ((tree.listRemove child).setPhase child .absent).setPhase proc .running

end ProcTree

/-- The steps, by the process that takes them. -/
inductive ProcLabel where
  /-- `sys_fork` up to `proc_spawn`. -/
  | fork (proc : Nat)
  /-- `sys_fork` from `list_add` on. -/
  | link (proc : Nat)
  /-- `sys_exit` up to its loop. -/
  | exit (proc : Nat)
  /-- `child->parent = __init_proc` -/
  | detach (proc : Nat)
  /-- `list_add(&__init_proc->childs_list, &child->list_siblings)` -/
  | move (proc : Nat)
  /-- `sys_exit` behind its loop. -/
  | die (proc : Nat)
  /-- `sys_waitpid` up to its loop. -/
  | waitpid (proc : Nat) (pid : Int) (nohang : Bool)
  /-- One turn of the loop of `sys_waitpid`. -/
  | scan (proc : Nat)
  /-- `sys_waitpid` from the end of disabled preemption on. -/
  | reap (proc : Nat)
  deriving Repr, DecidableEq

/-- The tree after a step; nothing where the process is not at that point. -/
def ProcTree.step (tree : ProcTree) : ProcLabel → Option ProcTree
  | .fork proc =>
    if tree.phase proc = .running then some (tree.procSpawn proc) else none
  | .link proc =>
    match tree.phase proc with
    | .forking child =>
      some ((tree.listAdd proc child).setPhase proc .running)
    | _ => none
  | .exit proc =>
    -- `sys_exit` of init panics.
    if tree.phase proc = .running ∧ proc ≠ initProc then
      some (tree.setPhase proc (.exiting none))
    else
      none
  | .detach proc =>
    match tree.phase proc, tree.childsList proc with
    | .exiting none, child :: _ =>
      some
        ((tree.setParent child initProc).setPhase proc (.exiting (some child)))
    | _, _ => none
  | .move proc =>
    match tree.phase proc with
    | .exiting (some child) =>
      some ((tree.listAdd initProc child).setPhase proc (.exiting none))
    | _ => none
  | .die proc =>
    match tree.phase proc, tree.childsList proc with
    | .exiting none, [] =>
      some ((tree.setPhase proc .zombie).wakeParent proc)
    | _, _ => none
  | .waitpid proc pid nohang =>
    if tree.phase proc = .running then
      if tree.childsList proc ≠ [] ∧ (0 < pid ∨ pid = -1) then
        some (tree.setPhase proc (.scanning pid nohang))
      else
        some tree
    else
      none
  | .scan proc =>
    match tree.phase proc with
    | .scanning pid nohang => some (tree.scanChildren proc pid nohang)
    | _ => none
  | .reap proc =>
    match tree.phase proc with
    | .reaping child => some (tree.procFree proc child)
    | _ => none

/-- A step as a transition. -/
def ProcStep (tree : ProcTree) (label : ProcLabel) (next : ProcTree) : Prop :=
  tree.step label = some next

/-- Init runs and has no children. -/
def ProcTree.boot : ProcTree where
  phase := fun proc => if proc = initProc then .running else .absent
  parent := fun _ => 0
  childsList := fun _ => []
  nextPid := initProc + 1

/-- No process waits for a child that is a zombie. -/
def NoneWaitsInVain (tree : ProcTree) : Prop :=
  ∀ proc pid child, tree.phase proc = .waiting pid →
    child ∈ tree.childsList proc →
    tree.phase child = .zombie →
    ¬ WaitsFor pid child

/-- A zombie is moved to init while init waits for it. -/
def ProcTree.movesAwaited (tree : ProcTree) : ProcLabel → Bool
  | .move proc =>
    match tree.phase proc, tree.phase initProc with
    | .exiting (some child), .waiting pid =>
      decide (tree.phase child = .zombie ∧ WaitsFor pid child)
    | _, _ => false
  | _ => false

/-- The step moves no zombie that init waits for. -/
def MovesUnawaited (tree : ProcTree) (label : ProcLabel) : Prop :=
  tree.movesAwaited label = false

/-- What the lists of children, the parents and the phases have in common. -/
structure TreeSound (tree : ProcTree) : Prop where
  unused : ∀ proc, tree.nextPid ≤ proc → tree.phase proc = .absent
  known : ∀ proc child, child ∈ tree.childsList proc → child < tree.nextPid
  one : ∀ proc other child, child ∈ tree.childsList proc →
      child ∈ tree.childsList other → proc = other
  parent : ∀ proc child, child ∈ tree.childsList proc →
      tree.parent child = proc ∨ tree.phase proc = .exiting (some child)
  forking : ∀ proc child, tree.phase proc = .forking child →
      child < tree.nextPid ∧ tree.parent child = proc ∧
        ∀ other, child ∉ tree.childsList other
  exiting : ∀ proc child, tree.phase proc = .exiting (some child) →
      child ∈ tree.childsList proc ∧ tree.parent child = initProc
  reaping : ∀ proc child, tree.phase proc = .reaping child →
      child ∈ tree.childsList proc ∧ tree.phase child = .zombie

namespace TreeSound

variable {tree : ProcTree} {proc child : Nat}

theorem setPhase (sound : TreeSound tree) {phase : ProcPhase}
    (isThere : tree.phase proc ≠ .absent) (alive : tree.phase proc ≠ .zombie)
    (notMoving : ∀ child, tree.phase proc ≠ .exiting (some child))
    (notForking : ∀ child, phase ≠ .forking child)
    (notMoved : ∀ child, phase ≠ .exiting (some child))
    (finds :
      ∀ child, phase = .reaping child →
        child ∈ tree.childsList proc ∧ tree.phase child = .zombie) :
    TreeSound (tree.setPhase proc phase) := by
  obtain ⟨unused, known, one, parent, forking, exiting, reaping⟩ := sound
  constructor <;> simp only [ProcTree.setPhase] <;> grind

theorem procSpawn (sound : TreeSound tree) (runs : tree.phase proc = .running) :
    TreeSound (tree.procSpawn proc) := by
  obtain ⟨unused, known, one, parent, forking, exiting, reaping⟩ := sound
  constructor <;>
    simp only [ProcTree.procSpawn, ProcTree.setPhase, ProcTree.setParent] <;>
    grind

theorem link (sound : TreeSound tree)
    (forks : tree.phase proc = .forking child) :
    TreeSound ((tree.listAdd proc child).setPhase proc .running) := by
  obtain ⟨unused, known, one, parent, forking, exiting, reaping⟩ := sound
  constructor <;>
    simp only [ProcTree.listAdd, ProcTree.setPhase, ProcTree.listRemove] <;>
    grind

section

variable (sound : TreeSound tree)

include sound

theorem detach (exits : tree.phase proc = .exiting none)
    (isChild : child ∈ tree.childsList proc) :
    TreeSound
      ((tree.setParent child initProc).setPhase proc
        (.exiting (some child))) := by
  obtain ⟨unused, known, one, parent, forking, exiting, reaping⟩ := sound
  constructor <;> simp only [ProcTree.setParent, ProcTree.setPhase] <;>
    grind

theorem move (exits : tree.phase proc = .exiting (some child)) :
    TreeSound
      ((tree.listAdd initProc child).setPhase proc (.exiting none)) := by
  obtain ⟨unused, known, one, parent, forking, exiting, reaping⟩ := sound
  constructor <;>
    simp only [ProcTree.listAdd, ProcTree.setPhase, ProcTree.listRemove] <;>
    grind

theorem procFree (reaps : tree.phase proc = .reaping child) :
    TreeSound (tree.procFree proc child) := by
  obtain ⟨unused, known, one, parent, forking, exiting, reaping⟩ := sound
  constructor <;>
    simp only [ProcTree.procFree, ProcTree.setPhase, ProcTree.listRemove] <;>
    grind

theorem becomeZombie (exits : tree.phase proc = .exiting none) :
    TreeSound (tree.setPhase proc .zombie) := by
  obtain ⟨unused, known, one, parent, forking, exiting, reaping⟩ := sound
  constructor <;> simp only [ProcTree.setPhase] <;> grind

theorem wakeParent :
    TreeSound (tree.wakeParent proc) := by
  unfold ProcTree.wakeParent
  split
  next pid waits =>
    split
    · exact sound.setPhase (by simp [waits]) (by simp [waits])
        (by simp [waits]) nofun nofun nofun
    · exact sound
  · exact sound

end

theorem findZombie_some {pid : Int}
    (found : tree.findZombie proc pid = some child) :
    child ∈ tree.childsList proc ∧ tree.phase child = .zombie ∧
      WaitsFor pid child := by
  have isWanted := List.find?_some found
  simp only [decide_eq_true_eq] at isWanted
  exact ⟨List.mem_of_find?_eq_some found, isWanted⟩

theorem findZombie_none {pid : Int} (missing : tree.findZombie proc pid = none)
    (isChild : child ∈ tree.childsList proc)
    (isZombie : tree.phase child = .zombie) : ¬ WaitsFor pid child := by
  have notWanted := List.find?_eq_none.mp missing child isChild
  simp only [decide_eq_true_eq] at notWanted
  exact fun waits => notWanted ⟨isZombie, waits⟩

theorem step (sound : TreeSound tree) {label : ProcLabel} {next : ProcTree}
    (steps : ProcStep tree label next) : TreeSound next := by
  unfold ProcStep ProcTree.step at steps
  cases label with
  | fork proc =>
    simp only at steps
    split at steps
    next runs =>
      cases steps
      exact sound.procSpawn runs
    · cases steps
  | link proc =>
    simp only at steps
    split at steps
    next child forks =>
      cases steps
      exact sound.link forks
    · cases steps
  | exit proc =>
    simp only at steps
    split at steps
    next runs =>
      cases steps
      exact sound.setPhase (by simp [runs]) (by simp [runs])
        (by simp [runs]) nofun nofun nofun
    · cases steps
  | detach proc =>
    simp only at steps
    split at steps
    next child rest exits isFirst =>
      cases steps
      exact sound.detach exits (isFirst ▸ List.mem_cons_self)
    · cases steps
  | move proc =>
    simp only at steps
    split at steps
    next child exits =>
      cases steps
      exact sound.move exits
    · cases steps
  | die proc =>
    simp only at steps
    split at steps
    next exits noChild =>
      cases steps
      exact (sound.becomeZombie exits).wakeParent
    · cases steps
  | waitpid proc pid nohang =>
    simp only at steps
    split at steps
    next runs =>
      split at steps
      · cases steps
        exact sound.setPhase (by simp [runs]) (by simp [runs])
          (by simp [runs]) nofun nofun nofun
      · cases steps
        exact sound
    · cases steps
  | scan proc =>
    simp only at steps
    split at steps
    next pid nohang scans =>
      cases steps
      unfold ProcTree.scanChildren
      split
      next child found =>
        obtain ⟨isChild, isZombie, -⟩ := findZombie_some found
        refine sound.setPhase (by simp [scans]) (by simp [scans])
          (by simp [scans]) nofun nofun fun other isOther => ?_
        cases isOther
        exact ⟨isChild, isZombie⟩
      · refine sound.setPhase (by simp [scans]) (by simp [scans])
          (by simp [scans]) ?_ ?_ ?_ <;>
          cases nohang <;> nofun
    · cases steps
  | reap proc =>
    simp only at steps
    split at steps
    next child reaps =>
      cases steps
      exact sound.procFree reaps
    · cases steps

theorem boot : TreeSound .boot := by
  constructor
  · intro proc unused
    have isOther : proc ≠ initProc := by
      have unused : initProc + 1 ≤ proc := unused
      omega
    exact if_neg isOther
  · exact nofun
  · exact nofun
  · exact nofun
  all_goals
    intro proc child isPhase
    simp only [ProcTree.boot] at isPhase
    split at isPhase <;> cases isPhase

end TreeSound

namespace NoneWaitsInVain

variable {tree next : ProcTree} {proc child : Nat}

variable (none : NoneWaitsInVain tree)

include none

theorem keep
    (waits :
      ∀ proc pid, next.phase proc = .waiting pid →
        tree.phase proc = .waiting pid)
    (zombies : ∀ child, next.phase child = .zombie → tree.phase child = .zombie)
    (lists :
      ∀ proc pid child, next.phase proc = .waiting pid →
        child ∈ next.childsList proc → child ∈ tree.childsList proc) :
    NoneWaitsInVain next := by
  intro proc pid child isWaiting isChild isZombie
  exact none proc pid child (waits proc pid isWaiting)
    (lists proc pid child isWaiting isChild) (zombies child isZombie)

theorem setPhase {phase : ProcPhase} (notWaiting : ∀ pid, phase ≠ .waiting pid)
    (notZombie : phase ≠ .zombie) :
    NoneWaitsInVain (tree.setPhase proc phase) := by
  refine none.keep ?_ ?_ (fun _ _ _ _ isChild => isChild)
  · exact fun other pid isWaiting =>
      ProcTree.phase_of_setPhase isWaiting (notWaiting pid)
  · exact fun other isZombie => ProcTree.phase_of_setPhase isZombie notZombie

theorem procSpawn (proc : Nat) : NoneWaitsInVain (tree.procSpawn proc) := by
  have born : NoneWaitsInVain (tree.setParent tree.nextPid proc) := none
  have runs : NoneWaitsInVain
        ((tree.setParent tree.nextPid proc).setPhase tree.nextPid .running) :=
    born.setPhase nofun nofun
  have spawned : NoneWaitsInVain
        (((tree.setParent tree.nextPid proc).setPhase tree.nextPid
          .running).setPhase proc (.forking tree.nextPid)) :=
    runs.setPhase nofun nofun
  exact spawned

theorem listAdd (notWaiting : ∀ pid, tree.phase proc ≠ .waiting pid) :
    NoneWaitsInVain (tree.listAdd proc child) := by
  refine none.keep (fun _ _ isWaiting => isWaiting)
    (fun _ isZombie => isZombie) ?_
  intro other pid member isWaiting isMember
  simp only [ProcTree.listAdd, ProcTree.listRemove] at isMember
  split at isMember
  next same =>
    subst same
    exact absurd isWaiting (notWaiting pid)
  · exact (List.mem_filter.mp isMember).1

theorem procFree :
    NoneWaitsInVain (tree.procFree proc child) := by
  have removed : NoneWaitsInVain (tree.listRemove child) :=
    none.keep (fun _ _ isWaiting => isWaiting) (fun _ isZombie => isZombie)
      fun _ _ _ _ isMember => (List.mem_filter.mp isMember).1
  have freed :
      NoneWaitsInVain ((tree.listRemove child).setPhase child .absent) :=
    removed.setPhase nofun nofun
  exact freed.setPhase nofun nofun

theorem scanChildren {pid : Int} {nohang : Bool} :
    NoneWaitsInVain (tree.scanChildren proc pid nohang) := by
  unfold ProcTree.scanChildren
  cases found : tree.findZombie proc pid with
  | some child =>
    exact none.setPhase nofun nofun
  | none =>
    cases nohang with
    | true =>
      exact none.setPhase nofun nofun
    | false =>
      intro other waited child isWaiting isChild isZombie
      have stillZombie :
          (tree.setPhase proc (.waiting pid)).phase child = .zombie :=
        isZombie
      have wasZombie : tree.phase child = .zombie :=
        ProcTree.phase_of_setPhase stillZombie nofun
      simp only [ProcTree.setPhase] at isWaiting
      split at isWaiting
      next same =>
        subst same
        cases isWaiting
        exact TreeSound.findZombie_none found isChild wasZombie
      · exact none other waited child isWaiting isChild wasZombie

/--
A process that becomes a zombie wakes its parent, and it is in the list of no
other process that waits.
-/
theorem die (sound : TreeSound tree)
    (exits : tree.phase proc = .exiting .none) :
    NoneWaitsInVain ((tree.setPhase proc .zombie).wakeParent proc) := by
  have others {other : Nat} {pid : Int}
      (isWaiting : tree.phase other = .waiting pid)
      (isChild : proc ∈ tree.childsList other) :
      tree.parent proc = other := by
    rcases sound.parent other proc isChild with isParent | isMoving
    · exact isParent
    · rw [isWaiting] at isMoving
      cases isMoving
  have unlessParent
      (stillUnwanted :
        ∀ pid, tree.phase (tree.parent proc) = .waiting pid →
          ¬ WaitsFor pid proc) :
      NoneWaitsInVain (tree.setPhase proc .zombie) := by
    intro other pid child isWaiting isChild isZombie
    have wasWaiting : tree.phase other = .waiting pid :=
      ProcTree.phase_of_setPhase isWaiting nofun
    by_cases isProc : child = proc
    · subst isProc
      have isParent := others wasWaiting isChild
      exact stillUnwanted pid (isParent ▸ wasWaiting)
    · exact none other pid child wasWaiting isChild
        ((if_neg isProc).symm.trans isZombie)
  have sameParent {pid : Int}
      (isWaiting : tree.phase (tree.parent proc) = .waiting pid) :
      (tree.setPhase proc .zombie).phase (tree.parent proc) = .waiting pid := by
    refine (if_neg fun same => ?_).trans isWaiting
    rw [same, exits] at isWaiting
    cases isWaiting
  unfold ProcTree.wakeParent
  split
  next pid parentWaits =>
    split
    next wanted =>
      intro other waited child isWaiting isChild isZombie
      -- The parent does not wait any more, the others have no new zombie.
      have notParent : other ≠ tree.parent proc := by
        rintro rfl
        cases (if_pos rfl).symm.trans isWaiting
      have stillWaiting :
          (tree.setPhase proc .zombie).phase other = .waiting waited :=
        (if_neg notParent).symm.trans isWaiting
      have wasWaiting : tree.phase other = .waiting waited :=
        ProcTree.phase_of_setPhase stillWaiting nofun
      have notProc : child ≠ proc := by
        rintro rfl
        exact notParent (others wasWaiting isChild).symm
      refine none other waited child wasWaiting isChild ?_
      simp only [ProcTree.setPhase] at isZombie
      split at isZombie
      · cases isZombie
      · exact isZombie
    next unwanted =>
      refine unlessParent fun waited isWaiting => ?_
      cases parentWaits.symm.trans (sameParent isWaiting)
      exact unwanted
  next notWaiting =>
    refine unlessParent fun waited isWaiting => ?_
    exact absurd (sameParent isWaiting) (notWaiting waited)

theorem move_iff (exits : tree.phase proc = .exiting (some child)) :
    NoneWaitsInVain
        ((tree.listAdd initProc child).setPhase proc (.exiting .none)) ↔
      MovesUnawaited tree (.move proc) := by
  have phases {other : Nat}
      (isOther : tree.phase other ≠ .exiting (some child)) :
      ((tree.listAdd initProc child).setPhase proc
        (.exiting .none)).phase other = tree.phase other := by
    refine if_neg ?_
    rintro rfl
    exact isOther exits
  unfold MovesUnawaited ProcTree.movesAwaited
  simp only [exits]
  constructor
  · intro noneNext
    split
    next moved pid isMoved initWaits =>
      cases isMoved
      refine decide_eq_false ?_
      rintro ⟨isZombie, waits⟩
      refine noneNext initProc pid child ?_ ?_ ?_ waits
      · rw [phases (by simp [initWaits]), initWaits]
      · simp [ProcTree.setPhase, ProcTree.listAdd]
      · rw [phases (by simp [isZombie]), isZombie]
    · rfl
  · intro unawaited other pid member isWaiting isMember isZombie
    have wasWaiting : tree.phase other = .waiting pid :=
      ProcTree.phase_of_setPhase isWaiting nofun
    have wasZombie : tree.phase member = .zombie :=
      ProcTree.phase_of_setPhase isZombie nofun
    simp only [ProcTree.setPhase, ProcTree.listAdd, ProcTree.listRemove]
      at isMember
    split at isMember
    next isInit =>
      subst isInit
      rcases List.mem_cons.mp isMember with rfl | before
      · simp only [wasWaiting] at unawaited
        exact fun waits => of_decide_eq_false unawaited ⟨wasZombie, waits⟩
      · exact none _ pid member wasWaiting (List.mem_filter.mp before).1
          wasZombie
    · exact none other pid member wasWaiting
        (List.mem_filter.mp isMember).1 wasZombie

theorem step_iff (sound : TreeSound tree) {label : ProcLabel}
    (steps : ProcStep tree label next) :
    NoneWaitsInVain next ↔ MovesUnawaited tree label := by
  unfold ProcStep ProcTree.step at steps
  cases label with
  | fork proc =>
    simp only at steps
    split at steps
    · cases steps
      exact iff_of_true (none.procSpawn proc) rfl
    · cases steps
  | link proc =>
    simp only at steps
    split at steps
    next child forks =>
      cases steps
      have linked : NoneWaitsInVain (tree.listAdd proc child) :=
        none.listAdd fun pid => by simp [forks]
      exact iff_of_true (linked.setPhase nofun nofun) rfl
    · cases steps
  | exit proc =>
    simp only at steps
    split at steps
    · cases steps
      exact iff_of_true (none.setPhase nofun nofun) rfl
    · cases steps
  | detach proc =>
    simp only at steps
    split at steps
    next child rest exits isFirst =>
      cases steps
      have detached : NoneWaitsInVain (tree.setParent child initProc) := none
      exact iff_of_true (detached.setPhase nofun nofun) rfl
    · cases steps
  | move proc =>
    simp only at steps
    split at steps
    next child exits =>
      cases steps
      exact none.move_iff exits
    · cases steps
  | die proc =>
    simp only at steps
    split at steps
    next exits noChild =>
      cases steps
      exact iff_of_true (none.die sound exits) rfl
    · cases steps
  | waitpid proc pid nohang =>
    simp only at steps
    split at steps
    · split at steps
      · cases steps
        exact iff_of_true (none.setPhase nofun nofun) rfl
      · cases steps
        exact iff_of_true none rfl
    · cases steps
  | scan proc =>
    simp only at steps
    split at steps
    · cases steps
      exact iff_of_true none.scanChildren rfl
    · cases steps
  | reap proc =>
    simp only at steps
    split at steps
    · cases steps
      exact iff_of_true none.procFree rfl
    · cases steps

end NoneWaitsInVain

/--
In every run in which no zombie is moved to init while init waits for it,
nobody waits in vain; and from what such a run reaches, only such a move makes
somebody wait in vain.
-/
theorem none_waits_in_vain {labels : List ProcLabel} {tree : ProcTree}
    (ran : Run (Guarded MovesUnawaited ProcStep) .boot labels tree) :
    NoneWaitsInVain tree ∧
      ∀ label next, ProcStep tree label next →
        (NoneWaitsInVain next ↔ MovesUnawaited tree label) := by
  have kept :=
    ran.invariant (fun _ tree => TreeSound tree ∧ NoneWaitsInVain tree)
      ⟨.boot, nofun⟩ (by
        rintro past source label target ⟨sound, none⟩ ⟨unawaited, steps⟩
        exact ⟨sound.step steps, (none.step_iff sound steps).mpr unawaited⟩)
  exact ⟨kept.2, fun label next steps => kept.2.step_iff kept.1 steps⟩

/-- Init forks the process 2, which forks 3. -/
def twoForks : List ProcLabel :=
  [.fork 1, .link 1, .fork 2, .link 2]

/-- The process 2 exits up to the end of its loop, in which 3 is moved. -/
def exitOfParent : List ProcLabel :=
  [.exit 2, .detach 2, .move 2]

/-- Init waits for any child, and 2 exits while 3 runs. -/
def runningChildMoved : List ProcLabel :=
  twoForks ++ [.waitpid 1 (-1) false, .scan 1] ++ exitOfParent

/-- The process 3 runs on as a child of init, which waits. -/
theorem running_child_moved :
    ∃ tree,
      NoneWaitsInVain tree ∧ tree.phase initProc = .waiting (-1) ∧
        tree.childsList initProc = [3, 2] := by
  have reaches :
      (follow
        (fun (tree : ProcTree) label =>
          if tree.movesAwaited label then none else tree.step label)
        runningChildMoved .boot).isSome := by
    decide
  obtain ⟨tree, isReached⟩ := Option.isSome_iff_exists.mp reaches
  have ran :
      Run (Guarded MovesUnawaited ProcStep) .boot runningChildMoved tree := by
    refine .of_follow (fun source label target steps => ?_) isReached
    split at steps
    · cases steps
    next unawaited => exact ⟨Bool.eq_false_iff.mpr unawaited, steps⟩
  have none := (none_waits_in_vain ran).1
  cases isReached
  exact ⟨_, none, rfl, rfl⟩

/--
The process 3 exits, init waits for it, and the process 2 exits: 3 gets into
the list of init, which nobody wakes.
-/
theorem moved_zombie_waited_in_vain :
    ¬ ∀ labels tree, Run ProcStep .boot labels tree → NoneWaitsInVain tree := by
  intro none
  have reaches :
      (follow ProcTree.step
        (twoForks ++ [.exit 3, .die 3, .waitpid 1 3 false, .scan 1] ++
          exitOfParent ++ [.die 2])
        .boot).isSome := by
    decide
  obtain ⟨tree, isReached⟩ := Option.isSome_iff_exists.mp reaches
  have ran : Run ProcStep .boot _ tree :=
    .of_follow (fun _ _ _ steps => steps) isReached
  have inVain := none _ tree ran 1 3 3
  cases isReached
  exact inVain rfl (List.mem_cons_self) rfl (.inl rfl)

end Idylla.Kernel
