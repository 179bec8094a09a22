import Idylla.Errno
import Idylla.Kernel.Waitpid

namespace Idylla.Kernel

open Idylla.Lib

/-!
# What a call of waitpid ends with

`sys_waitpid` with its return values.  Whether there is a child at all is asked
once, in front of the loop, and whether one of them has the number that is
waited for is never asked.
-/

/-- How a call of `sys_waitpid` leaves the processor, and the tree then. -/
inductive WaitpidEnds where
  | returned (result : Except Errno Nat) (tree : ProcTree)
  | suspended (tree : ProcTree)

def WaitpidEnds.tree : WaitpidEnds → ProcTree
  | .returned _ tree => tree
  | .suspended tree => tree

/-- One turn of the loop of `sys_waitpid`. -/
def waitpidTurn (tree : ProcTree) (proc : Nat) (pid : Int)
    (nohang : Bool) : WaitpidEnds :=
  match tree.findZombie proc pid with
  | some child =>
    .returned (.ok child)
      ((tree.setPhase proc (.reaping child)).procFree proc child)
  | none =>
    if nohang then
      .returned (.error .EAGAIN) (tree.setPhase proc .running)
    else
      .suspended (tree.setPhase proc (.waiting pid))

/-- `sys_waitpid` up to where it returns or is suspended for the first time. -/
def sysWaitpid (tree : ProcTree) (proc : Nat) (pid : Int)
    (nohang : Bool) : WaitpidEnds :=
  if tree.childsList proc = [] then
    .returned (.error .EAGAIN) tree
  else if 0 < pid ∨ pid = -1 then
    waitpidTurn (tree.setPhase proc (.scanning pid nohang)) proc pid nohang
  else
    .returned (.error .ENOSYS) tree

/--
The caller is suspended only for a living child that it waits for, and the
number returned is that of a matching zombie, which is in no list any more.
-/
def WaitpidEnds.Rightly (tree : ProcTree) (proc : Nat)
    (pid : Int) : WaitpidEnds → Prop
  | .suspended _ =>
    ∃ child ∈ tree.childsList proc,
      tree.phase child ≠ .zombie ∧ WaitsFor pid child
  | .returned (.ok child) after =>
    child ∈ tree.childsList proc ∧ tree.phase child = .zombie ∧
      WaitsFor pid child ∧ after.phase child = .absent ∧
      ∀ other, child ∉ after.childsList other
  | .returned (.error _) _ => True

/-- Some child has the number, or any will do. -/
def ProcTree.HasChild (tree : ProcTree) (proc : Nat) (pid : Int) : Prop :=
  ∃ child ∈ tree.childsList proc, WaitsFor pid child

section Ends

variable {tree : ProcTree} {proc : Nat}

theorem phase_zombie_iff {phase : ProcPhase} {child : Nat}
    (alive : tree.phase proc ≠ .zombie) (notZombie : phase ≠ .zombie) :
    (tree.setPhase proc phase).phase child = .zombie ↔
      tree.phase child = .zombie := by
  unfold ProcTree.setPhase
  dsimp only
  split
  next same =>
    rw [same]
    exact iff_of_false notZombie alive
  · rfl

theorem waitpidTurn_rightly_iff (alive : tree.phase proc ≠ .zombie) (pid : Int)
    (nohang : Bool) :
    (waitpidTurn tree proc pid nohang).Rightly tree proc pid ↔
      nohang = true ∨ tree.HasChild proc pid := by
  unfold waitpidTurn
  cases found : tree.findZombie proc pid with
  | some child =>
    obtain ⟨isChild, isZombie, waits⟩ := TreeSound.findZombie_some found
    have isOther : child ≠ proc := by
      rintro rfl
      exact alive isZombie
    refine iff_of_true ⟨isChild, isZombie, waits, ?_, fun other => ?_⟩
      (.inr ⟨child, isChild, waits⟩)
    · simp [ProcTree.procFree, ProcTree.setPhase, isOther]
    · simp [ProcTree.procFree, ProcTree.setPhase, ProcTree.listRemove]
  | none =>
    cases nohang with
    | true =>
      exact iff_of_true trivial (.inl rfl)
    | false =>
      refine ⟨?_, ?_⟩
      · rintro ⟨child, isChild, -, waits⟩
        exact .inr ⟨child, isChild, waits⟩
      · rintro (impossible | ⟨child, isChild, waits⟩)
        · cases impossible
        · exact ⟨child, isChild,
            fun isZombie =>
              TreeSound.findZombie_none found isChild isZombie waits,
            waits⟩

theorem rightly_setPhase_iff {phase : ProcPhase} {pid : Int}
    (ends : WaitpidEnds) (alive : tree.phase proc ≠ .zombie)
    (notZombie : phase ≠ .zombie) :
    ends.Rightly (tree.setPhase proc phase) proc pid ↔
      ends.Rightly tree proc pid := by
  cases ends with
  | suspended after =>
    simp only [WaitpidEnds.Rightly, ne_eq, phase_zombie_iff alive notZombie]
    rfl
  | returned result after =>
    cases result with
    | ok child =>
      simp only [WaitpidEnds.Rightly, phase_zombie_iff alive notZombie]
      rfl
    | error errno =>
      rfl

end Ends

/--
A call suspends its caller for nobody, or returns a wrong number, exactly if
the caller has children, waits without `WNOHANG` for a positive number, and
none of them has it.  A later turn of the loop asks for no child at all.
-/
theorem sysWaitpid_rightly_iff {tree : ProcTree} {proc : Nat}
    (alive : tree.phase proc ≠ .zombie) (pid : Int) (nohang : Bool) :
    ((sysWaitpid tree proc pid nohang).Rightly tree proc pid ↔
      (0 < pid → tree.childsList proc ≠ [] →
        nohang = true ∨ tree.HasChild proc pid)) ∧
    ((waitpidTurn tree proc pid nohang).Rightly tree proc pid ↔
      nohang = true ∨ tree.HasChild proc pid) := by
  refine ⟨?_, waitpidTurn_rightly_iff alive pid nohang⟩
  unfold sysWaitpid
  split
  next isEmpty =>
    exact iff_of_true trivial fun _ nonempty => absurd isEmpty nonempty
  next nonempty =>
    split
    next isPid =>
      have notZombie : ProcPhase.scanning pid nohang ≠ .zombie := by simp
      have stillAlive := mt (phase_zombie_iff alive notZombie).mp alive
      refine (rightly_setPhase_iff _ alive notZombie).symm.trans ?_
      refine (waitpidTurn_rightly_iff stillAlive pid nohang).trans ?_
      refine ⟨fun right _ _ => right, fun right => ?_⟩
      rcases isPid with positive | isAny
      · exact right positive nonempty
      · obtain ⟨child, isChild⟩ := List.exists_mem_of_ne_nil _ nonempty
        exact .inr ⟨child, isChild, .inr isAny⟩
    next notPid =>
      exact iff_of_true trivial fun positive => absurd (.inl positive) notPid

/-- Init with the child 2, which runs. -/
def oneChild : ProcTree where
  phase := fun proc => if proc = 1 ∨ proc = 2 then .running else .absent
  parent := fun proc => if proc = 2 then 1 else 0
  childsList := fun proc => if proc = 1 then [2] else []
  nextPid := 3

/-- A wait for the child is for somebody. -/
theorem waitpid_child_rightly :
    oneChild.phase 1 ≠ .zombie ∧
      (sysWaitpid oneChild 1 2 false).Rightly oneChild 1 2 :=
  ⟨by decide, (sysWaitpid_rightly_iff (by decide) 2 false).1.mpr
    fun _ _ => .inr ⟨2, by decide, by decide⟩⟩

/-- A wait for the process 3, which does not exist. -/
theorem waitpid_nobody :
    ¬ ∀ (tree : ProcTree) (proc : Nat) (pid : Int) (nohang : Bool),
      tree.phase proc = .running →
      (sysWaitpid tree proc pid nohang).Rightly tree proc pid := by
  intro rightly
  obtain ⟨child, isChild, -, waits⟩ := rightly oneChild 1 3 false rfl
  cases List.mem_singleton.mp isChild
  revert waits
  decide

end Idylla.Kernel
