import Idylla.Kernel.Wait
import Idylla.Lib.Counting
import Idylla.Lib.Run

namespace Idylla.Kernel

/-!
# Locks for readers and writers

The six calls of any number of threads on one `struct rwlock`.  A step runs one
section of a call: from taking the spinlock until the call returns or goes to
sleep.  The counters are unbounded: an `int` counts more threads than there can
be.
-/

/-- `struct rwlock`, less its spinlock. -/
structure Rwlock where
  active : Int
  wrCount : Int
  rdCount : Int
  wrWait : List Nat
  rdWait : List Nat

/-- `rwlock_init` -/
def rwlockInit : Rwlock where
  active := 0
  wrCount := 0
  rdCount := 0
  wrWait := []
  rdWait := []

/-- `wait_sleep(&rw->rd_wait, &rw->lock)` -/
def Rwlock.sleepShared (rw : Rwlock) (thread : Nat) : Rwlock :=
  { rw with rdWait := waitSleep rw.rdWait thread }

/-- `wait_sleep(&rw->wr_wait, &rw->lock)` -/
def Rwlock.sleepExclusive (rw : Rwlock) (thread : Nat) : Rwlock :=
  { rw with wrWait := waitSleep rw.wrWait thread }

/-- The loop of `rwlock_lock_shared` and what follows it. -/
def sharedLoop (rw : Rwlock) (thread : Nat) : Rwlock × Bool :=
  if rw.active < 0 then
    (rw.sleepShared thread, false)
  else
    ({ rw with active := rw.active + 1, rdCount := rw.rdCount - 1 }, true)

/-- `rwlock_lock_shared`, with whether the call returns. -/
def rwlockLockShared (rw : Rwlock) (thread : Nat) : Rwlock × Bool :=
  let rw := { rw with rdCount := rw.rdCount + 1 }
  if 0 < rw.wrCount then
    (rw.sleepShared thread, false)
  else
    sharedLoop rw thread

/-- `rwlock_unlock_shared` -/
def rwlockUnlockShared (rw : Rwlock) : Rwlock :=
  let rw := { rw with active := rw.active - 1 }
  if rw.active = 0 then
    { rw with wrWait := waitWakeup rw.wrWait }
  else
    rw

/-- The loop of `rwlock_lock_exclusive` and what follows it. -/
def exclusiveLoop (rw : Rwlock) (thread : Nat) : Rwlock × Bool :=
  if rw.active ≠ 0 then
    (rw.sleepExclusive thread, false)
  else
    ({ rw with wrCount := rw.wrCount - 1, active := -1 }, true)

/-- `rwlock_lock_exclusive`, with whether the call returns. -/
def rwlockLockExclusive (rw : Rwlock) (thread : Nat) : Rwlock × Bool :=
  exclusiveLoop { rw with wrCount := rw.wrCount + 1 } thread

/-- `rwlock_unlock_exclusive` -/
def rwlockUnlockExclusive (rw : Rwlock) : Rwlock :=
  let rw := { rw with active := 0 }
  if 0 < rw.rdCount then
    { rw with rdWait := waitWakeupAll rw.rdWait }
  else
    { rw with wrWait := waitWakeup rw.wrWait }

/-- `rwlock_upgrade`, with whether the call returns. -/
def rwlockUpgrade (rw : Rwlock) (thread : Nat) : Rwlock × Bool :=
  if rw.active = 1 then
    ({ rw with active := -1 }, true)
  else
    exclusiveLoop
      { rw with wrCount := rw.wrCount + 1, active := rw.active - 1 } thread

/-- `rwlock_downgrade` -/
def rwlockDowngrade (rw : Rwlock) : Rwlock :=
  { rw with active := 1, rdWait := waitWakeupAll rw.rdWait }

/-- The calls in which a thread may go to sleep. -/
inductive RwAcquire where
  | shared
  | exclusive
  | upgrade
  deriving Repr, DecidableEq

/--
How often a thread holds the lock in each mode, and the call that it is
inside of.
-/
structure RwThread where
  shared : Nat
  exclusive : Bool
  acquires : Option RwAcquire

/-- Holds the lock exclusively. -/
def RwThread.HoldsExclusive (state : RwThread) : Prop :=
  state.exclusive = true

/-- Inside of a shared acquisition. -/
def RwThread.Reads (state : RwThread) : Prop :=
  state.acquires = some .shared

/-- Inside of an exclusive acquisition or an upgrade. -/
def RwThread.Writes (state : RwThread) : Prop :=
  state.acquires = some .exclusive ∨ state.acquires = some .upgrade

/-- A lock with its threads. -/
structure RwSystem where
  rw : Rwlock
  threads : Nat → RwThread

namespace RwSystem

/-- A lock that nobody has used. -/
def init : RwSystem where
  rw := rwlockInit
  threads := fun _ => { shared := 0, exclusive := false, acquires := none }

/-- The lock and the state of one thread replaced. -/
def set (system : RwSystem) (rw : Rwlock) (thread : Nat)
    (state : RwThread) : RwSystem where
  rw := rw
  threads := fun other =>
    if other = thread then state else system.threads other

/-- A section of a shared acquisition has ended. -/
def endShared (system : RwSystem) (thread : Nat)
    (ended : Rwlock × Bool) : RwSystem :=
  let state := system.threads thread
  system.set ended.1 thread
    (if ended.2 then
      { state with shared := state.shared + 1, acquires := none }
    else
      { state with acquires := some .shared })

/-- A section of an exclusive acquisition or an upgrade has ended. -/
def endExclusive (system : RwSystem) (thread : Nat) (call : RwAcquire)
    (ended : Rwlock × Bool) : RwSystem :=
  let state := system.threads thread
  system.set ended.1 thread
    (if ended.2 then
      { state with exclusive := true, acquires := none }
    else
      { state with acquires := some call })

/-- A thread gives up one shared hold. -/
def dropShared (system : RwSystem) (thread : Nat) : RwSystem :=
  let state := system.threads thread
  system.set system.rw thread { state with shared := state.shared - 1 }

/-- A thread gives up its exclusive hold. -/
def dropExclusive (system : RwSystem) (thread : Nat) : RwSystem :=
  let state := system.threads thread
  system.set system.rw thread { state with exclusive := false }

/-- A thread is asleep in a call on the lock. -/
def Asleep (system : RwSystem) (thread : Nat) : Prop :=
  thread ∈ system.rw.rdWait ∨ thread ∈ system.rw.wrWait

/-- A thread is inside of a call on the lock, and has been woken. -/
def Runnable (system : RwSystem) (thread : Nat) : Prop :=
  Awake (fun thread => (system.threads thread).Reads) system.rw.rdWait thread ∨
    Awake (fun thread => (system.threads thread).Writes) system.rw.wrWait thread

end RwSystem

/-- The calls, and a thread that has been woken and goes on in one. -/
inductive RwCall where
  | lockShared (thread : Nat)
  | unlockShared (thread : Nat)
  | lockExclusive (thread : Nat)
  | unlockExclusive (thread : Nat)
  | upgrade (thread : Nat)
  | downgrade (thread : Nat)
  | resume (thread : Nat)

/-- One section as a transition; only a holder in the mode gives it up. -/
inductive RwStep : RwSystem → RwCall → RwSystem → Prop where
  | lockShared {system : RwSystem} {thread : Nat}
      (outside : (system.threads thread).acquires = none) :
      RwStep system (.lockShared thread)
        (system.endShared thread (rwlockLockShared system.rw thread))
  | unlockShared {system : RwSystem} {thread : Nat}
      (outside : (system.threads thread).acquires = none)
      (holds : 0 < (system.threads thread).shared) :
      RwStep system (.unlockShared thread)
        { system.dropShared thread with rw := rwlockUnlockShared system.rw }
  | lockExclusive {system : RwSystem} {thread : Nat}
      (outside : (system.threads thread).acquires = none) :
      RwStep system (.lockExclusive thread)
        (system.endExclusive thread .exclusive
          (rwlockLockExclusive system.rw thread))
  | unlockExclusive {system : RwSystem} {thread : Nat}
      (outside : (system.threads thread).acquires = none)
      (holds : (system.threads thread).exclusive = true) :
      RwStep system (.unlockExclusive thread)
        { system.dropExclusive thread with
          rw := rwlockUnlockExclusive system.rw }
  | upgrade {system : RwSystem} {thread : Nat}
      (outside : (system.threads thread).acquires = none)
      (holds : 0 < (system.threads thread).shared) :
      RwStep system (.upgrade thread)
        ((system.dropShared thread).endExclusive thread .upgrade
          (rwlockUpgrade system.rw thread))
  | downgrade {system : RwSystem} {thread : Nat}
      (outside : (system.threads thread).acquires = none)
      (holds : (system.threads thread).exclusive = true) :
      RwStep system (.downgrade thread)
        ((system.dropExclusive thread).endShared thread
          (rwlockDowngrade system.rw, true))
  | resumeShared {system : RwSystem} {thread : Nat}
      (inside : (system.threads thread).Reads)
      (woken : thread ∉ system.rw.rdWait) :
      RwStep system (.resume thread)
        (system.endShared thread (sharedLoop system.rw thread))
  | resumeExclusive {system : RwSystem} {thread : Nat} {call : RwAcquire}
      (inside : (system.threads thread).Writes)
      (isCall : (system.threads thread).acquires = some call)
      (woken : thread ∉ system.rw.wrWait) :
      RwStep system (.resume thread)
        (system.endExclusive thread call (exclusiveLoop system.rw thread))

end Idylla.Kernel
