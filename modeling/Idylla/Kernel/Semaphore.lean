import Mathlib.Algebra.Group.Int.Defs
import Mathlib.Algebra.Group.Nat.Defs
import Idylla.Kernel.Wait
import Idylla.Lib.Counting
import Idylla.Lib.Run

namespace Idylla.Kernel

open Idylla.Lib

/-!
# Semaphores and mutexes

The calls of any number of threads on one semaphore and on one mutex.  A step
runs one section of a call: from taking the spinlock until the call returns or
goes to sleep.
-/

/-- `struct sem`, less its spinlock. -/
structure Sem where
  value : Int
  wait : List Nat

/-- `sem_init` -/
def semInit (val : Int) : Sem where
  value := val
  wait := []

/-- The largest value of an `int`. -/
def INT_MAX : Int := 2 ^ 31 - 1

/-- A section of `sem_acquire`, with whether the call returns. -/
def semAcquire (sem : Sem) (thread : Nat) : Sem × Bool :=
  if sem.value ≤ 0 then
    ({ sem with wait := waitSleep sem.wait thread }, false)
  else
    ({ sem with value := sem.value - 1 }, true)

/-- `sem_release`; `none` where `sem->value++` overflows. -/
def semRelease (sem : Sem) : Option Sem :=
  if sem.value = INT_MAX then
    none
  else
    let sem := { sem with value := sem.value + 1 }
    some (if 0 < sem.value then { sem with wait := waitWakeup sem.wait }
      else sem)

/--
A semaphore with the threads inside of `sem_acquire`, and how often each of
the calls has returned.
-/
structure SemSystem where
  sem : Sem
  acquires : Nat → Bool
  acquired : Nat
  released : Nat

namespace SemSystem

/-- A semaphore that nobody has used. -/
def init (val : Int) : SemSystem where
  sem := semInit val
  acquires := fun _ => false
  acquired := 0
  released := 0

/-- The system after a section of a thread's `sem_acquire`. -/
def acquire (system : SemSystem) (thread : Nat) : SemSystem :=
  let (sem, returns) := semAcquire system.sem thread
  { system with
    sem := sem
    acquires := fun other =>
      if other = thread then !returns else system.acquires other
    acquired := if returns then system.acquired + 1 else system.acquired }

/-- A thread inside of `sem_acquire` is asleep. -/
def Asleep (system : SemSystem) (thread : Nat) : Prop :=
  thread ∈ system.sem.wait

/-- A thread has been woken and has not tested the value again. -/
def Woken (system : SemSystem) (thread : Nat) : Prop :=
  Awake (fun thread => system.acquires thread = true) system.sem.wait thread

end SemSystem

/-- The sections: a call begins, or a thread that has been woken goes on. -/
inductive SemCall where
  | acquire (thread : Nat)
  | resume (thread : Nat)
  | release

/-- One section as a transition. -/
inductive SemStep : SemSystem → SemCall → SemSystem → Prop where
  | acquire {system : SemSystem} {thread : Nat}
      (outside : system.acquires thread = false) :
      SemStep system (.acquire thread) (system.acquire thread)
  | resume {system : SemSystem} {thread : Nat}
      (woken : system.Woken thread) :
      SemStep system (.resume thread) (system.acquire thread)
  | release {system : SemSystem} {sem : Sem}
      (runs : semRelease system.sem = some sem) :
      SemStep system .release
        { system with sem := sem, released := system.released + 1 }

/--
What the sections keep: permits are conserved, and while threads sleep at
least as many have been woken as there are permits.
-/
structure SemSound (val : Nat) (system : SemSystem) : Prop where
  notNegative : 0 ≤ system.sem.value
  conserved : system.sem.value + system.acquired = val + system.released
  sleepers :
    Sleepers (fun thread => system.acquires thread = true) system.sem.wait
  woken : ∃ count, HasCount system.Woken count ∧
      (system.sem.wait ≠ [] → system.sem.value ≤ count)

namespace SemSound

variable {val : Nat} {system : SemSystem} {thread : Nat}

theorem init : SemSound val (.init val) where
  notNegative := Int.natCast_nonneg val
  conserved := rfl
  sleepers := .nil
  woken := by
    refine ⟨0, hasCount_zero_iff.mpr fun thread woken => ?_, fun sleeps => ?_⟩
    · cases woken.1
    · exact absurd rfl sleeps

theorem acquire (sound : SemSound val system)
    (runs : thread ∉ system.sem.wait) :
    SemSound val (system.acquire thread) := by
  obtain ⟨count, counted, enough⟩ := sound.woken
  by_cases noPermit : system.sem.value ≤ 0
  · have sleeps : system.acquire thread =
          { system with
            sem := { system.sem with wait := waitSleep system.sem.wait thread }
            acquires := fun other =>
              if other = thread then true else system.acquires other } := by
      simp [SemSystem.acquire, semAcquire, noPermit]
    have same (other : Nat) (different : other ≠ thread) :
        (if other = thread then true else system.acquires other) = true ↔
          system.acquires other = true := by
      rw [if_neg different]
    obtain ⟨left, isLeft, -⟩ := counted.remove (awake_sleep same)
    rw [sleeps]
    refine ⟨sound.notNegative, sound.conserved,
      sound.sleepers.sleep runs (if_pos rfl) same, left, isLeft, fun _ => ?_⟩
    exact Int.le_trans noPermit (Int.natCast_nonneg left)
  · have returns : system.acquire thread =
          { system with
            sem := { system.sem with value := system.sem.value - 1 }
            acquires := fun other =>
              if other = thread then false else system.acquires other
            acquired := system.acquired + 1 } := by
      simp [SemSystem.acquire, semAcquire, noPermit]
    have same (other : Nat) (different : other ≠ thread) :
        (if other = thread then false else system.acquires other) = true ↔
          system.acquires other = true := by
      rw [if_neg different]
    obtain ⟨left, isLeft, counts⟩ := counted.remove (awake_leave (by simp) same)
    have conserved := sound.conserved
    rw [returns]
    refine ⟨?_, ?_, sound.sleepers.leave runs same, left, isLeft,
      fun sleeps => ?_⟩
    · dsimp only
      omega
    · dsimp only
      omega
    · have enough := enough sleeps
      dsimp only
      omega

theorem release (sound : SemSound val system) {sem : Sem}
    (runs : semRelease system.sem = some sem) :
    SemSound val
      { system with sem := sem, released := system.released + 1 } := by
  have notNegative := sound.notNegative
  have conserved := sound.conserved
  unfold semRelease at runs
  split at runs
  · cases runs
  dsimp only at runs
  rw [if_pos (by omega)] at runs
  obtain rfl := Option.some.inj runs
  refine ⟨?_, ?_, sound.sleepers.wakeup, ?_⟩
  · dsimp only
    omega
  · dsimp only
    omega
  · obtain ⟨count, counted, enough⟩ := sound.woken
    cases isQueue : system.sem.wait with
    | nil =>
      refine ⟨count, counted.congr fun other => ?_, fun sleeps => ?_⟩
      · unfold SemSystem.Woken
        rw [isQueue]
        rfl
      · exact absurd rfl sleeps
    | cons first behind =>
      have sleepers := sound.sleepers
      rw [isQueue] at sleepers
      have asleep : ¬ system.Woken first := fun woken =>
        woken.2 (by rw [isQueue]; exact List.mem_cons_self)
      refine ⟨count + 1, counted.insert asleep fun other => ?_, fun _ => ?_⟩
      · unfold SemSystem.Woken
        rw [isQueue]
        exact sleepers.awake_wakeup other
      · have enough := enough (by rw [isQueue]; exact List.cons_ne_nil _ _)
        dsimp only
        omega

theorem step (sound : SemSound val system) {call : SemCall} {next : SemSystem}
    (called : SemStep system call next) : SemSound val next := by
  cases called with
  | acquire outside =>
    refine sound.acquire fun sleeps => ?_
    have inside := sound.sleepers.inside _ sleeps
    rw [outside] at inside
    cases inside
  | resume woken =>
    exact sound.acquire woken.2
  | release runs =>
    exact sound.release runs

end SemSound

/-- `struct mutex`, less its spinlock. -/
structure Mutex where
  locked : Int
  wait : List Nat

/-- `mutex_init` -/
def mutexInit : Mutex where
  locked := 0
  wait := []

/-- A section of `mutex_lock`, with whether the call returns. -/
def mutexLock (mutex : Mutex) (thread : Nat) : Mutex × Bool :=
  if mutex.locked ≠ 0 then
    ({ mutex with wait := waitSleep mutex.wait thread }, false)
  else
    ({ mutex with locked := 1 }, true)

/-- `mutex_unlock` -/
def mutexUnlock (mutex : Mutex) : Mutex where
  locked := 0
  wait := waitWakeup mutex.wait

/-- A mutex with the threads inside of `mutex_lock` and those that hold it. -/
structure MutexSystem where
  mutex : Mutex
  locks : Nat → Bool
  holds : Nat → Bool

namespace MutexSystem

/-- A mutex that nobody has used. -/
def init : MutexSystem where
  mutex := mutexInit
  locks := fun _ => false
  holds := fun _ => false

/-- The system after a section of a thread's `mutex_lock`. -/
def lock (system : MutexSystem) (thread : Nat) : MutexSystem :=
  let (mutex, returns) := mutexLock system.mutex thread
  { mutex := mutex
    locks := fun other =>
      if other = thread then !returns else system.locks other
    holds := fun other =>
      if other = thread then returns || system.holds thread
      else system.holds other }

/-- The system after a thread's `mutex_unlock`. -/
def unlock (system : MutexSystem) (thread : Nat) : MutexSystem :=
  { system with
    mutex := mutexUnlock system.mutex
    holds := fun other =>
      if other = thread then false else system.holds other }

/-- A thread inside of `mutex_lock` is asleep. -/
def Asleep (system : MutexSystem) (thread : Nat) : Prop :=
  thread ∈ system.mutex.wait

/-- A thread has been woken and has not tested the mutex again. -/
def Woken (system : MutexSystem) (thread : Nat) : Prop :=
  Awake (fun thread => system.locks thread = true) system.mutex.wait thread

end MutexSystem

/-- The sections of the calls on a mutex. -/
inductive MutexCall where
  | lock (thread : Nat)
  | resume (thread : Nat)
  | unlock (thread : Nat)

/-- One section as a transition; only a holder unlocks. -/
inductive MutexStep : MutexSystem → MutexCall → MutexSystem → Prop where
  | lock {system : MutexSystem} {thread : Nat}
      (outside : system.locks thread = false) :
      MutexStep system (.lock thread) (system.lock thread)
  | resume {system : MutexSystem} {thread : Nat}
      (woken : system.Woken thread) :
      MutexStep system (.resume thread) (system.lock thread)
  | unlock {system : MutexSystem} {thread : Nat}
      (outside : system.locks thread = false)
      (holds : system.holds thread = true) :
      MutexStep system (.unlock thread) (system.unlock thread)

/-- What the sections keep. -/
structure MutexSound (system : MutexSystem) : Prop where
  holders : ∃ count : Nat, system.mutex.locked = count ∧ count ≤ 1 ∧
      HasCount (fun thread => system.holds thread = true) count
  sleepers :
    Sleepers (fun thread => system.locks thread = true) system.mutex.wait
  woken : system.mutex.locked = 0 → system.mutex.wait ≠ [] →
      ∃ thread, system.Woken thread

namespace MutexSound

variable {system : MutexSystem} {thread : Nat}

theorem init : MutexSound .init where
  holders :=
    ⟨0, rfl, Nat.zero_le 1, hasCount_zero_iff.mpr fun _ holds => by
      cases holds⟩
  sleepers := .nil
  woken := fun _ sleeps => absurd rfl sleeps

theorem lock (sound : MutexSound system) (runs : thread ∉ system.mutex.wait) :
    MutexSound (system.lock thread) := by
  obtain ⟨count, isLocked, atMostOne, counted⟩ := sound.holders
  by_cases free : system.mutex.locked = 0
  · have returns : system.lock thread =
          { mutex := { system.mutex with locked := 1 }
            locks := fun other =>
              if other = thread then false else system.locks other
            holds := fun other =>
              if other = thread then true else system.holds other } := by
      simp [MutexSystem.lock, mutexLock, free]
    have nobody : count = 0 := by omega
    subst nobody
    rw [returns]
    refine ⟨⟨1, rfl, Nat.le_refl 1, ?_⟩, ?_, fun taken => by cases taken⟩
    · refine counted.insert (hasCount_zero_iff.mp counted thread)
        fun other => ?_
      by_cases isThread : other = thread <;> simp [isThread]
    · refine sound.sleepers.leave runs fun other different => ?_
      simp [different]
  · have sleeps : system.lock thread =
          { system with
            mutex :=
              { system.mutex with wait := waitSleep system.mutex.wait thread }
            locks := fun other =>
              if other = thread then true else system.locks other } := by
      have same :
          (fun other =>
            if other = thread then system.holds thread
            else system.holds other) = system.holds := by
        funext other
        by_cases isThread : other = thread <;> simp [isThread]
      simp [MutexSystem.lock, mutexLock, free, same]
    rw [sleeps]
    refine ⟨⟨count, isLocked, atMostOne, counted⟩, ?_,
      fun isFree => absurd isFree free⟩
    refine sound.sleepers.sleep runs (if_pos rfl) fun other different => ?_
    dsimp only
    rw [if_neg different]

theorem unlock (sound : MutexSound system)
    (holds : system.holds thread = true) :
    MutexSound (system.unlock thread) := by
  obtain ⟨count, isLocked, atMostOne, counted⟩ := sound.holders
  have isOne : count = 0 + 1 := by
    have := counted.pos holds
    omega
  subst isOne
  refine ⟨⟨0, rfl, Nat.zero_le 1, ?_⟩, sound.sleepers.wakeup,
    fun _ sleeps => ?_⟩
  · refine counted.erase holds fun other => ?_
    unfold MutexSystem.unlock
    by_cases isThread : other = thread <;> simp [isThread]
  · refine sound.sleepers.exists_awake_wakeup fun isEmpty => ?_
    unfold MutexSystem.unlock mutexUnlock at sleeps
    rw [isEmpty] at sleeps
    exact sleeps rfl

theorem step (sound : MutexSound system) {call : MutexCall} {next : MutexSystem}
    (called : MutexStep system call next) : MutexSound next := by
  cases called with
  | lock outside =>
    refine sound.lock fun sleeps => ?_
    have inside := sound.sleepers.inside _ sleeps
    rw [outside] at inside
    cases inside
  | resume woken =>
    exact sound.lock woken.2
  | unlock _ holds =>
    exact sound.unlock holds

end MutexSound

/-- What the threads rely on in a semaphore. -/
structure SemSystem.Conserves (val : Nat) (system : SemSystem) : Prop where
  notNegative : 0 ≤ system.sem.value
  conserved : system.sem.value + system.acquired = val + system.released
  notStranded : ∀ thread, 0 < system.sem.value → system.Asleep thread →
      ∃ woken, system.Woken woken

/-- What the threads rely on in a mutex. -/
structure MutexSystem.Excludes (system : MutexSystem) : Prop where
  atMostOne :
    ∀ thread other, system.holds thread = true → system.holds other = true →
      thread = other
  locked_iff : system.mutex.locked = 1 ↔ ∃ thread, system.holds thread = true
  notStranded : ∀ thread, (∀ other, system.holds other = false) →
      system.Asleep thread → ∃ woken, system.Woken woken

theorem SemSound.conserves {val : Nat} {system : SemSystem}
    (sound : SemSound val system) : system.Conserves val := by
  refine ⟨sound.notNegative, sound.conserved, fun thread permits sleeps => ?_⟩
  obtain ⟨count, counted, enough⟩ := sound.woken
  have enough := enough (List.ne_nil_of_mem sleeps)
  exact counted.exists (by omega)

theorem MutexSound.excludes {system : MutexSystem} (sound : MutexSound system) :
    system.Excludes := by
  obtain ⟨count, isLocked, atMostOne, counted⟩ := sound.holders
  refine ⟨fun thread other holds otherHolds => ?_, ?_,
    fun thread nobody sleeps => ?_⟩
  · exact counted.eq_of_le_one atMostOne holds otherHolds
  · constructor
    · intro taken
      exact counted.exists (by omega)
    · rintro ⟨thread, holds⟩
      have := counted.pos holds
      omega
  · refine sound.woken ?_ (List.ne_nil_of_mem sleeps)
    have isZero : count = 0 := by
      refine Nat.eq_zero_of_not_pos fun positive => ?_
      obtain ⟨other, holds⟩ := counted.exists positive
      rw [nobody] at holds
      cases holds
    omega

/--
In every interleaving of the calls a semaphore conserves its permits, a mutex
has at most one holder, and neither leaves its sleepers behind.
-/
theorem permits_conserved :
    (∀ (val : Nat) calls system,
      Run SemStep (.init val) calls system → system.Conserves val) ∧
      ∀ calls system, Run MutexStep .init calls system → system.Excludes := by
  constructor
  · intro val calls system ran
    have sound :=
      ran.invariant (fun _ system => SemSound val system) .init
        fun sound called => sound.step called
    exact sound.conserves
  · intro calls system ran
    have sound :=
      ran.invariant (fun _ system => MutexSound system) .init
        fun sound called => sound.step called
    exact sound.excludes

/--
A second thread finds the permit and the mutex taken, sleeps, and is woken when
they are given back.
-/
theorem handover_conserved :
    (∃ system : SemSystem, system.Woken 1 ∧ system.Conserves 1) ∧
      ∃ system : MutexSystem, system.Woken 1 ∧ system.Excludes := by
  have acquired : Run SemStep (.init 1) [.acquire 0, .acquire 1]
        (((SemSystem.init 1).acquire 0).acquire 1) :=
    (Run.single (.acquire rfl)).append (.single (.acquire rfl))
  have released := acquired.append (.single (.release rfl))
  have locked : Run MutexStep .init [.lock 0, .lock 1]
        ((MutexSystem.init.lock 0).lock 1) :=
    (Run.single (.lock rfl)).append (.single (.lock rfl))
  have unlocked := locked.append (.single (@MutexStep.unlock _ 0 rfl rfl))
  exact ⟨⟨_, ⟨rfl, by decide⟩, permits_conserved.1 1 _ _ released⟩,
    ⟨_, ⟨rfl, by decide⟩, permits_conserved.2 _ _ unlocked⟩⟩

end Idylla.Kernel
