import Idylla.Kernel.Rwlock

namespace Idylla.Kernel

open Idylla.Lib

/-!
# Exclusion and wakeups of a lock for readers and writers

Every section keeps one invariant: the counters count the threads that they
are about, and a free lock with sleepers has a thread that has been woken.
Readers sleep while the lock is free or shared only because a writer is inside
of an acquisition, and every release by a writer wakes all of them.
-/

/-- One of the shared holds of a thread, numbered from 0. -/
def SharedHold (threads : Nat → RwThread) (hold : Nat × Nat) : Prop :=
  hold.2 < (threads hold.1).shared

section Holds

variable {before after : Nat → RwThread} {count thread : Nat}

theorem sharedHold_gain (counted : HasCount (SharedHold before) count)
    (same : ∀ other, other ≠ thread → after other = before other)
    (more : (after thread).shared = (before thread).shared + 1) :
    HasCount (SharedHold after) (count + 1) := by
  refine @HasCount.insert _ _ _ _ counted (thread, (before thread).shared)
    (Nat.lt_irrefl _) ?_
  rintro ⟨other, hold⟩
  unfold SharedHold
  rw [Prod.mk.injEq]
  dsimp only
  by_cases isThread : other = thread
  · rw [isThread, more]
    omega
  · rw [same other isThread]
    simp [isThread]

theorem sharedHold_lose (counted : HasCount (SharedHold before) (count + 1))
    (same : ∀ other, other ≠ thread → after other = before other)
    (less : (before thread).shared = (after thread).shared + 1) :
    HasCount (SharedHold after) count := by
  have present : SharedHold before (thread, (after thread).shared) := by
    show (after thread).shared < (before thread).shared
    omega
  refine counted.erase present ?_
  rintro ⟨other, hold⟩
  unfold SharedHold
  rw [Ne, Prod.mk.injEq]
  dsimp only
  by_cases isThread : other = thread
  · rw [isThread, less]
    omega
  · rw [same other isThread]
    simp [isThread]

theorem sharedHold_keep (counted : HasCount (SharedHold before) count)
    (same : ∀ other, other ≠ thread → after other = before other)
    (stays : (after thread).shared = (before thread).shared) :
    HasCount (SharedHold after) count := by
  refine counted.congr fun hold => ?_
  unfold SharedHold
  by_cases isThread : hold.1 = thread
  · rw [isThread, stays]
  · rw [same hold.1 isThread]

end Holds

/-- The counter of active holds is that of the threads' holds. -/
def RwHolders (active : Int) (threads : Nat → RwThread) : Prop :=
  ∃ shared exclusive : Nat,
    active = shared - exclusive ∧ exclusive ≤ 1 ∧ (shared = 0 ∨ exclusive = 0) ∧
      HasCount (SharedHold threads) shared ∧
      HasCount (fun thread => (threads thread).HoldsExclusive) exclusive

namespace RwHolders

variable {active : Int} {before after : Nat → RwThread} {thread : Nat}

theorem keep (holders : RwHolders active before)
    (same : ∀ other, other ≠ thread → after other = before other)
    (shared : (after thread).shared = (before thread).shared)
    (exclusive : (after thread).exclusive = (before thread).exclusive) :
    RwHolders active after := by
  obtain ⟨readers, writers, isActive, atMostOne, oneMode, holds, writer⟩ :=
    holders
  refine ⟨readers, writers, isActive, atMostOne, oneMode,
    sharedHold_keep holds same shared, writer.keep same ?_⟩
  unfold RwThread.HoldsExclusive
  rw [exclusive]

theorem gainShared (holders : RwHolders active before) (noWriter : 0 ≤ active)
    (same : ∀ other, other ≠ thread → after other = before other)
    (shared : (after thread).shared = (before thread).shared + 1)
    (exclusive : (after thread).exclusive = (before thread).exclusive) :
    RwHolders (active + 1) after := by
  obtain ⟨readers, writers, isActive, atMostOne, oneMode, holds, writer⟩ :=
    holders
  refine ⟨readers + 1, writers, by omega, atMostOne, by omega,
    sharedHold_gain holds same shared, writer.keep same ?_⟩
  unfold RwThread.HoldsExclusive
  rw [exclusive]

theorem loseShared (holders : RwHolders active before)
    (same : ∀ other, other ≠ thread → after other = before other)
    (shared : (before thread).shared = (after thread).shared + 1)
    (exclusive : (after thread).exclusive = (before thread).exclusive) :
    0 < active ∧ RwHolders (active - 1) after := by
  obtain ⟨readers, writers, isActive, atMostOne, oneMode, holds, writer⟩ :=
    holders
  have holdsOne : SharedHold before (thread, 0) := by
    show 0 < (before thread).shared
    omega
  have some := holds.pos holdsOne
  obtain ⟨left, rfl⟩ := Nat.exists_eq_add_of_lt some
  rw [Nat.zero_add] at holds
  refine ⟨by omega, left, writers, by omega, atMostOne, by omega,
    sharedHold_lose holds same shared, writer.keep same ?_⟩
  unfold RwThread.HoldsExclusive
  rw [exclusive]

theorem gainExclusive (holders : RwHolders 0 before)
    (same : ∀ other, other ≠ thread → after other = before other)
    (shared : (after thread).shared = (before thread).shared)
    (exclusive : (after thread).exclusive = true) : RwHolders (-1) after := by
  obtain ⟨readers, writers, isActive, atMostOne, oneMode, holds, writer⟩ :=
    holders
  have noReader : readers = 0 := by omega
  have noWriter : writers = 0 := by omega
  subst noReader noWriter
  exact ⟨0, 1, rfl, Nat.le_refl 1, .inl rfl, sharedHold_keep holds same shared,
    writer.gain same (hasCount_zero_iff.mp writer thread) exclusive⟩

theorem loseExclusive (holders : RwHolders active before)
    (same : ∀ other, other ≠ thread → after other = before other)
    (shared : (after thread).shared = (before thread).shared)
    (holds : (before thread).exclusive = true)
    (exclusive : (after thread).exclusive = false) : RwHolders 0 after := by
  obtain ⟨readers, writers, isActive, atMostOne, oneMode, reading, writer⟩ :=
    holders
  have isWriter := writer.pos holds
  have oneWriter : writers = 0 + 1 := by omega
  have noReader : readers = 0 := by omega
  subst oneWriter noReader
  refine ⟨0, 0, rfl, Nat.zero_le 1, .inl rfl,
    sharedHold_keep reading same shared, writer.lose same holds ?_⟩
  unfold RwThread.HoldsExclusive
  rw [exclusive]
  exact Bool.false_ne_true

end RwHolders

/-- The counters count the threads inside of calls, who may sleep there. -/
structure RwCalls (rw : Rwlock) (threads : Nat → RwThread) : Prop where
  readers : ∃ count : Nat, rw.rdCount = count ∧
      HasCount (fun thread => (threads thread).Reads) count
  writers : ∃ count : Nat, rw.wrCount = count ∧
      HasCount (fun thread => (threads thread).Writes) count
  rdSleepers : Sleepers (fun thread => (threads thread).Reads) rw.rdWait
  wrSleepers : Sleepers (fun thread => (threads thread).Writes) rw.wrWait

namespace RwCalls

variable {rw : Rwlock} {before after : Nat → RwThread} {thread : Nat}

theorem outside (calls : RwCalls rw before)
    (isOutside : (before thread).acquires = none) :
    thread ∉ rw.rdWait ∧ thread ∉ rw.wrWait := by
  constructor
  · intro sleeps
    have reads := calls.rdSleepers.inside thread sleeps
    unfold RwThread.Reads at reads
    rw [isOutside] at reads
    cases reads
  · intro sleeps
    rcases calls.wrSleepers.inside thread sleeps with writes | writes <;>
      rw [isOutside] at writes <;> cases writes

theorem reader (calls : RwCalls rw before) (reads : (before thread).Reads) :
    thread ∉ rw.wrWait := by
  intro sleeps
  rcases calls.wrSleepers.inside thread sleeps with writes | writes <;>
    cases reads.symm.trans writes

theorem writer (calls : RwCalls rw before) (writes : (before thread).Writes) :
    thread ∉ rw.rdWait := by
  intro sleeps
  have reads := calls.rdSleepers.inside thread sleeps
  rcases writes with writes | writes <;> cases reads.symm.trans writes

theorem keep (calls : RwCalls rw before)
    (same : ∀ other, other ≠ thread → after other = before other)
    (stays : (after thread).acquires = (before thread).acquires) :
    RwCalls rw after := by
  have reads (other : Nat) : (after other).Reads ↔ (before other).Reads := by
    by_cases isThread : other = thread
    · unfold RwThread.Reads
      rw [isThread, stays]
    · rw [same other isThread]
  have writes (other : Nat) : (after other).Writes ↔ (before other).Writes := by
    by_cases isThread : other = thread
    · unfold RwThread.Writes
      rw [isThread, stays]
    · rw [same other isThread]
  obtain ⟨⟨readers, isReaders, reading⟩, ⟨writers, isWriters, writing⟩,
    ⟨rdOnce, rdInside⟩, ⟨wrOnce, wrInside⟩⟩ := calls
  exact ⟨⟨readers, isReaders, reading.congr reads⟩,
    ⟨writers, isWriters, writing.congr writes⟩,
    ⟨rdOnce, fun other sleeps => (reads other).mpr (rdInside other sleeps)⟩,
    ⟨wrOnce, fun other sleeps => (writes other).mpr (wrInside other sleeps)⟩⟩

section Change

variable (same : ∀ other, other ≠ thread → after other = before other)

include same

theorem others :
    (∀ other, other ≠ thread → ((after other).Reads ↔ (before other).Reads)) ∧
      ∀ other, other ≠ thread →
        ((after other).Writes ↔ (before other).Writes) :=
  ⟨fun other different => by rw [same other different],
    fun other different => by rw [same other different]⟩

theorem enterShared (calls : RwCalls rw before)
    (isOutside : (before thread).acquires = none)
    (enters : (after thread).acquires = some .shared) :
    RwCalls { rw with rdCount := rw.rdCount + 1 } after := by
  obtain ⟨readers, isReaders, reading⟩ := calls.readers
  obtain ⟨writers, isWriters, writing⟩ := calls.writers
  obtain ⟨notReader, notWriter⟩ := calls.outside isOutside
  refine ⟨⟨readers + 1, ?_, reading.gain same ?_ enters⟩,
    ⟨writers, isWriters, writing.keep same ?_⟩,
    calls.rdSleepers.leave notReader (others same).1,
    calls.wrSleepers.leave notWriter (others same).2⟩
  · dsimp only
    omega
  · simp [RwThread.Reads, isOutside]
  · simp [RwThread.Writes, isOutside, enters]

theorem enterExclusive (calls : RwCalls rw before)
    (isOutside : (before thread).acquires = none)
    (enters : (after thread).Writes) :
    RwCalls { rw with wrCount := rw.wrCount + 1 } after := by
  obtain ⟨readers, isReaders, reading⟩ := calls.readers
  obtain ⟨writers, isWriters, writing⟩ := calls.writers
  obtain ⟨notReader, notWriter⟩ := calls.outside isOutside
  refine ⟨⟨readers, isReaders, reading.keep same ?_⟩,
    ⟨writers + 1, ?_, writing.gain same ?_ enters⟩,
    calls.rdSleepers.leave notReader (others same).1,
    calls.wrSleepers.leave notWriter (others same).2⟩
  · rcases enters with enters | enters <;>
      simp [RwThread.Reads, isOutside, enters]
  · dsimp only
    omega
  · simp [RwThread.Writes, isOutside]

theorem leaveShared (calls : RwCalls rw before) (reads : (before thread).Reads)
    (woken : thread ∉ rw.rdWait) (leaves : (after thread).acquires = none) :
    RwCalls { rw with rdCount := rw.rdCount - 1 } after := by
  obtain ⟨readers, isReaders, reading⟩ := calls.readers
  obtain ⟨writers, isWriters, writing⟩ := calls.writers
  obtain ⟨left, rfl⟩ := Nat.exists_eq_add_of_lt (reading.pos reads)
  rw [Nat.zero_add] at reading
  refine ⟨⟨left, ?_, reading.lose same reads ?_⟩,
    ⟨writers, isWriters, writing.keep same ?_⟩,
    calls.rdSleepers.leave woken (others same).1,
    calls.wrSleepers.leave (calls.reader reads) (others same).2⟩
  · dsimp only
    omega
  · simp [RwThread.Reads, leaves]
  · unfold RwThread.Writes
    rw [leaves, show (before thread).acquires = some .shared from reads]
    simp

theorem leaveExclusive (calls : RwCalls rw before)
    (writes : (before thread).Writes) (woken : thread ∉ rw.wrWait)
    (leaves : (after thread).acquires = none) :
    RwCalls { rw with wrCount := rw.wrCount - 1 } after := by
  obtain ⟨readers, isReaders, reading⟩ := calls.readers
  obtain ⟨writers, isWriters, writing⟩ := calls.writers
  obtain ⟨left, rfl⟩ := Nat.exists_eq_add_of_lt (writing.pos writes)
  rw [Nat.zero_add] at writing
  refine ⟨⟨readers, isReaders, reading.keep same ?_⟩,
    ⟨left, ?_, writing.lose same writes ?_⟩,
    calls.rdSleepers.leave (calls.writer writes) (others same).1,
    calls.wrSleepers.leave woken (others same).2⟩
  · rcases writes with writes | writes <;>
      simp [RwThread.Reads, leaves, writes]
  · dsimp only
    omega
  · simp [RwThread.Writes, leaves]

end Change

variable (calls : RwCalls rw before)

include calls

theorem sleepShared (reads : (before thread).Reads)
    (woken : thread ∉ rw.rdWait) : RwCalls (rw.sleepShared thread) before :=
  ⟨calls.readers, calls.writers,
    calls.rdSleepers.sleep woken reads fun _ _ => Iff.rfl,
    calls.wrSleepers⟩

theorem sleepExclusive (writes : (before thread).Writes)
    (woken : thread ∉ rw.wrWait) : RwCalls (rw.sleepExclusive thread) before :=
  ⟨calls.readers, calls.writers, calls.rdSleepers,
    calls.wrSleepers.sleep woken writes fun _ _ => Iff.rfl⟩

theorem wakeWriter :
    RwCalls { rw with wrWait := waitWakeup rw.wrWait } before :=
  ⟨calls.readers, calls.writers, calls.rdSleepers, calls.wrSleepers.wakeup⟩

theorem wakeReaders :
    RwCalls { rw with rdWait := waitWakeupAll rw.rdWait } before :=
  ⟨calls.readers, calls.writers, .nil, calls.wrSleepers⟩

theorem setActive (active : Int) :
    RwCalls { rw with active := active } before :=
  ⟨calls.readers, calls.writers, calls.rdSleepers, calls.wrSleepers⟩

end RwCalls

/-- What every section keeps. -/
structure RwSound (system : RwSystem) : Prop where
  holders : RwHolders system.rw.active system.threads
  calls : RwCalls system.rw system.threads
  runnable : system.rw.active = 0 → ∀ thread, system.Asleep thread →
      ∃ other, system.Runnable other
  writerWaits :
    0 ≤ system.rw.active → system.rw.rdWait ≠ [] → 0 < system.rw.wrCount

section Parts

variable {system : RwSystem} {rw : Rwlock} {thread : Nat} {state : RwThread}

@[simp] theorem rw_set : (system.set rw thread state).rw = rw :=
  rfl

@[simp] theorem threads_set_same :
    (system.set rw thread state).threads thread = state :=
  if_pos rfl

theorem threads_set_of_ne (other : Nat) (different : other ≠ thread) :
    (system.set rw thread state).threads other = system.threads other :=
  if_neg different

theorem endShared_returns :
    system.endShared thread (rw, true) =
      system.set rw thread
        { system.threads thread with
          shared := (system.threads thread).shared + 1
          acquires := none } :=
  rfl

theorem endShared_sleeps :
    system.endShared thread (rw, false) =
      system.set rw thread
        { system.threads thread with acquires := some .shared } :=
  rfl

theorem endExclusive_returns (call : RwAcquire) :
    system.endExclusive thread call (rw, true) =
      system.set rw thread
        { system.threads thread with exclusive := true, acquires := none } :=
  rfl

theorem endExclusive_sleeps (call : RwAcquire) :
    system.endExclusive thread call (rw, false) =
      system.set rw thread
        { system.threads thread with acquires := some call } :=
  rfl

@[simp] theorem set_set (later : Rwlock) (last : RwThread) :
    (system.set rw thread state).set later thread last =
      system.set later thread last := by
  unfold RwSystem.set
  congr 1
  funext other
  dsimp only
  split <;> rfl

end Parts

namespace RwSound

variable {system : RwSystem} {thread : Nat}

theorem init : RwSound .init := by
  have noHold : HasCount (SharedHold RwSystem.init.threads) 0 :=
    hasCount_zero_iff.mpr fun hold => Nat.not_lt_zero _
  refine ⟨⟨0, 0, rfl, Nat.zero_le 1, .inl rfl, noHold, ?_⟩,
    ⟨⟨0, rfl, ?_⟩, ⟨0, rfl, ?_⟩, .nil, .nil⟩, ?_, ?_⟩
  · exact hasCount_zero_iff.mpr fun thread holds => by cases holds
  · exact hasCount_zero_iff.mpr fun thread reads => by cases reads
  · refine hasCount_zero_iff.mpr ?_
    rintro thread (writes | writes) <;> cases writes
  · rintro - thread (sleeps | sleeps) <;> cases sleeps
  · exact fun _ sleeps => absurd rfl sleeps

theorem exists_runnable (sound : RwSound system) (free : system.rw.active = 0)
    (counts : 0 < system.rw.wrCount) : ∃ thread, system.Runnable thread := by
  obtain ⟨count, isCount, counted⟩ := sound.calls.writers
  obtain ⟨thread, writes⟩ := counted.exists (by omega)
  by_cases sleeps : thread ∈ system.rw.wrWait
  · exact sound.runnable free thread (.inr sleeps)
  · exact ⟨thread, .inr ⟨writes, sleeps⟩⟩

theorem waitShared (sound : RwSound system)
    (isOutside : (system.threads thread).acquires = none)
    (writer : 0 < system.rw.wrCount) :
    RwSound
      (system.endShared thread
        ({ system.rw with rdCount := system.rw.rdCount + 1 }.sleepShared
          thread, false)) := by
  obtain ⟨notReader, notWriter⟩ := sound.calls.outside isOutside
  rw [endShared_sleeps]
  have calls :=
    sound.calls.enterShared
      (@threads_set_of_ne system system.rw thread
        { system.threads thread with acquires := some .shared })
      isOutside (by simp)
  refine ⟨sound.holders.keep threads_set_of_ne (by simp) (by simp),
    calls.sleepShared (by simp [RwThread.Reads]) notReader, ?_,
    fun _ _ => writer⟩
  intro free _ _
  obtain ⟨other, runs⟩ := sound.exists_runnable free writer
  have isOther : other ≠ thread := by
    rintro rfl
    rcases runs with ⟨reads, -⟩ | ⟨writes | writes, -⟩
    · cases isOutside.symm.trans reads
    · cases isOutside.symm.trans writes
    · cases isOutside.symm.trans writes
  refine ⟨other, runs.imp (fun awake => ?_) fun awake => ?_⟩
  · refine (awake_sleep (fun another different => ?_) other).mpr
      ⟨isOther, awake⟩
    rw [threads_set_of_ne another different]
  · refine ⟨?_, awake.2⟩
    dsimp only
    rw [threads_set_of_ne other isOther]
    exact awake.1

theorem enterShared (sound : RwSound system)
    (isOutside : (system.threads thread).acquires = none) :
    RwSound
      (system.set { system.rw with rdCount := system.rw.rdCount + 1 } thread
        { system.threads thread with acquires := some .shared }) := by
  refine ⟨sound.holders.keep threads_set_of_ne (by simp) (by simp),
    sound.calls.enterShared threads_set_of_ne isOutside (by simp), ?_,
    sound.writerWaits⟩
  intro _ _ _
  exact ⟨thread, .inl ⟨by simp [RwThread.Reads],
    (sound.calls.outside isOutside).1⟩⟩

theorem sharedLoop (sound : RwSound system)
    (reads : (system.threads thread).Reads)
    (woken : thread ∉ system.rw.rdWait) :
    RwSound (system.endShared thread (Kernel.sharedLoop system.rw thread)) := by
  unfold Kernel.sharedLoop
  by_cases taken : system.rw.active < 0
  · rw [if_pos taken, endShared_sleeps]
    have calls :=
      (sound.calls.sleepShared reads woken).keep
        (@threads_set_of_ne system (system.rw.sleepShared thread) thread
          { system.threads thread with acquires := some .shared })
        (by simpa using reads.symm)
    refine ⟨sound.holders.keep threads_set_of_ne (by simp) (by simp), calls,
      fun free => ?_, fun notTaken => ?_⟩
    · exact absurd free (Int.ne_of_lt taken)
    · exact absurd taken (Int.not_lt.mpr notTaken)
  · have noWriter : 0 ≤ system.rw.active := Int.not_lt.mp taken
    rw [if_neg taken, endShared_returns]
    refine ⟨sound.holders.gainShared noWriter threads_set_of_ne (by simp)
        (by simp),
      (sound.calls.leaveShared threads_set_of_ne reads woken
        (by simp)).setActive _, fun free => ?_, fun _ sleeps => ?_⟩
    · have free : system.rw.active + 1 = 0 := free
      omega
    · exact sound.writerWaits noWriter sleeps

theorem lockShared (sound : RwSound system)
    (isOutside : (system.threads thread).acquires = none) :
    RwSound (system.endShared thread (rwlockLockShared system.rw thread)) := by
  unfold rwlockLockShared
  by_cases writer : 0 < system.rw.wrCount
  · rw [if_pos writer]
    exact sound.waitShared isOutside writer
  · rw [if_neg writer]
    have entered :=
      (sound.enterShared isOutside).sharedLoop (by simp [RwThread.Reads])
        (sound.calls.outside isOutside).1
    unfold RwSystem.endShared at entered ⊢
    simpa using entered

theorem enterExclusive (sound : RwSound system)
    (isOutside : (system.threads thread).acquires = none) {call : RwAcquire}
    (isExclusive : call ≠ .shared) :
    RwSound
      (system.set { system.rw with wrCount := system.rw.wrCount + 1 } thread
        { system.threads thread with acquires := some call }) := by
  have writes : RwThread.Writes
        { system.threads thread with acquires := some call } := by
    cases call with
    | shared =>
      exact absurd rfl isExclusive
    | exclusive =>
      exact .inl rfl
    | upgrade =>
      exact .inr rfl
  obtain ⟨count, isCount, -⟩ := sound.calls.writers
  refine ⟨sound.holders.keep threads_set_of_ne (by simp) (by simp),
    sound.calls.enterExclusive threads_set_of_ne isOutside
      (by simpa using writes), ?_, fun _ _ => ?_⟩
  · intro _ _ _
    exact ⟨thread, .inr ⟨by simpa using writes,
      (sound.calls.outside isOutside).2⟩⟩
  · show 0 < system.rw.wrCount + 1
    omega

theorem exclusiveLoop (sound : RwSound system) {call : RwAcquire}
    (isCall : (system.threads thread).acquires = some call)
    (writes : (system.threads thread).Writes)
    (woken : thread ∉ system.rw.wrWait) :
    RwSound
      (system.endExclusive thread call
        (Kernel.exclusiveLoop system.rw thread)) := by
  unfold Kernel.exclusiveLoop
  by_cases free : system.rw.active = 0
  · rw [if_neg (not_not_intro free), endExclusive_returns]
    have holders := sound.holders
    rw [free] at holders
    refine ⟨holders.gainExclusive threads_set_of_ne (by simp) (by simp),
      (sound.calls.leaveExclusive threads_set_of_ne writes woken
        (by simp)).setActive _, fun free => ?_, fun notTaken => ?_⟩
    · cases free
    · cases notTaken
  · rw [if_pos free, endExclusive_sleeps]
    have calls :=
      (sound.calls.sleepExclusive writes woken).keep
        (@threads_set_of_ne system (system.rw.sleepExclusive thread) thread
          { system.threads thread with acquires := some call })
        (by simpa using isCall.symm)
    exact ⟨sound.holders.keep threads_set_of_ne (by simp) (by simp), calls,
      fun isFree => absurd isFree free, sound.writerWaits⟩

theorem lockExclusive (sound : RwSound system)
    (isOutside : (system.threads thread).acquires = none) :
    RwSound
      (system.endExclusive thread .exclusive
        (rwlockLockExclusive system.rw thread)) := by
  have entered :=
    sound.enterExclusive isOutside
      (show RwAcquire.exclusive ≠ .shared by decide)
  have ended :=
    @exclusiveLoop _ thread entered .exclusive (by simp)
      (by simp [RwThread.Writes]) (sound.calls.outside isOutside).2
  unfold rwlockLockExclusive
  unfold RwSystem.endExclusive at ended ⊢
  simpa using ended

theorem dropShared (sound : RwSound system)
    (holds : 0 < (system.threads thread).shared) :
    0 < system.rw.active ∧
      RwHolders (system.rw.active - 1) (system.dropShared thread).threads ∧
      RwCalls system.rw (system.dropShared thread).threads := by
  have less : (system.threads thread).shared =
        ((system.dropShared thread).threads thread).shared + 1 := by
    unfold RwSystem.dropShared
    rw [threads_set_same]
    exact (Nat.sub_add_cancel holds).symm
  obtain ⟨active, holders⟩ :=
    sound.holders.loseShared threads_set_of_ne less (by simp)
  exact ⟨active, holders,
    sound.calls.keep threads_set_of_ne (by simp [RwSystem.dropShared])⟩

theorem dropExclusive (sound : RwSound system)
    (holds : (system.threads thread).exclusive = true) :
    RwHolders 0 (system.dropExclusive thread).threads ∧
      RwCalls system.rw (system.dropExclusive thread).threads :=
  ⟨sound.holders.loseExclusive threads_set_of_ne
      (by simp [RwSystem.dropExclusive]) holds
      (by simp [RwSystem.dropExclusive]),
    sound.calls.keep threads_set_of_ne (by simp [RwSystem.dropExclusive])⟩

theorem unlockShared (sound : RwSound system)
    (holds : 0 < (system.threads thread).shared) :
    RwSound
      { system.dropShared thread with
        rw := rwlockUnlockShared system.rw } := by
  obtain ⟨active, holders, calls⟩ := sound.dropShared holds
  unfold rwlockUnlockShared
  by_cases free : system.rw.active - 1 = 0
  · rw [if_pos free]
    refine ⟨holders, calls.wakeWriter.setActive _, fun _ other sleeps => ?_,
      fun _ sleeps => sound.writerWaits (Int.le_of_lt active) sleeps⟩
    by_cases noWriter : system.rw.wrWait = []
    · rcases sleeps with sleeps | sleeps
      · -- a reader sleeps only while a writer is inside, who must be awake
        have counts :=
          sound.writerWaits (Int.le_of_lt active) (List.ne_nil_of_mem sleeps)
        obtain ⟨count, isCount, counted⟩ := calls.writers
        obtain ⟨writer, writes⟩ := counted.exists (by omega)
        refine ⟨writer, .inr ⟨writes, ?_⟩⟩
        rw [noWriter]
        exact List.not_mem_nil
      · rw [noWriter] at sleeps
        cases sleeps
    · obtain ⟨writer, awake⟩ := calls.wrSleepers.exists_awake_wakeup noWriter
      exact ⟨writer, .inr awake⟩
  · rw [if_neg free]
    exact ⟨holders, calls.setActive _, fun isFree => absurd isFree free,
      fun _ sleeps => sound.writerWaits (Int.le_of_lt active) sleeps⟩

theorem unlockExclusive (sound : RwSound system)
    (holds : (system.threads thread).exclusive = true) :
    RwSound
      { system.dropExclusive thread with
        rw := rwlockUnlockExclusive system.rw } := by
  obtain ⟨holders, calls⟩ := sound.dropExclusive holds
  obtain ⟨count, isCount, counted⟩ := calls.readers
  unfold rwlockUnlockExclusive
  by_cases readers : 0 < system.rw.rdCount
  · rw [if_pos readers]
    refine ⟨holders, calls.wakeReaders.setActive 0, fun _ _ _ => ?_,
      fun _ sleeps => absurd rfl sleeps⟩
    obtain ⟨reader, reads⟩ := counted.exists (by omega)
    exact ⟨reader, .inl ⟨reads, List.not_mem_nil⟩⟩
  · rw [if_neg readers]
    have noReader : system.rw.rdWait = [] := by
      refine List.eq_nil_iff_forall_not_mem.mpr fun reader sleeps => ?_
      have := counted.pos (calls.rdSleepers.inside reader sleeps)
      omega
    refine ⟨holders, calls.wakeWriter.setActive 0, fun _ other sleeps => ?_,
      fun _ sleeps => absurd noReader sleeps⟩
    have someWriter : system.rw.wrWait ≠ [] := by
      intro noWriter
      rcases sleeps with sleeps | sleeps
      · rw [noReader] at sleeps
        cases sleeps
      · rw [noWriter] at sleeps
        cases sleeps
    obtain ⟨writer, awake⟩ := calls.wrSleepers.exists_awake_wakeup someWriter
    exact ⟨writer, .inr awake⟩

theorem upgrade (sound : RwSound system)
    (isOutside : (system.threads thread).acquires = none)
    (holds : 0 < (system.threads thread).shared) :
    RwSound
      ((system.dropShared thread).endExclusive thread .upgrade
        (rwlockUpgrade system.rw thread)) := by
  obtain ⟨active, holders, calls⟩ := sound.dropShared holds
  unfold rwlockUpgrade
  by_cases alone : system.rw.active = 1
  · rw [if_pos alone, endExclusive_returns]
    have isFree : system.rw.active - 1 = 0 := by omega
    rw [isFree] at holders
    refine ⟨holders.gainExclusive threads_set_of_ne (by simp) (by simp),
      (calls.keep threads_set_of_ne ?_).setActive (-1), fun free => ?_,
      fun notTaken => ?_⟩
    · simp [RwSystem.dropShared, isOutside]
    · cases free
    · cases notTaken
  · rw [if_neg alone]
    -- the hold is given up before the thread waits like any other writer
    have gaveUp : RwSound
          (system.set { system.rw with active := system.rw.active - 1 } thread
            { system.threads thread with
              shared := (system.threads thread).shared - 1 }) := by
      refine ⟨holders, calls.setActive _, fun free => ?_, fun _ sleeps => ?_⟩
      · have free : system.rw.active - 1 = 0 := free
        omega
      · exact sound.writerWaits (Int.le_of_lt active) sleeps
    have entered :=
      @enterExclusive _ thread gaveUp
        (by simpa using isOutside) .upgrade (by decide)
    have ended :=
      @exclusiveLoop _ thread entered .upgrade (by simp)
        (by simp [RwThread.Writes]) (sound.calls.outside isOutside).2
    unfold RwSystem.dropShared
    unfold RwSystem.endExclusive at ended ⊢
    simpa using ended

theorem downgrade (sound : RwSound system)
    (isOutside : (system.threads thread).acquires = none)
    (holds : (system.threads thread).exclusive = true) :
    RwSound
      ((system.dropExclusive thread).endShared thread
        (rwlockDowngrade system.rw, true)) := by
  obtain ⟨holders, calls⟩ := sound.dropExclusive holds
  rw [endShared_returns]
  refine ⟨holders.gainShared (Int.le_refl 0) threads_set_of_ne (by simp)
      (by simp),
    (calls.keep threads_set_of_ne ?_).wakeReaders.setActive 1,
    fun free => ?_, fun _ sleeps => absurd rfl sleeps⟩
  · simp [RwSystem.dropExclusive, isOutside]
  · cases free

theorem step (sound : RwSound system) {call : RwCall} {next : RwSystem}
    (called : RwStep system call next) : RwSound next := by
  cases called with
  | lockShared isOutside =>
    exact sound.lockShared isOutside
  | unlockShared _ holds =>
    exact sound.unlockShared holds
  | lockExclusive isOutside =>
    exact sound.lockExclusive isOutside
  | unlockExclusive _ holds =>
    exact sound.unlockExclusive holds
  | upgrade isOutside holds =>
    exact sound.upgrade isOutside holds
  | downgrade isOutside holds =>
    exact sound.downgrade isOutside holds
  | resumeShared inside woken =>
    exact sound.sharedLoop inside woken
  | resumeExclusive inside isCall woken =>
    exact sound.exclusiveLoop isCall inside woken

end RwSound

/--
What `active`, `rd_count` and `wr_count` tell of the threads.  A thread that
locks again what it holds shared has several holds, so that holds are counted;
without such a thread the count is that of the threads.
-/
structure RwSystem.Excludes (system : RwSystem) : Prop where
  modes :
    (system.rw.active = -1 ∧
        HasCount (fun thread => (system.threads thread).HoldsExclusive) 1 ∧
        ∀ thread, (system.threads thread).shared = 0) ∨
      ∃ active : Nat, system.rw.active = active ∧
        HasCount (SharedHold system.threads) active ∧
        ((∀ thread, (system.threads thread).shared ≤ 1) →
          HasCount (fun thread => 0 < (system.threads thread).shared) active) ∧
        ∀ thread, ¬ (system.threads thread).HoldsExclusive
  readers : ∃ count : Nat, system.rw.rdCount = count ∧
      HasCount (fun thread => (system.threads thread).Reads) count
  writers : ∃ count : Nat, system.rw.wrCount = count ∧
      HasCount (fun thread => (system.threads thread).Writes) count

end Idylla.Kernel
