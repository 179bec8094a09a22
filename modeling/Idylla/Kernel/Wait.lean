namespace Idylla.Kernel

/-!
# Wait queues

The threads that sleep on a `wait_t`, the one to be woken first in front.
`wait_sleep` releases the lock it is given in the same step; a thread that has
been woken runs on once it has taken that lock again.
-/

/-- `wait_sleep`, up to the point where the thread no longer runs. -/
def waitSleep (queue : List Nat) (thread : Nat) : List Nat :=
  queue ++ [thread]

/-- `wait_wakeup` -/
def waitWakeup (queue : List Nat) : List Nat :=
  queue.tail

/-- `wait_wakeup_all` -/
def waitWakeupAll (_ : List Nat) : List Nat :=
  []

/-- Each thread of the queue sleeps in it once, inside of a call. -/
structure Sleepers (Inside : Nat → Prop) (queue : List Nat) : Prop where
  once : queue.Nodup
  inside : ∀ thread ∈ queue, Inside thread

/-- A thread is inside of a call and runs. -/
def Awake (Inside : Nat → Prop) (queue : List Nat) (thread : Nat) : Prop :=
  Inside thread ∧ thread ∉ queue

section Awake

variable {Inside After : Nat → Prop} {queue : List Nat} {thread : Nat}

theorem awake_sleep
    (same : ∀ other, other ≠ thread → (After other ↔ Inside other))
    (other : Nat) :
    Awake After (waitSleep queue thread) other ↔
      other ≠ thread ∧ Awake Inside queue other := by
  unfold Awake waitSleep
  rw [List.mem_append, List.mem_singleton]
  constructor
  · rintro ⟨inside, notMember⟩
    have different : other ≠ thread := fun isThread => notMember (.inr isThread)
    exact ⟨different, (same other different).mp inside,
      fun sleeps => notMember (.inl sleeps)⟩
  · rintro ⟨different, inside, runs⟩
    exact ⟨(same other different).mpr inside,
      fun sleeps => sleeps.elim runs different⟩

theorem awake_leave (outside : ¬ After thread)
    (same : ∀ other, other ≠ thread → (After other ↔ Inside other))
    (other : Nat) :
    Awake After queue other ↔ other ≠ thread ∧ Awake Inside queue other := by
  unfold Awake
  by_cases isThread : other = thread
  · rw [isThread]
    exact ⟨fun awake => absurd awake.1 outside, fun awake => absurd rfl awake.1⟩
  · rw [same other isThread]
    exact ⟨fun awake => ⟨isThread, awake⟩, fun awake => awake.2⟩

end Awake

namespace Sleepers

variable {Inside After : Nat → Prop} {queue : List Nat} {thread : Nat}

theorem nil : Sleepers Inside [] :=
  ⟨List.nodup_nil, by simp⟩

theorem leave (sleepers : Sleepers Inside queue) (runs : thread ∉ queue)
    (same : ∀ other, other ≠ thread → (After other ↔ Inside other)) :
    Sleepers After queue := by
  refine ⟨sleepers.once, fun other sleeps => ?_⟩
  have different : other ≠ thread := by
    rintro rfl
    exact runs sleeps
  exact (same other different).mpr (sleepers.inside other sleeps)

theorem sleep (sleepers : Sleepers Inside queue) (runs : thread ∉ queue)
    (inside : After thread)
    (same : ∀ other, other ≠ thread → (After other ↔ Inside other)) :
    Sleepers After (waitSleep queue thread) := by
  have others := sleepers.leave runs same
  constructor
  · unfold waitSleep
    rw [List.nodup_append]
    refine ⟨others.once, by simp, ?_⟩
    intro other sleeps another isThread
    rw [List.mem_singleton.mp isThread]
    rintro rfl
    exact runs sleeps
  · intro other sleeps
    rcases List.mem_append.mp sleeps with sleeps | isThread
    · exact others.inside other sleeps
    · rw [List.mem_singleton.mp isThread]
      exact inside

theorem wakeup (sleepers : Sleepers Inside queue) :
    Sleepers Inside (waitWakeup queue) :=
  ⟨sleepers.once.sublist (List.tail_sublist queue),
    fun thread sleeps => sleepers.inside thread (List.mem_of_mem_tail sleeps)⟩

theorem awake_wakeup (sleepers : Sleepers Inside (thread :: queue))
    (other : Nat) :
    Awake Inside (waitWakeup (thread :: queue)) other ↔
      other = thread ∨ Awake Inside (thread :: queue) other := by
  obtain ⟨notBehind, -⟩ := List.nodup_cons.mp sleepers.once
  constructor
  · rintro ⟨inside, notBehind⟩
    by_cases isThread : other = thread
    · exact .inl isThread
    · exact .inr ⟨inside,
        fun sleeps => (List.mem_cons.mp sleeps).elim isThread notBehind⟩
  · rintro (rfl | ⟨inside, runs⟩)
    · exact ⟨sleepers.inside other List.mem_cons_self, notBehind⟩
    · exact ⟨inside, fun sleeps => runs (List.mem_cons_of_mem thread sleeps)⟩

theorem exists_awake_wakeup (sleepers : Sleepers Inside queue)
    (sleeps : queue ≠ []) :
    ∃ thread, Awake Inside (waitWakeup queue) thread := by
  cases queue with
  | nil =>
    exact absurd rfl sleeps
  | cons thread queue =>
    exact ⟨thread, (sleepers.awake_wakeup thread).mpr (.inl rfl)⟩

end Sleepers

end Idylla.Kernel
