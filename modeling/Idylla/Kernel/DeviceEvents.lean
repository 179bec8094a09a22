import Mathlib.Algebra.Group.Nat.Defs
import Idylla.Kernel.Wait
import Idylla.Lib.Counting
import Idylla.Lib.Run

namespace Idylla.Kernel

open Idylla.Lib

/-!
# Device events

`device_register` queues an event and wakes a consumer afterwards, outside of
the lock of the queue; `device_get_event` takes the oldest event or goes to
sleep.  A step runs one critical section of a call, so that a wakeup of one
thread may fall between the test and the sleep of another.
-/

/-- `struct dev_event`, less its links. -/
structure DevEvent where
  eventType : UInt8
  devType : UInt8
  name : List UInt8
  devId : BitVec 16
  deriving DecidableEq

/-- `DEV_EVENT_REGISTER` -/
def devEventRegister : UInt8 := 1

/-- The event that `device_register` passes to `add_event`. -/
def registerEvent
    (type : Nat) (name : List UInt8) (id : BitVec 16) : DevEvent where
  eventType := devEventRegister
  devType := UInt8.ofNat type
  name := name
  devId := id

/-- `add_event`, up to its wakeup; the list starts behind its head. -/
def addEvent (eventList : List DevEvent) (ev : DevEvent) : List DevEvent :=
  ev :: eventList

/-- Remove `_event_list.prev`, if there is one. -/
def takeEvent (eventList : List DevEvent) : Option (DevEvent × List DevEvent) :=
  eventList.getLast?.map fun event => (event, eventList.dropLast)

/-- Where a thread is in a call. -/
inductive EventPhase where
  | outside
  /-- It has added an event and has not issued the wakeup. -/
  | waking
  /-- It has found the list empty and holds the lock of the list. -/
  | empty
  /-- It is inside of `wait_sleep`, asleep or woken. -/
  | waiting
  deriving DecidableEq

/-- The queue, its threads, and the events that went in and came out. -/
structure EventSystem where
  eventList : List DevEvent
  eventWait : List Nat
  phase : Nat → EventPhase
  added : List DevEvent
  returned : List DevEvent

namespace EventSystem

/-- The queue that nobody has used. -/
def init : EventSystem where
  eventList := []
  eventWait := []
  phase := fun _ => EventPhase.outside
  added := []
  returned := []

/-- One thread goes on to another phase. -/
def setPhase (system : EventSystem) (thread : Nat) (phase : EventPhase) :
    EventSystem :=
  { system with
    phase := fun other =>
      if other = thread then phase else system.phase other }

/-- The section of `add_event` under the lock of the list. -/
def add (system : EventSystem) (thread : Nat) (ev : DevEvent) : EventSystem :=
  { system.setPhase thread EventPhase.waking with
    eventList := addEvent system.eventList ev
    added := system.added ++ [ev] }

/-- The `wait_wakeup` of `add_event`. -/
def wakeup (system : EventSystem) (thread : Nat) : EventSystem :=
  { system.setPhase thread EventPhase.outside with
    eventWait := waitWakeup system.eventWait }

/-- One round of `device_get_event` up to the test of the list. -/
def get (system : EventSystem) (thread : Nat) : EventSystem :=
  match takeEvent system.eventList with
  | none => system.setPhase thread EventPhase.empty
  | some (event, rest) =>
    { system.setPhase thread EventPhase.outside with
      eventList := rest
      returned := system.returned ++ [event] }

/-- The `wait_sleep` of `device_get_event`, which gives up the lock. -/
def sleep (system : EventSystem) (thread : Nat) : EventSystem :=
  { system.setPhase thread EventPhase.waiting with
    eventWait := waitSleep system.eventWait thread }

/-- Some thread holds the lock of the list between two steps. -/
def Locked (system : EventSystem) : Prop :=
  ∃ thread, system.phase thread = EventPhase.empty

/-- A consumer is asleep. -/
def Asleep (system : EventSystem) (thread : Nat) : Prop :=
  thread ∈ system.eventWait

/-- A consumer has been woken and has not tested the list again. -/
def Woken (system : EventSystem) (thread : Nat) : Prop :=
  Awake (fun thread => system.phase thread = EventPhase.waiting)
    system.eventWait thread

end EventSystem

/-- The sections of the calls. -/
inductive EventCall where
  | register (thread type : Nat) (name : List UInt8) (id : BitVec 16)
  | wakeup (thread : Nat)
  | get (thread : Nat)
  | resume (thread : Nat)
  | sleep (thread : Nat)

/-- One section as a transition. -/
inductive EventStep : EventSystem → EventCall → EventSystem → Prop where
  | register {system : EventSystem} {thread type : Nat}
      {name : List UInt8} {id : BitVec 16}
      (outside : system.phase thread = EventPhase.outside)
      (unlocked : ¬ system.Locked) :
      EventStep system (.register thread type name id)
        (system.add thread (registerEvent type name id))
  | wakeup {system : EventSystem} {thread : Nat}
      (waking : system.phase thread = EventPhase.waking) :
      EventStep system (.wakeup thread) (system.wakeup thread)
  | get {system : EventSystem} {thread : Nat}
      (outside : system.phase thread = EventPhase.outside)
      (unlocked : ¬ system.Locked) :
      EventStep system (.get thread) (system.get thread)
  | resume {system : EventSystem} {thread : Nat} (woken : system.Woken thread)
      (unlocked : ¬ system.Locked) :
      EventStep system (.resume thread) (system.get thread)
  | sleep {system : EventSystem} {thread : Nat}
      (holds : system.phase thread = EventPhase.empty) :
      EventStep system (.sleep thread) (system.sleep thread)

/--
What the sections keep: events are conserved in order, and while consumers
sleep every queued event has a woken consumer or a wakeup of its own.
-/
structure EventsSound (system : EventSystem) : Prop where
  conserved : system.returned ++ system.eventList.reverse = system.added
  tested :
    ∀ thread, system.phase thread = EventPhase.empty → system.eventList = []
  sleepers : Sleepers (fun thread => system.phase thread = EventPhase.waiting)
      system.eventWait
  woken : ∃ woken waking, HasCount system.Woken woken ∧
      HasCount (fun thread => system.phase thread = EventPhase.waking) waking ∧
      (system.eventWait ≠ [] → system.eventList.length ≤ woken + waking)

theorem setPhase_other
    (system : EventSystem) {thread other : Nat} (phase : EventPhase)
    (different : other ≠ thread) :
    (system.setPhase thread phase).phase other = system.phase other :=
  if_neg different

theorem setPhase_thread
    (system : EventSystem) (thread : Nat) (phase : EventPhase) :
    (system.setPhase thread phase).phase thread = phase :=
  if_pos rfl

theorem setPhase_keeps
    {system : EventSystem} {thread : Nat} {phase watched : EventPhase}
    (notBefore : system.phase thread ≠ watched) (notAfter : phase ≠ watched)
    (other : Nat) :
    (system.setPhase thread phase).phase other = watched ↔
      system.phase other = watched := by
  by_cases isThread : other = thread
  · rw [isThread, setPhase_thread]
    exact ⟨fun isAfter => absurd isAfter notAfter,
      fun isBefore => absurd isBefore notBefore⟩
  · rw [setPhase_other system phase isThread]

theorem setPhase_enters
    (system : EventSystem) (thread : Nat) (phase : EventPhase) (other : Nat) :
    (system.setPhase thread phase).phase other = phase ↔
      other = thread ∨ system.phase other = phase := by
  by_cases isThread : other = thread
  · rw [isThread, setPhase_thread]
    simp
  · rw [setPhase_other system phase isThread]
    simp [isThread]

theorem setPhase_leaves
    (system : EventSystem) (thread : Nat) {phase watched : EventPhase}
    (notAfter : phase ≠ watched) (other : Nat) :
    (system.setPhase thread phase).phase other = watched ↔
      other ≠ thread ∧ system.phase other = watched := by
  by_cases isThread : other = thread
  · rw [isThread, setPhase_thread]
    simp [notAfter]
  · rw [setPhase_other system phase isThread]
    simp [isThread]

theorem takeEvent_some {eventList rest : List DevEvent} {event : DevEvent}
    (takes : takeEvent eventList = some (event, rest)) :
    eventList = rest ++ [event] := by
  obtain ⟨last, isLast, same⟩ := Option.map_eq_some_iff.mp takes
  cases same
  obtain ⟨front, rfl⟩ := List.getLast?_eq_some_iff.mp isLast
  rw [List.dropLast_concat]

theorem takeEvent_none {eventList : List DevEvent}
    (takes : takeEvent eventList = none) : eventList = [] :=
  List.getLast?_eq_none_iff.mp (Option.map_eq_none_iff.mp takes)

namespace EventsSound

variable {system : EventSystem} {thread : Nat}

theorem init : EventsSound .init where
  conserved := rfl
  tested := fun _ _ => rfl
  sleepers := .nil
  woken := by
    refine ⟨0, 0, hasCount_zero_iff.mpr fun thread woken => ?_,
      hasCount_zero_iff.mpr fun thread waking => ?_, fun sleeps => ?_⟩
    · cases woken.1
    · cases waking
    · exact absurd rfl sleeps

variable (sound : EventsSound system)

include sound

theorem add (outside : system.phase thread = EventPhase.outside)
    (unlocked : ¬ system.Locked) (ev : DevEvent) :
    EventsSound (system.add thread ev) := by
  obtain ⟨woken, waking, isWoken, isWaking, enough⟩ := sound.woken
  have waits :=
    @setPhase_keeps system thread EventPhase.waking EventPhase.waiting
      (by rw [outside]; decide) (by decide)
  refine ⟨?_, ?_, ?_, woken, waking + 1, ?_, ?_, fun sleeps => ?_⟩
  · have conserved := sound.conserved
    unfold EventSystem.add addEvent
    dsimp only [EventSystem.setPhase]
    rw [List.reverse_cons, ← List.append_assoc, conserved]
  · intro other holds
    have held := (setPhase_leaves system thread (by decide) other).mp holds
    exact absurd ⟨other, held.2⟩ unlocked
  · exact ⟨sound.sleepers.once, fun other sleeps =>
      (waits other).mpr (sound.sleepers.inside other sleeps)⟩
  · exact isWoken.congr fun other => and_congr_left fun _ => waits other
  · exact isWaking.insert (by rw [outside]; decide)
      (setPhase_enters system thread EventPhase.waking)
  · have enough := enough sleeps
    change (addEvent system.eventList ev).length ≤ _
    rw [addEvent, List.length_cons]
    omega

/-- A wakeup turns a promise into a woken consumer. -/
theorem wakeup (waking : system.phase thread = EventPhase.waking) :
    EventsSound (system.wakeup thread) := by
  obtain ⟨woken, pending, isWoken, isWaking, enough⟩ := sound.woken
  have waits :=
    @setPhase_keeps system thread EventPhase.outside EventPhase.waiting
      (by rw [waking]; decide) (by decide)
  have sleepers : Sleepers
        (fun other =>
          (system.setPhase thread EventPhase.outside).phase other =
            EventPhase.waiting)
        system.eventWait :=
    ⟨sound.sleepers.once, fun other sleeps =>
      (waits other).mpr (sound.sleepers.inside other sleeps)⟩
  obtain ⟨left, rfl⟩ := Nat.exists_eq_add_of_lt (isWaking.pos waking)
  rw [Nat.zero_add] at isWaking enough
  have leaves :=
    isWaking.erase waking
      (@setPhase_leaves system thread EventPhase.outside _ (by decide))
  have stillWoken : HasCount
        (Awake
          (fun other =>
            (system.setPhase thread EventPhase.outside).phase other =
              EventPhase.waiting)
          system.eventWait) woken :=
    isWoken.congr fun other => and_congr_left fun _ => waits other
  refine ⟨sound.conserved, ?_, sleepers.wakeup, ?_⟩
  · intro other holds
    exact sound.tested other
      ((setPhase_leaves system thread (by decide) other).mp holds).2
  · unfold EventSystem.Woken EventSystem.wakeup
    cases isQueue : system.eventWait with
    | nil =>
      rw [isQueue] at stillWoken
      exact ⟨woken, left, stillWoken, leaves, fun sleeps => absurd rfl sleeps⟩
    | cons first behind =>
      rw [isQueue] at stillWoken sleepers
      have enough := enough (by rw [isQueue]; exact List.cons_ne_nil _ _)
      refine ⟨woken + 1, left,
        stillWoken.insert ?_ sleepers.awake_wakeup, leaves, fun _ => ?_⟩
      · exact fun awake => awake.2 List.mem_cons_self
      · change system.eventList.length ≤ _
        omega

theorem get (runs : thread ∉ system.eventWait)
    (consumes : system.phase thread ≠ EventPhase.waking)
    (unlocked : ¬ system.Locked) : EventsSound (system.get thread) := by
  obtain ⟨woken, waking, isWoken, isWaking, enough⟩ := sound.woken
  have same (phase : EventPhase) (other : Nat) (different : other ≠ thread) :
      (system.setPhase thread phase).phase other = EventPhase.waiting ↔
        system.phase other = EventPhase.waiting := by
    rw [setPhase_other system phase different]
  unfold EventSystem.get
  cases takes : takeEvent system.eventList with
  | none =>
    have isEmpty := takeEvent_none takes
    obtain ⟨left, isLeft, -⟩ :=
      isWoken.remove (@awake_leave _ _ system.eventWait thread
        (by rw [setPhase_thread]; decide) (same EventPhase.empty))
    refine ⟨sound.conserved, fun _ _ => isEmpty,
      sound.sleepers.leave runs (same _), left, waking, isLeft,
      isWaking.congr (setPhase_keeps consumes (by decide)), fun _ => ?_⟩
    change system.eventList.length ≤ _
    rw [isEmpty]
    exact Nat.zero_le _
  | some taken =>
    obtain ⟨event, rest⟩ := taken
    have isList := takeEvent_some takes
    obtain ⟨left, isLeft, counts⟩ :=
      isWoken.remove (@awake_leave _ _ system.eventWait thread
        (by rw [setPhase_thread]; decide) (same EventPhase.outside))
    refine ⟨?_, ?_, sound.sleepers.leave runs (same _), left, waking,
      isLeft, isWaking.congr (setPhase_keeps consumes (by decide)),
      fun sleeps => ?_⟩
    · have conserved := sound.conserved
      rw [isList, List.reverse_append, List.reverse_singleton,
        ← List.append_assoc] at conserved
      exact conserved
    · intro other holds
      have held := (setPhase_leaves system thread (by decide) other).mp holds
      exact absurd ⟨other, held.2⟩ unlocked
    · have enough := enough sleeps
      rw [isList, List.length_append, List.length_singleton] at enough
      change rest.length ≤ _
      omega

theorem sleep (holds : system.phase thread = EventPhase.empty) :
    EventsSound (system.sleep thread) := by
  obtain ⟨woken, waking, isWoken, isWaking, -⟩ := sound.woken
  have isEmpty := sound.tested thread holds
  have runs : thread ∉ system.eventWait := by
    intro sleeps
    have waits := sound.sleepers.inside thread sleeps
    rw [holds] at waits
    cases waits
  have same (other : Nat) (different : other ≠ thread) :
      (system.setPhase thread EventPhase.waiting).phase other =
          EventPhase.waiting ↔
        system.phase other = EventPhase.waiting := by
    rw [setPhase_other system _ different]
  obtain ⟨left, isLeft, -⟩ := isWoken.remove (awake_sleep same)
  refine ⟨sound.conserved, fun _ _ => isEmpty,
    sound.sleepers.sleep runs (setPhase_thread _ _ _) same, left, waking,
    isLeft, isWaking.congr (setPhase_keeps ?_ (by decide)), fun _ => ?_⟩
  · rw [holds]
    decide
  · change system.eventList.length ≤ _
    rw [isEmpty]
    exact Nat.zero_le _

theorem step {call : EventCall} {next : EventSystem}
    (called : EventStep system call next) : EventsSound next := by
  cases called with
  | register outside unlocked =>
    exact sound.add outside unlocked _
  | wakeup waking =>
    exact sound.wakeup waking
  | get outside unlocked =>
    refine sound.get (fun sleeps => ?_) (by rw [outside]; decide) unlocked
    have waits := sound.sleepers.inside _ sleeps
    rw [outside] at waits
    cases waits
  | resume woken unlocked =>
    refine sound.get woken.2 ?_ unlocked
    rw [woken.1]
    simp
  | sleep holds =>
    exact sound.sleep holds

end EventsSound

/-- What producers and consumers rely on. -/
structure EventSystem.Delivers (system : EventSystem) : Prop where
  /-- The events come out in the order in which they went in. -/
  inOrder : system.returned <+: system.added
  /-- An event is either returned or still queued, once. -/
  conserved : system.returned ++ system.eventList.reverse = system.added
  /-- With an event and a sleeper, somebody is on the way. -/
  notStranded : ∀ thread, system.eventList ≠ [] → system.Asleep thread →
      (∃ woken, system.Woken woken) ∨
        ∃ producer, system.phase producer = EventPhase.waking

/--
For every interleaving of the sections: the events returned are a prefix of
those added, and no consumer is left asleep beside a queued event.
-/
theorem deviceEvents_delivered :
    ∀ (calls : List EventCall) (system : EventSystem),
      Run EventStep .init calls system →
      system.Delivers := by
  intro calls system ran
  have sound :=
    ran.invariant (fun _ system => EventsSound system) .init
      fun sound called => sound.step called
  refine ⟨⟨_, sound.conserved⟩, sound.conserved, ?_⟩
  intro thread queued sleeps
  obtain ⟨woken, waking, isWoken, isWaking, enough⟩ := sound.woken
  have enough := enough (List.ne_nil_of_mem sleeps)
  have some := List.length_pos_iff.mpr queued
  by_cases nobody : woken = 0
  · exact Or.inr (isWaking.exists (by omega))
  · exact Or.inl (isWoken.exists (Nat.pos_of_ne_zero nobody))

/-- A consumer sleeps beside an event whose wakeup is still to come. -/
theorem sleeper_delivered :
    ∃ system : EventSystem,
      system.eventList = [registerEvent 0 [] 7] ∧
        system.Asleep 1 ∧ system.Delivers := by
  have unlocked : ¬ EventSystem.init.Locked := by
    rintro ⟨thread, holds⟩
    cases holds
  have slept : Run EventStep .init [.get 1, .sleep 1]
        ((EventSystem.init.get 1).sleep 1) :=
    (Run.single (.get rfl unlocked)).append (.single (.sleep rfl))
  have released : ¬ ((EventSystem.init.get 1).sleep 1).Locked := by
    rintro ⟨thread, holds⟩
    obtain ⟨notOne, held⟩ :=
      (setPhase_leaves (EventSystem.init.get 1) 1 (by decide) thread).mp holds
    rcases (setPhase_enters EventSystem.init 1 EventPhase.empty thread).mp
        held with isOne | never
    · exact notOne isOne
    · cases never
  have added :=
    slept.append (.single (@EventStep.register _ 0 0 [] 7 rfl released))
  exact ⟨_, rfl, List.mem_singleton_self 1, deviceEvents_delivered _ _ added⟩

end Idylla.Kernel
