import Mathlib.Algebra.Group.Int.Defs
import Mathlib.Algebra.Group.Nat.Defs
import Idylla.Lib.Ring
import Idylla.Lib.Run

namespace Idylla.Tty

open Idylla.Lib

/-!
# The ring queue of a terminal

`struct tty_queue` with `tty_inq`, `tty_deq` and `tty_unq`, each of which runs
under the lock of the queue.  A `size_t` has 32 bits and is compared unsigned,
also with the `int temp` of `tty_inq`.
-/

/-- `struct tty_queue`, less its lock. -/
structure TtyQueue where
  size : BitVec 32
  inPtr : BitVec 32
  outPtr : BitVec 32
  data : Nat → BitVec 8

/-- An empty queue. -/
def TtyQueue.empty (size : BitVec 32) (data : Nat → BitVec 8) : TtyQueue where
  size := size
  inPtr := 0
  outPtr := 0
  data := data

/-- The test behind `++`: an index at the size, or behind it, becomes 0. -/
def TtyQueue.wrap (queue : TtyQueue) (ptr : BitVec 32) : BitVec 32 :=
  if queue.size ≤ ptr then 0 else ptr

/-- `tty_emptyq` -/
def ttyEmptyq (queue : TtyQueue) : Bool :=
  queue.inPtr == queue.outPtr

/-- `tty_inq`; nothing where it returns -1. -/
def ttyInq (queue : TtyQueue) (data : BitVec 8) : Option TtyQueue :=
  let temp := queue.wrap (queue.inPtr + 1)
  if temp = queue.outPtr then none
  else
    some
      { queue with
        data := setCell queue.data queue.inPtr.toNat data
        inPtr := temp }

/-- `tty_deq`; nothing where it returns -1. -/
def ttyDeq (queue : TtyQueue) : Option (BitVec 8 × TtyQueue) :=
  if queue.inPtr = queue.outPtr then none
  else
    some
      (queue.data queue.outPtr.toNat,
        { queue with outPtr := queue.wrap (queue.outPtr + 1) })

/-- `tty_unq`; nothing where it returns -1. -/
def ttyUnq (queue : TtyQueue) : Option TtyQueue :=
  if queue.inPtr = queue.outPtr then none
  else
    let inPtr := queue.inPtr - 1
    -- `in_ptr` is unsigned, so that it is never below zero
    some { queue with inPtr := if inPtr < 0 then queue.size - 1 else inPtr }

namespace TtyQueue

/-- Both pointers are indices of the ring. -/
structure InRange (queue : TtyQueue) : Prop where
  inPtr : queue.inPtr < queue.size
  outPtr : queue.outPtr < queue.size

/-- The characters in the queue, oldest first. -/
def items (queue : TtyQueue) : List (BitVec 8) :=
  ringItems queue.size.toNat queue.data queue.outPtr.toNat
    (ringCount queue.size.toNat queue.outPtr.toNat queue.inPtr.toNat)

variable {queue after : TtyQueue} {data : BitVec 8}

theorem toNat_wrap {ptr : BitVec 32} (inRange : ptr < queue.size) :
    (queue.wrap (ptr + 1)).toNat = (ptr.toNat + 1) % queue.size.toNat := by
  have below : ptr.toNat < queue.size.toNat := inRange
  have next : (ptr + 1).toNat = ptr.toNat + 1 := by
    exact Nat.mod_eq_of_lt (by
      have one : (1 : BitVec 32).toNat = 1 := rfl
      omega)
  rw [ring_next below, wrap]
  by_cases isLast : ptr.toNat + 1 = queue.size.toNat
  · rw [if_pos isLast, if_pos (by rw [BitVec.le_def]; omega)]
    rfl
  · rw [if_neg isLast, if_neg (by rw [BitVec.le_def]; omega), next]

theorem wrap_lt {ptr : BitVec 32} (inRange : ptr < queue.size) :
    queue.wrap (ptr + 1) < queue.size := by
  rw [BitVec.lt_def, toNat_wrap inRange]
  exact Nat.mod_lt _ (Nat.lt_of_le_of_lt (Nat.zero_le _) inRange)

theorem inRange_empty {size : BitVec 32} (positive : 0 < size.toNat)
    (data : Nat → BitVec 8) : (TtyQueue.empty size data).InRange :=
  ⟨positive, positive⟩

section

variable (inRange : queue.InRange)

include inRange

theorem InRange.items_eq_nil_iff :
    queue.items = [] ↔ queue.inPtr = queue.outPtr := by
  rw [← List.length_eq_zero_iff, items, length_ringItems,
    ringCount_eq_zero_iff inRange.outPtr inRange.inPtr, BitVec.toNat_inj]

theorem InRange.ttyInq_eq_none_iff :
    ttyInq queue data = none ↔ queue.items.length = queue.size.toNat - 1 := by
  rw [items, length_ringItems, ringCount_full_iff inRange.outPtr inRange.inPtr,
    ← toNat_wrap inRange.inPtr, BitVec.toNat_inj]
  unfold ttyInq
  dsimp only
  split <;> simp_all

theorem InRange.ttyInq_some (puts : ttyInq queue data = some after) :
    after.InRange ∧ after.size = queue.size ∧
      after.items = queue.items ++ [data] := by
  unfold ttyInq at puts
  dsimp only at puts
  split at puts
  · cases puts
  next notFull =>
    cases puts
    refine ⟨⟨wrap_lt inRange.inPtr, inRange.outPtr⟩, rfl, ?_⟩
    have notFull' :
        (queue.inPtr.toNat + 1) % queue.size.toNat ≠ queue.outPtr.toNat := by
      rw [← toNat_wrap inRange.inPtr]
      exact fun same => notFull (BitVec.toNat_inj.mp same)
    have pushed :=
      @ringItems_push _ queue.size.toNat _
        (@ringCount_lt _ _ queue.inPtr.toNat inRange.outPtr) queue.data
        queue.outPtr.toNat data
    rw [ring_stop inRange.outPtr inRange.inPtr] at pushed
    unfold items
    rw [toNat_wrap inRange.inPtr,
      ringCount_push inRange.outPtr inRange.inPtr notFull', pushed]

theorem InRange.ttyDeq_eq_none_iff :
    ttyDeq queue = none ↔ queue.items = [] := by
  rw [inRange.items_eq_nil_iff]
  unfold ttyDeq
  split <;> simp_all

theorem InRange.ttyDeq_some (takes : ttyDeq queue = some (data, after)) :
    after.InRange ∧ after.size = queue.size ∧
      queue.items = data :: after.items := by
  unfold ttyDeq at takes
  split at takes
  · cases takes
  next nonempty =>
    cases takes
    refine ⟨⟨inRange.inPtr, wrap_lt inRange.outPtr⟩, rfl, ?_⟩
    have different : queue.inPtr.toNat ≠ queue.outPtr.toNat :=
      fun same => nonempty (BitVec.toNat_inj.mp same)
    unfold items
    rw [toNat_wrap inRange.outPtr,
      ringCount_pop inRange.outPtr inRange.inPtr different,
      ringItems_pop inRange.outPtr]

theorem InRange.ttyUnq_eq_none_iff :
    ttyUnq queue = none ↔ queue.items = [] := by
  rw [inRange.items_eq_nil_iff]
  unfold ttyUnq
  split <;> simp_all

end

theorem ttyUnq_eq_some_iff :
    ttyUnq queue = some after ↔
      queue.inPtr ≠ queue.outPtr ∧
        after = { queue with inPtr := queue.inPtr - 1 } := by
  unfold ttyUnq
  split
  next isEmpty => exact ⟨nofun, fun removes => absurd isEmpty removes.1⟩
  next nonempty =>
    rw [Option.some.injEq]
    exact ⟨fun same => ⟨nonempty, same.symm⟩, fun removes => removes.2.symm⟩

theorem InRange.ttyUnq_some (inRange : queue.InRange)
    (removes : ttyUnq queue = some after) (notFirst : queue.inPtr ≠ 0) :
    after.InRange ∧ after.size = queue.size ∧
      after.items = queue.items.dropLast := by
  obtain ⟨nonempty, rfl⟩ := ttyUnq_eq_some_iff.mp removes
  have inPtrBelow : queue.inPtr.toNat < queue.size.toNat := inRange.inPtr
  have positive : queue.inPtr.toNat ≠ 0 :=
    fun isZero => notFirst (BitVec.toNat_inj.mp isZero)
  have different : queue.inPtr.toNat ≠ queue.outPtr.toNat :=
    fun same => nonempty (BitVec.toNat_inj.mp same)
  have before : (queue.inPtr - 1).toNat = queue.inPtr.toNat - 1 := by
    have one : (1 : BitVec 32).toNat = 1 := rfl
    rw [BitVec.toNat_sub]
    omega
  refine ⟨⟨?_, inRange.outPtr⟩, rfl, ?_⟩
  · show (queue.inPtr - 1).toNat < queue.size.toNat
    omega
  · unfold items
    rw [before, ringCount_unpush inRange.outPtr inPtrBelow different positive]
    exact ringItems_unpush _ _ _ _

theorem not_inRange_of_ttyUnq (removes : ttyUnq queue = some after)
    (isFirst : queue.inPtr = 0) : ¬ after.InRange := by
  obtain ⟨-, rfl⟩ := ttyUnq_eq_some_iff.mp removes
  rintro ⟨inPtr, -⟩
  have inPtr : (queue.inPtr - 1).toNat < queue.size.toNat := inPtr
  rw [isFirst] at inPtr
  have last : (0 - 1 : BitVec 32).toNat = 2 ^ 32 - 1 := rfl
  omega

end TtyQueue

/-- The operations on a queue. -/
inductive QueueOp where
  | inq (data : BitVec 8)
  | deq
  | unq

/-- What an operation returns: -1, 0, or 0 with a character. -/
inductive QueueResult where
  | fails
  | done
  | took (data : BitVec 8)
  deriving DecidableEq

/-- The queue after an operation, with what it returns. -/
def TtyQueue.run (queue : TtyQueue) : QueueOp → TtyQueue × QueueResult
  | .inq data =>
    match ttyInq queue data with
    | none => (queue, .fails)
    | some after => (after, .done)
  | .deq =>
    match ttyDeq queue with
    | none => (queue, .fails)
    | some (data, after) => (after, .took data)
  | .unq =>
    match ttyUnq queue with
    | none => (queue, .fails)
    | some after => (after, .done)

/-- A queue with what its operations have returned. -/
structure QueueRun where
  queue : TtyQueue
  returned : List QueueResult

/-- A queue of which nothing has been asked. -/
def QueueRun.start (size : BitVec 32) (data : Nat → BitVec 8) : QueueRun where
  queue := .empty size data
  returned := []

/-- The queue after one more operation. -/
def QueueRun.after (run : QueueRun) (op : QueueOp) : QueueRun where
  queue := (run.queue.run op).1
  returned := run.returned ++ [(run.queue.run op).2]

/-- One operation as a transition. -/
def QueueStep (source : QueueRun) (op : QueueOp) (target : QueueRun) : Prop :=
  target = source.after op

/-- What a queue is for: a list with two ends and room for `capacity` items. -/
def boundedList (capacity : Nat) (items : List (BitVec 8)) :
    QueueOp → List (BitVec 8) × QueueResult
  | .inq data =>
    if items.length = capacity then (items, .fails)
    else (items ++ [data], .done)
  | .deq =>
    match items with
    | [] => ([], .fails)
    | first :: rest => (rest, .took first)
  | .unq =>
    if items = [] then ([], .fails) else (items.dropLast, .done)

/-- The list after operations, with what they return. -/
def listAfter (capacity : Nat)
    (ops : List QueueOp) : List (BitVec 8) × List QueueResult :=
  ops.foldl
    (fun past op =>
      ((boundedList capacity past.1 op).1,
        past.2 ++ [(boundedList capacity past.1 op).2]))
    ([], [])

/-- A queue of a size behaves as the list that holds one item less. -/
structure RefinesList
    (size : BitVec 32) (ops : List QueueOp)
    (run : QueueRun) : Prop where
  sameSize : run.queue.size = size
  inRange : run.queue.InRange
  items : run.queue.items = (listAfter (size.toNat - 1) ops).1
  returned : run.returned = (listAfter (size.toNat - 1) ops).2

/-- `tty_unq` takes nothing back while `in_ptr` is the first index. -/
def KeepsInPtr (run : QueueRun) : QueueOp → Prop
  | .unq => run.queue.inPtr = run.queue.outPtr ∨ run.queue.inPtr ≠ 0
  | _ => True

theorem listAfter_append (capacity : Nat) (ops : List QueueOp) (op : QueueOp) :
    listAfter capacity (ops ++ [op]) =
      ((boundedList capacity (listAfter capacity ops).1 op).1,
        (listAfter capacity ops).2 ++
          [(boundedList capacity (listAfter capacity ops).1 op).2]) := by
  simp only [listAfter, List.foldl_append, List.foldl_cons, List.foldl_nil]

namespace TtyQueue

variable {queue : TtyQueue} {op : QueueOp}

/-- An operation does to the ring what it does to the list. -/
theorem InRange.run (inRange : queue.InRange)
    (keeps : op = .unq → queue.inPtr = queue.outPtr ∨ queue.inPtr ≠ 0) :
    (queue.run op).1.InRange ∧ (queue.run op).1.size = queue.size ∧
      (queue.run op).1.items =
        (boundedList (queue.size.toNat - 1) queue.items op).1 ∧
      (queue.run op).2 =
        (boundedList (queue.size.toNat - 1) queue.items op).2 := by
  unfold TtyQueue.run boundedList
  cases op with
  | inq data =>
    cases puts : ttyInq queue data with
    | none =>
      have isFull := inRange.ttyInq_eq_none_iff.mp puts
      simp [puts, isFull, inRange]
    | some after =>
      have notFull : queue.items.length ≠ queue.size.toNat - 1 :=
        fun isFull => by
          rw [inRange.ttyInq_eq_none_iff.mpr isFull] at puts
          cases puts
      obtain ⟨afterInRange, sameSize, isItems⟩ := inRange.ttyInq_some puts
      simp [puts, notFull, afterInRange, sameSize, isItems]
  | deq =>
    cases takes : ttyDeq queue with
    | none =>
      have isEmpty := inRange.ttyDeq_eq_none_iff.mp takes
      simp [isEmpty, inRange]
    | some taken =>
      obtain ⟨afterInRange, sameSize, isItems⟩ := inRange.ttyDeq_some takes
      simp [isItems, afterInRange, sameSize]
  | unq =>
    cases removes : ttyUnq queue with
    | none =>
      have isEmpty := inRange.ttyUnq_eq_none_iff.mp removes
      simp [isEmpty, inRange]
    | some after =>
      have nonempty : queue.items ≠ [] := fun isEmpty => by
        rw [inRange.ttyUnq_eq_none_iff.mpr isEmpty] at removes
        cases removes
      have notFirst : queue.inPtr ≠ 0 :=
        (keeps rfl).resolve_left (ttyUnq_eq_some_iff.mp removes).1
      obtain ⟨afterInRange, sameSize, isItems⟩ :=
        inRange.ttyUnq_some removes notFirst
      simp [nonempty, afterInRange, sameSize, isItems]

end TtyQueue

namespace RefinesList

variable {size : BitVec 32} {ops : List QueueOp} {run next : QueueRun}

theorem empty (large : 2 ≤ size.toNat) (data : Nat → BitVec 8) :
    RefinesList size [] (.start size data) := by
  have inRange : (TtyQueue.empty size data).InRange :=
    TtyQueue.inRange_empty (by omega) data
  exact ⟨rfl, inRange, inRange.items_eq_nil_iff.mpr rfl, rfl⟩

theorem step_iff (refines : RefinesList size ops run) {op : QueueOp}
    (stepped : QueueStep run op next) :
    RefinesList size (ops ++ [op]) next ↔ KeepsInPtr run op := by
  subst stepped
  constructor
  · intro after
    cases op with
    | unq =>
      refine Classical.or_iff_not_imp_left.mpr fun nonempty isFirst => ?_
      cases removes : ttyUnq run.queue with
      | none =>
        exact nonempty (refines.inRange.items_eq_nil_iff.mp
          (refines.inRange.ttyUnq_eq_none_iff.mp removes))
      | some left =>
        have inRange : (run.queue.run .unq).1.InRange := after.inRange
        rw [TtyQueue.run, removes] at inRange
        exact TtyQueue.not_inRange_of_ttyUnq removes isFirst inRange
    | inq data =>
      trivial
    | deq =>
      trivial
  · intro keeps
    obtain ⟨inRange, sameSize, isItems, returns⟩ :=
      @TtyQueue.InRange.run run.queue op refines.inRange
        fun isUnq => by subst isUnq; exact keeps
    rw [refines.sameSize, refines.items] at isItems returns
    refine ⟨sameSize.trans refines.sameSize, inRange, ?_, ?_⟩
    · rw [listAfter_append]
      exact isItems
    · rw [listAfter_append, refines.returned.symm]
      exact congrArg (run.returned ++ [·]) returns

end RefinesList

/--
In every run on an empty queue in which no `tty_unq` takes a character out of
the last cell of the ring, the queue behaves as a bounded list; any other
`tty_unq` ends that.
-/
theorem ttyQueue_refines_list {size : BitVec 32} (large : 2 ≤ size.toNat)
    {data : Nat → BitVec 8} {ops : List QueueOp} {run : QueueRun}
    (ran : Run (Guarded KeepsInPtr QueueStep) (.start size data) ops run) :
    RefinesList size ops run ∧
      ∀ op next, QueueStep run op next →
        (RefinesList size (ops ++ [op]) next ↔ KeepsInPtr run op) := by
  have refines :=
    ran.invariant (RefinesList size) (.empty large data)
      fun refines stepped => (refines.step_iff stepped.2).mpr stepped.1
  exact ⟨refines, fun op next stepped => refines.step_iff stepped⟩

/-- `a` and `b` have been typed, and `b` erased. -/
def typedAndErased : QueueRun :=
  (((QueueRun.start 256 fun _ => 0).after (.inq 97)).after (.inq 98)).after .unq

/-- The character in front of the erased one is read. -/
theorem typedAndErased_refines_list :
    (typedAndErased.after .deq).returned = [.done, .done, .done, .took 97] ∧
      RefinesList 256 [.inq 97, .inq 98, .unq, .deq]
        (typedAndErased.after .deq) := by
  have typed (run : QueueRun) (data : BitVec 8) :
      Guarded KeepsInPtr QueueStep run (.inq data) (run.after (.inq data)) :=
    ⟨trivial, rfl⟩
  have erased (run : QueueRun) (notFirst : run.queue.inPtr ≠ 0) :
      Guarded KeepsInPtr QueueStep run .unq (run.after .unq) :=
    ⟨.inr notFirst, rfl⟩
  have taken (run : QueueRun) :
      Guarded KeepsInPtr QueueStep run .deq (run.after .deq) :=
    ⟨trivial, rfl⟩
  have ran :=
    (((Run.single (typed (.start 256 fun _ => 0) 97)).append
      (.single (typed _ 98))).append
      (.single (erased _ (by decide)))).append (.single (taken _))
  exact ⟨rfl, (ttyQueue_refines_list (by decide) ran).1⟩

/-- In a ring of two cells the second character cannot be taken back. -/
theorem ttyUnq_leaves_ring :
    ¬ ∀ (size : BitVec 32) (data : Nat → BitVec 8) (ops : List QueueOp)
        (run : QueueRun),
        2 ≤ size.toNat → Run QueueStep (.start size data) ops run →
          RefinesList size ops run := by
  intro refines
  have step (run : QueueRun) (op : QueueOp) :
      Run QueueStep run [op] (run.after op) :=
    .single rfl
  have ran :=
    (((step (.start 2 fun _ => 0) (.inq 97)).append (step _ .deq)).append
      (step _ (.inq 98))).append (step _ .unq)
  have inRange := (refines 2 _ _ _ (by decide) ran).inRange.inPtr
  exact absurd inRange (by decide)

end Idylla.Tty
