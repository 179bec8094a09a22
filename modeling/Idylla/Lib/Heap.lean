namespace Idylla.Lib

/-!
# Heaps

A heap maps pointers to cells and knows a bound above which nothing has been
allocated yet.  Allocation uses the bound as the new pointer, so a pointer is
never handed out twice.
-/

/-- Cells by pointer; nothing is allocated from `next` on. -/
structure Heap (Cell : Type) where
  cells : Nat → Option Cell
  next : Nat
  unallocated : ∀ pointer, next ≤ pointer → cells pointer = none

namespace Heap

variable {Cell : Type}

/-- The heap in which nothing is allocated. -/
def empty : Heap Cell where
  cells := fun _ => none
  next := 0
  unallocated := fun _ _ => rfl

/-- The heap after a cell has been put at the fresh pointer `heap.next`. -/
def alloc (heap : Heap Cell) (cell : Cell) : Heap Cell where
  cells := fun pointer =>
    if pointer = heap.next then some cell else heap.cells pointer
  next := heap.next + 1
  unallocated := by
    intro pointer above
    rw [if_neg (by omega)]
    exact heap.unallocated pointer (by omega)

/-- Change an allocated cell; a dangling pointer changes nothing. -/
def modify (heap : Heap Cell) (pointer : Nat) (change : Cell → Cell) :
    Heap Cell where
  cells := fun other =>
    if other = pointer then (heap.cells pointer).map change
    else heap.cells other
  next := heap.next
  unallocated := by
    intro other above
    by_cases same : other = pointer
    · subst same
      simp [heap.unallocated other above]
    · rw [if_neg same]
      exact heap.unallocated other above

/-- Free a cell. -/
def free (heap : Heap Cell) (pointer : Nat) : Heap Cell where
  cells := fun other =>
    if other = pointer then none else heap.cells other
  next := heap.next
  unallocated := by
    intro other above
    by_cases same : other = pointer
    · rw [if_pos same]
    · rw [if_neg same]
      exact heap.unallocated other above

variable {heap : Heap Cell} {pointer : Nat} {cell : Cell}

@[simp] theorem cells_alloc_next :
    (heap.alloc cell).cells heap.next = some cell := by
  simp [alloc]

theorem lt_next (allocated : heap.cells pointer = some cell) :
    pointer < heap.next := by
  apply Nat.lt_of_not_le
  intro above
  rw [heap.unallocated pointer above] at allocated
  simp at allocated

theorem cells_alloc_of_lt (below : pointer < heap.next) :
    (heap.alloc cell).cells pointer = heap.cells pointer := by
  simp [alloc, Nat.ne_of_lt below]

theorem cells_alloc_of_some {other : Cell}
    (allocated : heap.cells pointer = some other) :
    (heap.alloc cell).cells pointer = some other := by
  rw [cells_alloc_of_lt (lt_next allocated), allocated]

theorem cells_alloc_some {new : Cell}
    (allocated : (heap.alloc new).cells pointer = some cell) :
    pointer = heap.next ∧ cell = new ∨ heap.cells pointer = some cell := by
  by_cases isNext : pointer = heap.next
  · rw [isNext, cells_alloc_next] at allocated
    exact .inl ⟨isNext, (Option.some.inj allocated).symm⟩
  · right
    simpa [alloc, isNext] using allocated

variable {change : Cell → Cell}

@[simp] theorem cells_modify_same :
    (heap.modify pointer change).cells pointer =
      (heap.cells pointer).map change := by
  simp [modify]

theorem cells_modify_of_ne {other : Nat} (different : other ≠ pointer) :
    (heap.modify pointer change).cells other = heap.cells other := by
  simp [modify, different]

theorem cells_modify_none {other : Nat} (free : heap.cells other = none) :
    (heap.modify pointer change).cells other = none := by
  by_cases same : other = pointer
  · rw [same] at free
    rw [same, cells_modify_same, free]
    rfl
  · rw [cells_modify_of_ne same, free]

@[simp] theorem cells_free_same :
    (heap.free pointer).cells pointer = none := by
  simp [free]

theorem cells_free_of_ne {other : Nat} (different : other ≠ pointer) :
    (heap.free pointer).cells other = heap.cells other := by
  simp [free, different]

theorem cells_alloc_free :
    ((heap.alloc cell).free heap.next).cells pointer = heap.cells pointer := by
  by_cases isNext : pointer = heap.next
  · rw [isNext, cells_free_same, heap.unallocated _ (Nat.le_refl _)]
  · rw [cells_free_of_ne isNext]
    exact if_neg isNext

end Heap

end Idylla.Lib
