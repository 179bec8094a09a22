namespace Idylla.Lib

/-!
# Ring buffers

A ring of `size` cells holds the items from one index up to another one, both
below `size`, and wraps around behind its last cell.  Equal indices stand for
the empty ring, so that one cell always stays free.
-/

variable {Item : Type}

/-- The items in `count` cells of a ring, from the index `start` on. -/
def ringItems (size : Nat) (cells : Nat → Item)
    (start count : Nat) : List Item :=
  (List.range count).map fun offset => cells ((start + offset) % size)

/-- The number of cells from one index up to another one. -/
def ringCount (size start stop : Nat) : Nat :=
  (stop + size - start) % size

/-- One cell of a ring replaced. -/
def setCell (cells : Nat → Item) (index : Nat) (item : Item) : Nat → Item :=
  fun other => if other = index then item else cells other

@[simp] theorem length_ringItems (size : Nat) (cells : Nat → Item)
    (start count : Nat) :
    (ringItems size cells start count).length = count := by
  simp [ringItems]

theorem ringItems_pop {size start : Nat} (inRange : start < size)
    (cells : Nat → Item) (count : Nat) :
    ringItems size cells start (count + 1) =
      cells start :: ringItems size cells ((start + 1) % size) count := by
  have shift : ∀ offset,
        (start + (offset + 1)) % size =
          ((start + 1) % size + offset) % size := by
    intro offset
    rw [Nat.mod_add_mod]
    congr 1
    omega
  simp only [ringItems, List.range_succ_eq_map, List.map_cons,
    List.map_map, Nat.add_zero, Nat.mod_eq_of_lt inRange]
  congr 1
  refine List.map_congr_left ?_
  intro offset _
  exact congrArg cells (shift offset)

theorem ring_index_ne {size start offset count : Nat} (before : offset < count)
    (bounded : count < size) :
    (start + offset) % size ≠ (start + count) % size := by
  intro same
  have multiple := Nat.sub_mod_eq_zero_of_mod_eq same.symm
  have distance : start + count - (start + offset) = count - offset := by
    omega
  rw [distance, Nat.mod_eq_of_lt (by omega)] at multiple
  omega

theorem ringItems_push {size count : Nat} (bounded : count < size)
    (cells : Nat → Item) (start : Nat) (item : Item) :
    ringItems size (setCell cells ((start + count) % size) item) start
        (count + 1) =
      ringItems size cells start count ++ [item] := by
  have old : ∀ offset ∈ List.range count,
        setCell cells ((start + count) % size) item ((start + offset) % size) =
          cells ((start + offset) % size) := by
    intro offset member
    exact if_neg (ring_index_ne (List.mem_range.mp member) bounded)
  simp only [ringItems, List.range_succ, List.map_append, List.map_cons,
    List.map_nil, List.map_congr_left old]
  simp [setCell]

theorem ringItems_unpush (size : Nat) (cells : Nat → Item) (start count : Nat) :
    ringItems size cells start count =
      (ringItems size cells start (count + 1)).dropLast := by
  simp [ringItems, List.range_succ]

section Indices

variable {size start stop : Nat}

theorem ring_next (inRange : start < size) :
    (start + 1) % size = if start + 1 = size then 0 else start + 1 := by
  split
  next isLast => rw [isLast, Nat.mod_self]
  · exact Nat.mod_eq_of_lt (by omega)

section

variable (startInRange : start < size) (stopInRange : stop < size)

include startInRange stopInRange

theorem ringCount_eq :
    ringCount size start stop =
      if start ≤ stop then stop - start else stop + size - start := by
  unfold ringCount
  split
  · rw [show stop + size - start = stop - start + size by omega,
      Nat.add_mod_right, Nat.mod_eq_of_lt (by omega)]
  · exact Nat.mod_eq_of_lt (by omega)

theorem ring_stop :
    (start + ringCount size start stop) % size = stop := by
  rw [ringCount_eq startInRange stopInRange]
  split
  · rw [Nat.mod_eq_of_lt (by omega)]
    omega
  · rw [show start + (stop + size - start) = stop + size by omega,
      Nat.add_mod_right, Nat.mod_eq_of_lt stopInRange]

theorem ringCount_pop (nonempty : stop ≠ start) :
    ringCount size start stop =
      ringCount size ((start + 1) % size) stop + 1 := by
  have next := ring_next startInRange
  rw [ringCount_eq startInRange stopInRange,
    ringCount_eq (Nat.mod_lt _ (by omega)) stopInRange]
  split at next <;> split <;> split <;> omega

theorem ringCount_push (notFull : (stop + 1) % size ≠ start) :
    ringCount size start ((stop + 1) % size) =
      ringCount size start stop + 1 := by
  have next := ring_next stopInRange
  rw [ringCount_eq startInRange stopInRange,
    ringCount_eq startInRange (Nat.mod_lt _ (by omega))]
  split at next <;> split <;> split <;> omega

theorem ringCount_unpush (nonempty : stop ≠ start) (notFirst : stop ≠ 0) :
    ringCount size start stop = ringCount size start (stop - 1) + 1 := by
  rw [ringCount_eq startInRange stopInRange,
    ringCount_eq startInRange (by omega)]
  split <;> split <;> omega

theorem ringCount_eq_zero_iff :
    ringCount size start stop = 0 ↔ stop = start := by
  rw [ringCount_eq startInRange stopInRange]
  split <;> omega

theorem ringCount_full_iff :
    ringCount size start stop = size - 1 ↔ (stop + 1) % size = start := by
  rw [ring_next stopInRange, ringCount_eq startInRange stopInRange]
  split <;> split <;> omega

end

theorem ringCount_lt (startInRange : start < size) :
    ringCount size start stop < size :=
  Nat.mod_lt _ (by omega)

end Indices

end Idylla.Lib
