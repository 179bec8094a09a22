namespace Idylla.Lib

/-!
# Runs of free cells

Cells on a line, some of which are free.  An allocator that hands out several
cells in a row looks for the first run that is long enough; where one run ends
before it is long enough, none that is long enough starts in it.
-/

variable {free : Nat → Prop} {first len start last : Nat}

/-- The cells from one on, a number of them, are free. -/
def FreeRun (free : Nat → Prop) (first len : Nat) : Prop :=
  ∀ cell, first ≤ cell → cell < first + len → free cell

/-- So many free cells in a row lie between two bounds. -/
def HasRun (free : Nat → Prop) (len start last : Nat) : Prop :=
  ∃ first, start ≤ first ∧ first + len ≤ last ∧ FreeRun free first len

/-- The first free cells in a row from a bound on. -/
structure FirstRun (free : Nat → Prop) (len start first : Nat) : Prop where
  behind : start ≤ first
  isFree : FreeRun free first len
  least : ∀ other, start ≤ other → FreeRun free other len → first ≤ other

/-- The first free cell from a bound on. -/
structure FirstFree (free : Nat → Prop) (start first : Nat) : Prop where
  behind : start ≤ first
  isFree : free first
  least : ∀ other, start ≤ other → free other → first ≤ other

theorem FreeRun.head (run : FreeRun free first len) (positive : 0 < len) :
    free first :=
  run first (Nat.le_refl _) (by omega)

theorem freeRun_one : FreeRun free first 1 ↔ free first := by
  constructor
  · intro run
    exact run.head Nat.one_pos
  · intro isFree cell above below
    obtain rfl : cell = first := by omega
    exact isFree

theorem FreeRun.cons (isFree : free first)
    (run : FreeRun free (first + 1) len) : FreeRun free first (len + 1) := by
  intro cell above below
  by_cases isFirst : cell = first
  · rw [isFirst]
    exact isFree
  · exact run cell (by omega) (by omega)

variable (found : FirstFree free start first) (positive : 0 < len)

include found positive

theorem FirstFree.firstRun (run : FreeRun free first len) :
    FirstRun free len start first where
  behind := found.behind
  isFree := run
  least := fun other behind isRun =>
    found.least other behind (isRun.head positive)

theorem FirstFree.behind_break (inUse : ¬ free last)
    (short : last < first + len) {other : Nat} (behind : start ≤ other)
    (run : FreeRun free other len) : last < other := by
  have fromFirst := found.least other behind (run.head positive)
  apply Decidable.byContradiction
  intro notBehind
  exact inUse (run last (by omega) (by omega))

theorem FirstFree.firstRun_of_break (inUse : ¬ free last)
    (short : last < first + len) (later : start ≤ last) {target : Nat}
    (isFirst : FirstRun free len last target) :
    FirstRun free len start target where
  behind := Nat.le_trans later isFirst.behind
  isFree := isFirst.isFree
  least := fun other behind run =>
    isFirst.least other
      (Nat.le_of_lt (found.behind_break positive inUse short behind run)) run

end Idylla.Lib
