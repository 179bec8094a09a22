namespace Idylla.Lib

/-!
# Cell memories

A memory is a total function from addresses to cells.  Copying and filling a
range of cells are the only two bulk operations, and every fact below says
which cells of the result come from where.
-/

/-- One cell for every address. -/
abbrev Memory (Cell : Type) := Nat → Cell

namespace Memory

variable {Cell : Type}

/--
Copy `count` cells of `source`, starting at `sourceAt`, over the cells of
`target` that start at `targetAt`.
-/
def copy (target : Memory Cell) (targetAt : Nat)
    (source : Memory Cell) (sourceAt count : Nat) : Memory Cell :=
  fun address =>
    if targetAt ≤ address ∧ address < targetAt + count then
      source (sourceAt + (address - targetAt))
    else
      target address

/-- Overwrite `count` cells with one value. -/
def fill (target : Memory Cell) (targetAt : Nat)
    (value : Cell) (count : Nat) : Memory Cell :=
  copy target targetAt (fun _ => value) 0 count

/-- One cell written. -/
def set (target : Memory Cell) (cell : Nat) (value : Cell) : Memory Cell :=
  fun address => if address = cell then value else target address

@[simp] theorem set_same (target : Memory Cell) (cell : Nat) (value : Cell) :
    target.set cell value cell = value :=
  if_pos rfl

theorem set_of_ne {target : Memory Cell} {cell address : Nat} {value : Cell}
    (differs : address ≠ cell) :
    target.set cell value address = target address :=
  if_neg differs

@[simp] theorem set_self (target : Memory Cell) (cell : Nat) :
    target.set cell (target cell) = target := by
  funext address
  by_cases same : address = cell
  · rw [same, set_same]
  · rw [set_of_ne same]

theorem fill_eq (target : Memory Cell) (targetAt : Nat)
    (value : Cell) (count address : Nat) :
    fill target targetAt value count address =
      if targetAt ≤ address ∧ address < targetAt + count then value
      else target address :=
  rfl

variable {targetAt sourceAt count address : Nat}

theorem copy_inside {target source : Memory Cell}
    (lower : targetAt ≤ address) (upper : address < targetAt + count) :
    copy target targetAt source sourceAt count address =
      source (sourceAt + (address - targetAt)) := by
  simp [copy, lower, upper]

theorem copy_outside {target source : Memory Cell}
    (outside : address < targetAt ∨ targetAt + count ≤ address) :
    copy target targetAt source sourceAt count address = target address := by
  unfold copy
  rw [if_neg]
  omega

@[simp] theorem copy_zero (target source : Memory Cell)
    (targetAt sourceAt : Nat) :
    copy target targetAt source sourceAt 0 = target := by
  funext address
  exact copy_outside (by omega)

theorem copy_copy_adjacent (target source : Memory Cell)
    (targetAt sourceAt first second : Nat) :
    copy (copy target targetAt source sourceAt first)
        (targetAt + first) source (sourceAt + first) second =
      copy target targetAt source sourceAt (first + second) := by
  funext address
  unfold copy
  by_cases inSecond :
      targetAt + first ≤ address ∧ address < targetAt + first + second
  · rw [if_pos inSecond, if_pos (by omega)]
    congr 1
    omega
  · rw [if_neg inSecond]
    by_cases inFirst : targetAt ≤ address ∧ address < targetAt + first
    · rw [if_pos inFirst, if_pos (by omega)]
    · rw [if_neg inFirst, if_neg (by omega)]

theorem copy_succ (target source : Memory Cell)
    (targetAt sourceAt count : Nat) :
    copy (target.set targetAt (source sourceAt)) (targetAt + 1) source
        (sourceAt + 1) count =
      copy target targetAt source sourceAt (count + 1) := by
  funext address
  by_cases isFirst : address = targetAt
  · rw [isFirst, copy_outside (.inl (Nat.lt_succ_self _)), set_same,
      copy_inside (Nat.le_refl _) (by omega), Nat.sub_self, Nat.add_zero]
  · by_cases inside : targetAt + 1 ≤ address ∧ address < targetAt + 1 + count
    · rw [copy_inside inside.1 inside.2, copy_inside (by omega) (by omega)]
      congr 1
      omega
    · rw [copy_outside (by omega), copy_outside (by omega), set_of_ne isFirst]

end Memory

end Idylla.Lib
