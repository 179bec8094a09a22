import Idylla.Lib.Memory
import Mathlib.Algebra.Group.Nat.Defs

namespace Idylla.Lib

/-!
# Short writes

Blocks are written one after the other, and each write transfers the first
sectors of its block only.  For some blocks a write that is not whole is
noticed; then no further block is written.
-/

/-- What has become of a sequence of writes. -/
structure Sending (Address : Type) where
  /-- No short write has been noticed. -/
  finished : Bool
  /-- The number of the next write. -/
  calls : Nat
  /-- How many sectors of each block have been transferred. -/
  sectors : Address → Nat

section Sending

variable {Address Cell : Type} [DecidableEq Address] (whole : Nat)
  (done : Nat → Nat) (notices : Address → Bool)

/-- Blocks written in order; the writes are numbered from `call` on. -/
def sending : List Address → Nat → Sending Address
  | [], call =>
    { finished := true
      calls := call
      sectors := fun _ => 0 }
  | address :: rest, call =>
    if notices address = true ∧ done call ≠ whole then
      { finished := false
        calls := call + 1
        sectors := fun other => if other = address then done call else 0 }
    else
      let later := sending rest (call + 1)
      { later with
        sectors := fun other =>
          if other = address then max (done call) (later.sectors other)
          else later.sectors other }

variable (width : Nat) (number : Address → Nat)
  (content : Address → Memory Cell)

/-- What the writes make of the device; a sector has so many cells. -/
def sendBlocks :
    List Address → Nat → Memory (Memory Cell) → Memory (Memory Cell)
  | [], _, blocks => blocks
  | address :: rest, call, blocks =>
    let next :=
      blocks.set (number address)
        ((blocks (number address)).copy 0 (content address) 0
          (width * done call))
    if notices address = true ∧ done call ≠ whole then next
    else sendBlocks rest (call + 1) next

variable {whole : Nat} {done : Nat → Nat} {notices : Address → Bool}
  {width : Nat} {number : Address → Nat} {content : Address → Memory Cell}
  {order rest : List Address} {address : Address} {call : Nat}
  {blocks : Memory (Memory Cell)}

theorem sending_stops (stops : notices address = true ∧ done call ≠ whole) :
    sending whole done notices (address :: rest) call =
      { finished := false
        calls := call + 1
        sectors := fun other =>
          if other = address then done call else 0 } :=
  if_pos stops

theorem sending_goes_on
    (goesOn : ¬ (notices address = true ∧ done call ≠ whole)) :
    sending whole done notices (address :: rest) call =
      { sending whole done notices rest (call + 1) with
        sectors := fun other =>
          if other = address then
            max (done call)
              ((sending whole done notices rest (call + 1)).sectors other)
          else
            (sending whole done notices rest (call + 1)).sectors other } :=
  if_neg goesOn

theorem finished_cons
    (finished :
      (sending whole done notices (address :: rest) call).finished = true) :
    ¬ (notices address = true ∧ done call ≠ whole) ∧
      (sending whole done notices rest (call + 1)).finished = true := by
  by_cases stops : notices address = true ∧ done call ≠ whole
  · rw [sending_stops stops] at finished
    cases finished
  · rw [sending_goes_on stops] at finished
    exact ⟨stops, finished⟩

/-- Two parts of a sequence. -/
theorem sending_append
    (finished : (sending whole done notices order call).finished = true) :
    (sending whole done notices (order ++ rest) call).finished =
        (sending whole done notices rest (call + order.length)).finished ∧
      (sending whole done notices (order ++ rest) call).calls =
        (sending whole done notices rest (call + order.length)).calls := by
  induction order generalizing call with
  | nil =>
    exact ⟨rfl, rfl⟩
  | cons address order ih =>
    obtain ⟨goesOn, later⟩ := finished_cons finished
    rw [List.cons_append, sending_goes_on goesOn, List.length_cons,
      Nat.add_comm order.length, ← Nat.add_assoc]
    exact ih later

/-- The second part of a sequence is not reached. -/
theorem sending_append_stopped
    (stopped : (sending whole done notices order call).finished = false) :
    sending whole done notices (order ++ rest) call =
      sending whole done notices order call := by
  induction order generalizing call with
  | nil =>
    cases stopped
  | cons address order ih =>
    rw [List.cons_append]
    by_cases stops : notices address = true ∧ done call ≠ whole
    · rw [sending_stops stops, sending_stops stops]
    · rw [sending_goes_on stops] at stopped
      rw [sending_goes_on stops, sending_goes_on stops, ih stopped]

theorem calls_of_finished
    (finished : (sending whole done notices order call).finished = true) :
    (sending whole done notices order call).calls = call + order.length := by
  induction order generalizing call with
  | nil =>
    rfl
  | cons address order ih =>
    obtain ⟨goesOn, later⟩ := finished_cons finished
    rw [sending_goes_on goesOn]
    rw [ih later, List.length_cons]
    omega

theorem finished_of_whole
    (complete : ∀ index < order.length, done (call + index) = whole) :
    (sending whole done notices order call).finished = true := by
  induction order generalizing call with
  | nil =>
    rfl
  | cons address order ih =>
    have isWhole : done call = whole := complete 0 (Nat.succ_pos _)
    rw [sending_goes_on fun stops => stops.2 isWhole]
    refine ih fun index below => ?_
    have next := complete (index + 1) (Nat.succ_lt_succ below)
    rwa [show call + (index + 1) = call + 1 + index by omega] at next

/-- No more than a block is transferred of it. -/
theorem sectors_le (atMost : ∀ call, done call ≤ whole)
    (order : List Address) (call : Nat) (address : Address) :
    (sending whole done notices order call).sectors address ≤ whole := by
  induction order generalizing call with
  | nil =>
    exact Nat.zero_le _
  | cons first order ih =>
    have small := atMost call
    have later := ih (call + 1)
    by_cases stops : notices first = true ∧ done call ≠ whole
    · rw [sending_stops stops]
      dsimp only
      split <;> omega
    · rw [sending_goes_on stops]
      dsimp only
      split <;> omega

/-- A block whose writes are noticed has been written as a whole. -/
theorem sectors_of_finished
    (finished : (sending whole done notices order call).finished = true)
    (atMost : ∀ call, done call ≤ whole) (isMember : address ∈ order)
    (isNoticed : notices address = true) :
    (sending whole done notices order call).sectors address = whole := by
  induction order generalizing call with
  | nil =>
    cases isMember
  | cons first order ih =>
    obtain ⟨goesOn, later⟩ := finished_cons finished
    have small :=
      @sectors_le _ _ whole done notices atMost order (call + 1) address
    rw [sending_goes_on goesOn]
    dsimp only
    split
    next same =>
      subst same
      have isWhole : done call = whole :=
        Classical.byContradiction fun short => goesOn ⟨isNoticed, short⟩
      omega
    next different =>
      refine ih later ?_
      cases isMember with
      | head =>
        exact absurd rfl different
      | tail _ isLater =>
        exact isLater

omit [DecidableEq Address] in
theorem sendBlocks_stops (stops : notices address = true ∧ done call ≠ whole) :
    sendBlocks whole done notices width number content (address :: rest)
        call blocks =
      blocks.set (number address)
        ((blocks (number address)).copy 0 (content address) 0
          (width * done call)) :=
  if_pos stops

omit [DecidableEq Address] in
theorem sendBlocks_goes_on
    (goesOn : ¬ (notices address = true ∧ done call ≠ whole)) :
    sendBlocks whole done notices width number content (address :: rest)
        call blocks =
      sendBlocks whole done notices width number content rest (call + 1)
        (blocks.set (number address)
          ((blocks (number address)).copy 0 (content address) 0
            (width * done call))) :=
  if_neg goesOn

/-- Two parts of a sequence, on the device. -/
theorem sendBlocks_append
    (finished : (sending whole done notices order call).finished = true) :
    sendBlocks whole done notices width number content (order ++ rest) call
        blocks =
      sendBlocks whole done notices width number content rest
        (call + order.length)
        (sendBlocks whole done notices width number content order call
          blocks) := by
  induction order generalizing call blocks with
  | nil =>
    rfl
  | cons address order ih =>
    obtain ⟨goesOn, later⟩ := finished_cons finished
    rw [List.cons_append, sendBlocks_goes_on goesOn,
      sendBlocks_goes_on goesOn, List.length_cons,
      Nat.add_comm order.length, ← Nat.add_assoc]
    exact ih later

/-- The second part of a sequence is not reached, on the device. -/
theorem sendBlocks_append_stopped
    (stopped : (sending whole done notices order call).finished = false) :
    sendBlocks whole done notices width number content (order ++ rest) call
        blocks =
      sendBlocks whole done notices width number content order call blocks := by
  induction order generalizing call blocks with
  | nil =>
    cases stopped
  | cons address order ih =>
    rw [List.cons_append]
    by_cases stops : notices address = true ∧ done call ≠ whole
    · rw [sendBlocks_stops stops, sendBlocks_stops stops]
    · rw [sending_goes_on stops] at stopped
      rw [sendBlocks_goes_on stops, sendBlocks_goes_on stops]
      exact ih stopped

theorem Memory.copy_copy_same (target source : Memory Cell)
    (first second : Nat) :
    (target.copy 0 source 0 first).copy 0 source 0 second =
      target.copy 0 source 0 (max first second) := by
  funext cell
  by_cases inSecond : cell < second
  · rw [copy_inside (Nat.zero_le _) (by omega),
      copy_inside (Nat.zero_le _) (by omega)]
  · rw [copy_outside (by omega)]
    by_cases inFirst : cell < first
    · rw [copy_inside (Nat.zero_le _) (by omega),
        copy_inside (Nat.zero_le _) (by omega)]
    · rw [copy_outside (by omega), copy_outside (by omega)]

theorem sendBlocks_eq
    (apart : ∀ other ∈ order, number other = number address → other = address) :
    sendBlocks whole done notices width number content order call blocks
        (number address) =
      (blocks (number address)).copy 0 (content address) 0
        (width * (sending whole done notices order call).sectors address) := by
  induction order generalizing call blocks with
  | nil =>
    exact (Memory.copy_zero _ _ _ _).symm
  | cons first order ih =>
    have apartRest : ∀ other ∈ order, number other = number address →
        other = address :=
      fun other later => apart other (List.mem_cons_of_mem _ later)
    have otherNumber (different : address ≠ first) :
        number address ≠ number first := fun sameNumber =>
      different (apart first List.mem_cons_self sameNumber.symm).symm
    by_cases stops : notices first = true ∧ done call ≠ whole
    · rw [sendBlocks_stops stops, sending_stops stops]
      dsimp only
      split
      next same => rw [same, Memory.set_same]
      next different =>
        rw [Memory.set_of_ne (otherNumber different), Nat.mul_zero,
          Memory.copy_zero]
    · rw [sendBlocks_goes_on stops, sending_goes_on stops, ih apartRest]
      dsimp only
      split
      next same =>
        rw [← same, Memory.set_same, Memory.copy_copy_same,
          Nat.mul_max_mul_left]
      next different => rw [Memory.set_of_ne (otherNumber different)]

end Sending

end Idylla.Lib
