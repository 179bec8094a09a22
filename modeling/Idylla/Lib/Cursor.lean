namespace Idylla.Lib

/-!
# Cursors

A call delivers some of the items from a position on and says where to go on.
If what a call delivers is the beginning of what remains, and it is nothing
only where nothing remains, then repeated calls deliver everything once and in
order.
-/

variable {Pos Item : Type}

/-- Calls from a position on, until one delivers nothing. -/
inductive Enumerates
    (call : Pos → List Item → Pos → Prop) :
    Pos → List Item → Prop where
  | done {pos next : Pos}
      (last : call pos [] next) :
      Enumerates call pos []
  | more {pos next : Pos} {items rest : List Item} (nonempty : items ≠ [])
      (first : call pos items next)
      (later : Enumerates call next rest) :
      Enumerates call pos (items ++ rest)

/-- What a call delivers and where it goes on depend on the position only. -/
def Determined (call : Pos → List Item → Pos → Prop) : Prop :=
  ∀ pos items next otherItems otherNext,
    call pos items next → call pos otherItems otherNext →
      items = otherItems ∧ next = otherNext

/-- Every call from a valid position delivers the beginning of what remains. -/
structure Cursor
    (call : Pos → List Item → Pos → Prop)
    (valid : Pos → Prop)
    (remaining : Pos → List Item) : Prop where
  calls : ∀ pos, valid pos →
      ∃ items next, call pos items next ∧ valid next ∧
        remaining pos = items ++ remaining next ∧
        (items = [] → remaining pos = [])

variable {call : Pos → List Item → Pos → Prop}

theorem Enumerates.unique (determined : Determined call)
    {pos : Pos} {items others : List Item}
    (enumerates : Enumerates call pos items)
    (enumeratesOther : Enumerates call pos others) : items = others := by
  induction enumerates generalizing others with
  | done last =>
    cases enumeratesOther with
    | done =>
      rfl
    | more nonempty first _ =>
      exact absurd (determined _ _ _ _ _ first last).1 nonempty
  | more nonempty first _ ih =>
    cases enumeratesOther with
    | done last =>
      exact absurd (determined _ _ _ _ _ first last).1 nonempty
    | more _ firstOther laterOther =>
      obtain ⟨rfl, rfl⟩ := determined _ _ _ _ _ first firstOther
      rw [ih laterOther]

theorem Cursor.enumerates {valid : Pos → Prop} {remaining : Pos → List Item}
    (cursor : Cursor call valid remaining) {pos : Pos} (isValid : valid pos) :
    Enumerates call pos (remaining pos) := by
  -- The induction is on how many items remain.
  generalize isLength : (remaining pos).length = length
  induction length using Nat.strongRecOn generalizing pos with
  | ind length ih =>
    obtain ⟨items, next, first, validNext, isRemaining, ends⟩ :=
      cursor.calls pos isValid
    by_cases isNil : items = []
    · subst isNil
      rw [ends rfl]
      exact .done first
    · have positive := List.length_pos_iff.mpr isNil
      have split := congrArg List.length isRemaining
      rw [List.length_append, isLength] at split
      rw [isRemaining]
      exact .more isNil first (ih _ (by omega) validNext rfl)

end Idylla.Lib
