namespace Idylla.Lib

/-!
# Searching a list for its first hit

The result of a search keeps the elements in front of the hit and those behind
it, so that the hit can be replaced or taken out where it stands.
-/

variable {Item : Type}

/-- A hit with the items passed before it and the items left behind it. -/
structure Found (Item : Type) where
  passed : List Item
  item : Item
  rest : List Item

/-- The first item that meets a condition. -/
def firstFound (condition : Item → Bool) : List Item → Option (Found Item)
  | [] => none
  | item :: rest =>
    if condition item then
      some { passed := [], item := item, rest := rest }
    else
      (firstFound condition rest).map fun found =>
        { found with passed := item :: found.passed }

variable {condition : Item → Bool} {items : List Item}

/-- A hit splits the searched list and meets the condition. -/
theorem firstFound_some {found : Found Item}
    (isFound : firstFound condition items = some found) :
    items = found.passed ++ found.item :: found.rest ∧
      condition found.item = true ∧
      ∀ item ∈ found.passed, condition item = false := by
  induction items generalizing found with
  | nil =>
    simp [firstFound] at isFound
  | cons item rest ih =>
    by_cases hit : condition item = true
    · simp only [firstFound, hit, ↓reduceIte, Option.some.injEq] at isFound
      subst isFound
      simp [hit]
    · simp only [firstFound, hit, Bool.false_eq_true, ↓reduceIte,
        Option.map_eq_some_iff] at isFound
      obtain ⟨later, isLater, rfl⟩ := isFound
      obtain ⟨split, meets, before⟩ := ih isLater
      refine ⟨by simp [← split], meets, ?_⟩
      intro other member
      rcases List.mem_cons.mp member with rfl | inPassed
      · simpa using hit
      · exact before other inPassed

theorem firstFound_eq_none_iff :
    firstFound condition items = none ↔
      ∀ item ∈ items, condition item = false := by
  induction items with
  | nil =>
    simp [firstFound]
  | cons item rest ih =>
    by_cases hit : condition item = true
    · simp [firstFound, hit]
    · simp [firstFound, hit, ih]

theorem firstFound_mem {found : Found Item}
    (isFound : firstFound condition items = some found) :
    found.item ∈ items := by
  rw [(firstFound_some isFound).1]
  simp

end Idylla.Lib
