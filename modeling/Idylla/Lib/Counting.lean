namespace Idylla.Lib

/-!
# Counting the items with a property

A reference count is exact when it is the length of a list that holds every
holder of the reference once.  Holders are added and removed one at a time, so
no finite type of holders is needed.
-/

variable {Item : Type} {Holds After : Item → Prop} {count : Nat}

/-- Exactly `count` items have the property. -/
def HasCount (Holds : Item → Prop) (count : Nat) : Prop :=
  ∃ items : List Item,
    items.Nodup ∧ (∀ item, item ∈ items ↔ Holds item) ∧ items.length = count

theorem HasCount.congr (counted : HasCount Holds count)
    (same : ∀ item, After item ↔ Holds item) : HasCount After count := by
  obtain ⟨items, once, all, isCount⟩ := counted
  exact ⟨items, once, fun item => (all item).trans (same item).symm, isCount⟩

theorem hasCount_zero_iff :
    HasCount Holds 0 ↔ ∀ item, ¬ Holds item := by
  constructor
  · rintro ⟨items, -, all, isEmpty⟩ item holds
    have member := (all item).mpr holds
    rw [List.length_eq_zero_iff.mp isEmpty] at member
    simp at member
  · intro nothing
    exact ⟨[], List.nodup_nil,
      fun item => ⟨by simp, fun holds => absurd holds (nothing item)⟩, rfl⟩

theorem HasCount.pos (counted : HasCount Holds count) {item : Item}
    (holds : Holds item) : 0 < count := by
  obtain ⟨items, -, all, rfl⟩ := counted
  exact List.length_pos_of_mem ((all item).mpr holds)

theorem HasCount.exists (counted : HasCount Holds count)
    (positive : 0 < count) : ∃ item, Holds item := by
  obtain ⟨items, -, all, rfl⟩ := counted
  obtain ⟨item, member⟩ := List.exists_mem_of_length_pos positive
  exact ⟨item, (all item).mp member⟩

theorem HasCount.eq_of_le_one (counted : HasCount Holds count)
    (atMostOne : count ≤ 1) {first second : Item} (holds : Holds first)
    (alsoHolds : Holds second) : first = second := by
  obtain ⟨items, -, all, rfl⟩ := counted
  have isFirst := (all first).mpr holds
  have isSecond := (all second).mpr alsoHolds
  match items, atMostOne with
  | [only], _ =>
    rw [List.mem_singleton.mp isFirst, List.mem_singleton.mp isSecond]
  | [], _ =>
    cases isFirst

theorem HasCount.insert (counted : HasCount Holds count) {item : Item}
    (absent : ¬ Holds item)
    (inserted : ∀ other, After other ↔ other = item ∨ Holds other) :
    HasCount After (count + 1) := by
  obtain ⟨items, once, all, rfl⟩ := counted
  refine ⟨item :: items, List.nodup_cons.mpr ⟨?_, once⟩, ?_, rfl⟩
  · exact fun member => absent ((all item).mp member)
  · intro other
    rw [List.mem_cons, all, inserted]

/-- One item loses the property. -/
theorem HasCount.erase (counted : HasCount Holds (count + 1)) {item : Item}
    (present : Holds item)
    (erased : ∀ other, After other ↔ other ≠ item ∧ Holds other) :
    HasCount After count := by
  obtain ⟨items, once, all, isCount⟩ := counted
  obtain ⟨front, behind, rfl⟩ := List.append_of_mem ((all item).mpr present)
  obtain ⟨frontOnce, restOnce, across⟩ := List.nodup_append.mp once
  obtain ⟨notBehind, behindOnce⟩ := List.nodup_cons.mp restOnce
  refine ⟨front ++ behind, List.nodup_append.mpr
    ⟨frontOnce, behindOnce, fun first inFront second isBehind =>
      across first inFront second (List.mem_cons_of_mem _ isBehind)⟩,
    ?_, ?_⟩
  · intro other
    rw [erased, ← all]
    simp only [List.mem_append, List.mem_cons]
    constructor
    · rintro (inFront | isBehind)
      · exact ⟨across other inFront item List.mem_cons_self, .inl inFront⟩
      · refine ⟨?_, .inr (.inr isBehind)⟩
        rintro rfl
        exact notBehind isBehind
    · rintro ⟨different, inFront | same | isBehind⟩
      · exact .inl inFront
      · exact absurd same different
      · exact .inr isBehind
  · simp only [List.length_append, List.length_cons] at isCount ⊢
    omega

/-- One item does not have the property any more, if it ever had. -/
theorem HasCount.remove (counted : HasCount Holds count) {item : Item}
    (erased : ∀ other, After other ↔ other ≠ item ∧ Holds other) :
    ∃ left, HasCount After left ∧
      (Holds item ∧ count = left + 1 ∨ ¬ Holds item ∧ count = left) := by
  by_cases present : Holds item
  · obtain ⟨left, rfl⟩ := Nat.exists_eq_add_of_lt (counted.pos present)
    rw [Nat.zero_add] at counted
    exact ⟨left, counted.erase present erased, .inl ⟨present, by omega⟩⟩
  · refine ⟨count, counted.congr fun other => ?_, .inr ⟨present, rfl⟩⟩
    rw [erased]
    refine ⟨fun holds => holds.2, fun holds => ⟨?_, holds⟩⟩
    rintro rfl
    exact present holds

theorem HasCount.le_of_distinct {named : Nat → Item} {number : Nat}
    (counted : HasCount Holds count)
    (distinct : ∀ index other, named index = named other → index = other)
    (holds : ∀ index < number, Holds (named index)) : number ≤ count := by
  induction number generalizing Holds count with
  | zero =>
    exact Nat.zero_le count
  | succ number ih =>
    let Rest : Item → Prop := fun other =>
      other ≠ named number ∧ Holds other
    have erased (other : Item) :
        Rest other ↔ other ≠ named number ∧ Holds other :=
      Iff.rfl
    obtain ⟨left, rest, isPresent | isAbsent⟩ := counted.remove erased
    · have inRest : number ≤ left :=
        ih rest fun index below =>
          ⟨fun same => Nat.ne_of_lt below (distinct index number same),
            holds index (Nat.lt_succ_of_lt below)⟩
      omega
    · exact absurd (holds number (Nat.lt_succ_self number)) isAbsent.1

theorem HasCount.unique {other : Nat} (counted : HasCount Holds count)
    (again : HasCount Holds other) : count = other := by
  obtain ⟨items, once, all, rfl⟩ := counted
  obtain ⟨others, othersOnce, allOthers, rfl⟩ := again
  refine ((List.perm_ext_iff_of_nodup once othersOnce).mpr ?_).length_eq
  intro item
  rw [all, allOthers]

section States

variable {State : Type} {before after : Item → State}
  {Counts : State → Prop} {item : Item}

theorem HasCount.keep
    (counted : HasCount (fun item => Counts (before item)) count)
    (same : ∀ other, other ≠ item → after other = before other)
    (stays : Counts (after item) ↔ Counts (before item)) :
    HasCount (fun item => Counts (after item)) count := by
  refine counted.congr fun other => ?_
  by_cases isItem : other = item
  · rw [isItem]
    exact stays
  · rw [same other isItem]

theorem HasCount.gain
    (counted : HasCount (fun item => Counts (before item)) count)
    (same : ∀ other, other ≠ item → after other = before other)
    (notBefore : ¬ Counts (before item)) (counts : Counts (after item)) :
    HasCount (fun item => Counts (after item)) (count + 1) := by
  refine counted.insert notBefore fun other => ?_
  by_cases isItem : other = item
  · rw [isItem]
    exact ⟨fun _ => .inl rfl, fun _ => counts⟩
  · rw [same other isItem]
    simp [isItem]

theorem HasCount.lose
    (counted : HasCount (fun item => Counts (before item)) (count + 1))
    (same : ∀ other, other ≠ item → after other = before other)
    (counts : Counts (before item)) (notAfter : ¬ Counts (after item)) :
    HasCount (fun item => Counts (after item)) count := by
  refine counted.erase counts fun other => ?_
  by_cases isItem : other = item
  · rw [isItem]
    simp [notAfter]
  · rw [same other isItem]
    simp [isItem]

end States

/-- The sum of the first values of a function. -/
def total (value : Nat → Nat) : Nat → Nat
  | 0 => 0
  | bound + 1 => total value bound + value bound

section Total

variable {value after : Nat → Nat} {bound index : Nat}

theorem total_succ :
    total value (bound + 1) = total value bound + value bound := rfl

theorem total_congr
    (same : ∀ index, index < bound → after index = value index) :
    total after bound = total value bound := by
  induction bound with
  | zero =>
    rfl
  | succ bound ih =>
    rw [total_succ, total_succ, same bound (Nat.lt_succ_self bound),
      ih fun index below => same index (Nat.lt_succ_of_lt below)]

theorem total_change (below : index < bound)
    (same : ∀ other, other ≠ index → after other = value other) :
    total after bound + value index = total value bound + after index := by
  induction bound with
  | zero =>
    exact absurd below (Nat.not_lt_zero index)
  | succ bound ih =>
    rw [total_succ, total_succ]
    by_cases isLast : index = bound
    · subst isLast
      have earlier := @total_congr value after index fun other before =>
        same other (Nat.ne_of_lt before)
      omega
    · rw [same bound (Ne.symm isLast)]
      omega

theorem le_total (below : index < bound) :
    value index ≤ total value bound := by
  induction bound with
  | zero =>
    exact absurd below (Nat.not_lt_zero index)
  | succ bound ih =>
    rw [total_succ]
    by_cases isLast : index = bound
    · subst isLast
      omega
    · omega

/-- Two values are at most the sum. -/
theorem add_le_total {other : Nat} (below : index < bound)
    (otherBelow : other < bound) (differ : index ≠ other) :
    value index + value other ≤ total value bound := by
  let without : Nat → Nat := fun one => if one = other then 0 else value one
  have change : total without bound + value other =
      total value bound + without other :=
    total_change otherBelow fun one isOther => if_neg isOther
  have least : without index ≤ total without bound := le_total below
  have atOther : without other = 0 := if_pos rfl
  have atIndex : without index = value index := if_neg differ
  omega

theorem total_eq_zero (zeros : ∀ index, index < bound → value index = 0) :
    total value bound = 0 := by
  induction bound with
  | zero =>
    rfl
  | succ bound ih =>
    rw [total_succ, zeros bound (Nat.lt_succ_self bound),
      ih fun index below => zeros index (Nat.lt_succ_of_lt below)]

end Total

end Idylla.Lib
