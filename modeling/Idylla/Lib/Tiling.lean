namespace Idylla.Lib

/-!
# Tilings

A list of pieces tiles a region when no two pieces share a point and together
they cover exactly the region.  Counting the pieces over each point turns both
halves into one number, so pieces can be moved, split and merged by arithmetic.
-/

variable {Piece Point : Type}

/-- The pieces are pairwise disjoint and cover exactly the region. -/
structure Tiles
    (covers : Piece → Point → Prop)
    (region : Point → Prop)
    (pieces : List Piece) : Prop where
  disjoint :
    pieces.Pairwise fun first second =>
      ∀ point, ¬ (covers first point ∧ covers second point)
  exact : ∀ point, (∃ piece ∈ pieces, covers piece point) ↔ region point

theorem Tiles.append
    {covers : Piece → Point → Prop} {region grown : Point → Prop}
    {pieces : List Piece} {piece : Piece} (tiles : Tiles covers region pieces)
    (beside : ∀ point, covers piece point → ¬ region point)
    (grows : ∀ point, grown point ↔ region point ∨ covers piece point) :
    Tiles covers grown (pieces ++ [piece]) where
  disjoint := by
    refine List.pairwise_append.mpr
      ⟨tiles.disjoint, List.pairwise_singleton _ _, ?_⟩
    intro first isFirst last isLast point both
    rw [List.mem_singleton.mp isLast] at both
    exact beside point both.2 ((tiles.exact point).mp ⟨first, isFirst, both.1⟩)
  exact := by
    intro point
    rw [grows, ← tiles.exact]
    simp [or_and_right, exists_or]

/-- How often an interval of numbers covers a number. -/
def interval (lower upper point : Nat) : Nat :=
  if lower ≤ point ∧ point < upper then 1 else 0

/-- The number of pieces over a point. -/
def coverCount (covers : Piece → Point → Prop)
    [∀ piece point, Decidable (covers piece point)]
    (pieces : List Piece) (point : Point) : Nat :=
  pieces.countP fun piece => covers piece point

section Counting

variable {covers : Piece → Point → Prop}
  [∀ piece point, Decidable (covers piece point)]

@[simp] theorem coverCount_nil (point : Point) :
    coverCount covers [] point = 0 :=
  rfl

@[simp] theorem coverCount_cons
    (piece : Piece) (pieces : List Piece) (point : Point) :
    coverCount covers (piece :: pieces) point =
      coverCount covers pieces point + if covers piece point then 1 else 0 := by
  simp [coverCount, List.countP_cons]

@[simp] theorem coverCount_append (first second : List Piece) (point : Point) :
    coverCount covers (first ++ second) point =
      coverCount covers first point + coverCount covers second point := by
  simp [coverCount]

theorem coverCount_perm {first second : List Piece}
    (permuted : first.Perm second) (point : Point) :
    coverCount covers first point = coverCount covers second point :=
  permuted.countP_eq _

theorem coverCount_pos_iff {pieces : List Piece} {point : Point} :
    0 < coverCount covers pieces point ↔
      ∃ piece ∈ pieces, covers piece point := by
  simp [coverCount, List.countP_pos_iff]

theorem pairwise_disjoint_iff_coverCount {pieces : List Piece} :
    (pieces.Pairwise fun first second =>
        ∀ point, ¬ (covers first point ∧ covers second point)) ↔
      ∀ point, coverCount covers pieces point ≤ 1 := by
  induction pieces with
  | nil =>
    simp
  | cons piece rest ih =>
    rw [List.pairwise_cons, ih]
    constructor
    · rintro ⟨apart, restOnce⟩ point
      have once := restOnce point
      rw [coverCount_cons]
      by_cases here : covers piece point
      · have nothingElse : ¬ 0 < coverCount covers rest point := by
          rw [coverCount_pos_iff]
          rintro ⟨other, member, there⟩
          exact apart other member point ⟨here, there⟩
        simp only [here, ↓reduceIte]
        omega
      · simp only [here, ↓reduceIte]
        omega
    · intro once
      constructor
      · rintro other member point ⟨here, there⟩
        have positive : 0 < coverCount covers rest point :=
          coverCount_pos_iff.mpr ⟨other, member, there⟩
        have bound := once point
        simp only [coverCount_cons, here, ↓reduceIte] at bound
        omega
      · intro point
        have bound := once point
        rw [coverCount_cons] at bound
        omega

end Counting

namespace Tiles

variable {covers : Piece → Point → Prop}
  [∀ piece point, Decidable (covers piece point)] {region : Point → Prop}

theorem coverCount_le_one {pieces : List Piece}
    (tiles : Tiles covers region pieces) (point : Point) :
    coverCount covers pieces point ≤ 1 :=
  pairwise_disjoint_iff_coverCount.mp tiles.disjoint point

theorem coverCount_eq {pieces : List Piece} (tiles : Tiles covers region pieces)
    (point : Point) [Decidable (region point)] :
    coverCount covers pieces point = if region point then 1 else 0 := by
  have once := tiles.coverCount_le_one point
  have covered := tiles.exact point
  rw [← coverCount_pos_iff] at covered
  by_cases inside : region point
  · have positive := covered.mpr inside
    rw [if_pos inside]
    omega
  · have nothing : ¬ 0 < coverCount covers pieces point :=
      fun positive => inside (covered.mp positive)
    rw [if_neg inside]
    omega

theorem of_coverCount_eq {pieces changed : List Piece}
    (tiles : Tiles covers region pieces)
    (sameCount :
      ∀ point,
        coverCount covers changed point = coverCount covers pieces point) :
    Tiles covers region changed where
  disjoint := by
    rw [pairwise_disjoint_iff_coverCount]
    intro point
    rw [sameCount]
    exact tiles.coverCount_le_one point
  exact := by
    intro point
    rw [← tiles.exact, ← coverCount_pos_iff, ← coverCount_pos_iff, sameCount]

end Tiles

end Idylla.Lib
