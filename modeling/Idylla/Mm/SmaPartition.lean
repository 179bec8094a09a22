import Mathlib.Algebra.Group.Int.Defs
import Mathlib.Algebra.Group.Nat.Defs
import Idylla.Lib.Run
import Idylla.Lib.Tiling
import Idylla.Mm.Sma

namespace Idylla.Mm

open Idylla.Lib

/-!
# The partition a region allocator area keeps

The blocks of both lists are pairwise disjoint and cover the area.  Allocation
cuts a free block into pieces and moves one piece to the used list, and freeing
moves a block back, so every address stays covered exactly once, unless the
piece that is cut reaches past the end of the block it is cut from.
-/

variable {w : Nat} {Data : Type}

namespace SmaBlock

/-- The address right behind the block, without wrap-around. -/
def ends (block : SmaBlock w Data) : Nat :=
  block.start.toNat + block.size.toNat

/-- The block holds the address. -/
def Covers (block : SmaBlock w Data) (address : Nat) : Prop :=
  block.start.toNat ≤ address ∧ address < block.ends

instance (block : SmaBlock w Data) (address : Nat) :
    Decidable (block.Covers address) :=
  inferInstanceAs (Decidable (_ ∧ _))

variable {block : SmaBlock w Data}

theorem covers_start (nonempty : block.size ≠ 0) :
    block.Covers block.start.toNat := by
  have positive : block.size.toNat ≠ 0 := by
    simpa [BitVec.toNat_eq] using nonempty
  simp only [Covers, ends]
  omega

theorem stop_toNat (fits : block.ends < 2 ^ w) :
    block.stop.toNat = block.ends :=
  BitVec.toNat_add_of_lt fits

theorem hits_iff_covers {block : SmaBlock w Data} {addr : BitVec w}
    (fits : block.ends ≤ 2 ^ w) :
    block.hits addr = true ↔ block.Covers addr.toNat ∧ block.ends < 2 ^ w := by
  simp only [hits, decide_eq_true_eq, Covers, BitVec.le_def, BitVec.lt_def]
  by_cases wraps : block.ends = 2 ^ w
  · have stopZero : block.stop.toNat = 0 := by
      unfold ends at wraps
      simp [stop, BitVec.toNat_add, wraps]
    omega
  · rw [stop_toNat (by omega)]
    omega

theorem cutFront_toNat {size : BitVec w} (fits : block.ends ≤ 2 ^ w)
    (smaller : size.toNat < block.size.toNat) :
    (block.size - size).toNat = block.size.toNat - size.toNat ∧
      (block.start + size).toNat = block.start.toNat + size.toNat := by
  unfold ends at fits
  constructor
  · apply BitVec.toNat_sub_of_le
    rw [BitVec.le_def]
    omega
  · exact BitVec.toNat_add_of_lt (by omega)

theorem cutMiddle_toNat {addr size : BitVec w}
    (inside : block.Covers addr.toNat) (noWrap : block.ends < 2 ^ w)
    (room : addr.toNat + size.toNat ≤ block.ends) :
    (addr - block.start).toNat = addr.toNat - block.start.toNat ∧
      (addr + size).toNat = addr.toNat + size.toNat ∧
      (block.stop - (addr + size)).toNat =
        block.ends - (addr.toNat + size.toNat) := by
  have stop := stop_toNat noWrap
  have sum : (addr + size).toNat = addr.toNat + size.toNat :=
    BitVec.toNat_add_of_lt (by omega)
  refine ⟨?_, sum, ?_⟩
  · apply BitVec.toNat_sub_of_le
    exact BitVec.le_def.mpr inside.1
  · rw [BitVec.toNat_sub_of_le, stop, sum]
    rw [BitVec.le_def]
    omega

end SmaBlock

/-- The address lies in the area. -/
def SmaArea.Covers (area : SmaArea w Data) (address : Nat) : Prop :=
  area.start.toNat ≤ address ∧ address < area.start.toNat + area.size.toNat

/-- Both lists are sorted by start. -/
def Sorted (blocks : List (SmaBlock w Data)) : Prop :=
  blocks.Pairwise fun first second => first.start ≤ second.start

/-- The used and free blocks partition the area. -/
structure Partition (area : SmaArea w Data) : Prop where
  tiles : Tiles SmaBlock.Covers area.Covers (area.usedList ++ area.freeList)
  usedSorted : Sorted area.usedList
  freeSorted : Sorted area.freeList
  used : ∀ block ∈ area.usedList, block.flags &&& smaFlagsUsed ≠ 0
  free : ∀ block ∈ area.freeList, block.flags &&& smaFlagsUsed = 0

/--
A partition with what the allocator relies on: the area ends within the
address space, and only the block of an empty area may be empty.
-/
structure Sound (area : SmaArea w Data) : Prop
    extends Partition area where
  fits : area.start.toNat + area.size.toNat ≤ 2 ^ w
  nonempty :
    ∀ block ∈ area.usedList ++ area.freeList, block.size = 0 → area.size = 0

theorem perm_behind {Item : Type}
    (passed rest : List Item) (first second : Item) :
    (second :: (passed ++ first :: rest)).Perm
      (passed ++ first :: second :: rest) := by
  have moved := (@List.perm_middle _ second (passed ++ [first]) rest).symm
  simpa using moved

theorem smaListAdd_perm
    (block : SmaBlock w Data) (blocks : List (SmaBlock w Data)) :
    (smaListAdd block blocks).Perm (block :: blocks) := by
  induction blocks with
  | nil =>
    exact List.Perm.refl _
  | cons iter rest ih =>
    unfold smaListAdd
    split
    · exact List.Perm.refl _
    · exact (List.Perm.cons iter ih).trans (List.Perm.swap block iter rest)

variable {block : SmaBlock w Data}

@[simp] theorem mem_smaListAdd {other : SmaBlock w Data}
    {blocks : List (SmaBlock w Data)} :
    other ∈ smaListAdd block blocks ↔ other = block ∨ other ∈ blocks := by
  rw [(smaListAdd_perm block blocks).mem_iff, List.mem_cons]

@[simp] theorem coverCount_smaListAdd
    (block : SmaBlock w Data) (blocks : List (SmaBlock w Data))
    (address : Nat) :
    coverCount SmaBlock.Covers (smaListAdd block blocks) address =
      coverCount SmaBlock.Covers blocks address +
        if block.Covers address then 1 else 0 := by
  rw [coverCount_perm (smaListAdd_perm block blocks), coverCount_cons]

theorem Sorted.smaListAdd {blocks : List (SmaBlock w Data)}
    (sorted : Sorted blocks) (block : SmaBlock w Data) :
    Sorted (smaListAdd block blocks) := by
  induction blocks with
  | nil =>
    simp [Mm.smaListAdd, Sorted]
  | cons iter rest ih =>
    obtain ⟨smallest, restSorted⟩ := List.pairwise_cons.mp sorted
    unfold Mm.smaListAdd
    by_cases before : block.start < iter.start
    · rw [if_pos before]
      refine List.pairwise_cons.mpr ⟨?_, sorted⟩
      intro other member
      rcases List.mem_cons.mp member with rfl | inRest
      · exact BitVec.le_of_lt before
      · exact BitVec.le_trans (BitVec.le_of_lt before) (smallest other inRest)
    · rw [if_neg before]
      refine List.pairwise_cons.mpr ⟨?_, ih restSorted⟩
      intro other member
      rcases mem_smaListAdd.mp member with rfl | inRest
      · exact BitVec.not_lt.mp before
      · exact smallest other inRest

namespace Partition

variable {area : SmaArea w Data} {block : SmaBlock w Data}

theorem within (partition : Partition area)
    (member : block ∈ area.usedList ++ area.freeList)
    (nonempty : block.size ≠ 0) :
    area.start.toNat ≤ block.start.toNat ∧
      block.ends ≤ area.start.toNat + area.size.toNat := by
  have first := SmaBlock.covers_start nonempty
  have last : block.Covers (block.ends - 1) := by
    simp only [SmaBlock.Covers] at first ⊢
    omega
  have firstInside := (partition.tiles.exact _).mp ⟨block, member, first⟩
  have lastInside := (partition.tiles.exact _).mp ⟨block, member, last⟩
  simp only [SmaArea.Covers, SmaBlock.Covers] at *
  omega

theorem covers_unique
    (partition : Partition area) {other : SmaBlock w Data} {address : Nat}
    (member : block ∈ area.usedList ++ area.freeList)
    (otherMember : other ∈ area.usedList ++ area.freeList)
    (covers : block.Covers address) (otherCovers : other.Covers address) :
    block = other := by
  have once := partition.tiles.coverCount_le_one address
  obtain ⟨before, behind, split⟩ := List.append_of_mem member
  rw [split] at once otherMember
  have alone : ¬ 0 < coverCount SmaBlock.Covers (before ++ behind) address := by
    simp only [coverCount_append, coverCount_cons, covers, ↓reduceIte] at once ⊢
    omega
  rw [coverCount_pos_iff] at alone
  simp only [List.mem_append, List.mem_cons] at otherMember
  rcases otherMember with inBefore | rfl | inBehind
  · exact (alone ⟨other, by simp [inBefore], otherCovers⟩).elim
  · rfl
  · exact (alone ⟨other, by simp [inBehind], otherCovers⟩).elim

end Partition

namespace Sound

variable {area : SmaArea w Data} {block : SmaBlock w Data}

variable (sound : Sound area)

include sound

theorem ends_le (member : block ∈ area.usedList ++ area.freeList) :
    block.ends ≤ 2 ^ w := by
  by_cases empty : block.size = 0
  · simp [SmaBlock.ends, empty]
    omega
  · have fits := sound.fits
    have inside := sound.within member empty
    omega

theorem size_ne_zero {address : Nat}
    (member : block ∈ area.usedList ++ area.freeList)
    (covers : block.Covers address) : area.size ≠ 0 := by
  intro empty
  have inside := (sound.tiles.exact _).mp ⟨block, member, covers⟩
  simp [SmaArea.Covers, empty] at inside
  omega

variable {passed rest : List (SmaBlock w Data)}

theorem rest_starts (split : area.freeList = passed ++ block :: rest)
    (nonempty : block.size ≠ 0) {other : SmaBlock w Data}
    (member : other ∈ rest) : block.ends ≤ other.start.toNat := by
  have blockMember : block ∈ area.usedList ++ area.freeList := by
    simp [split]
  have otherMember : other ∈ area.usedList ++ area.freeList := by
    simp [split, member]
  have areaNonempty :=
    sound.size_ne_zero blockMember (SmaBlock.covers_start nonempty)
  have otherNonempty : other.size ≠ 0 := fun empty =>
    areaNonempty (sound.nonempty other otherMember empty)
  have sorted := sound.freeSorted
  rw [split, Sorted, List.pairwise_append, List.pairwise_cons] at sorted
  have ordered := sorted.2.1.1 other member
  have disjoint := sound.tiles.disjoint
  rw [split, List.pairwise_append, List.pairwise_append,
    List.pairwise_cons] at disjoint
  have apart := disjoint.2.1.2.1.1 other member other.start.toNat
  have there := SmaBlock.covers_start otherNonempty
  have notHere : ¬ block.Covers other.start.toNat :=
    fun here => apart ⟨here, there⟩
  simp only [SmaBlock.Covers, BitVec.le_def] at notHere ordered
  omega

/--
Cutting one free block into a used piece and free pieces that cover the same
addresses keeps the partition.
-/
theorem replace {freeList : List (SmaBlock w Data)} {taken : SmaBlock w Data}
    (remaining : List (SmaBlock w Data))
    (split : area.freeList = passed ++ block :: rest)
    (permuted : freeList.Perm (passed ++ (remaining ++ rest)))
    (sorted : Sorted freeList) (takenUsed : taken.flags &&& smaFlagsUsed ≠ 0)
    (remainingFree : ∀ piece ∈ remaining, piece.flags &&& smaFlagsUsed = 0)
    (nonempty : ∀ piece ∈ taken :: remaining, piece.size ≠ 0)
    (pieces : Tiles SmaBlock.Covers block.Covers (taken :: remaining)) :
    Sound
      { area with
        usedList := smaListAdd taken area.usedList
        freeList := freeList } where
  tiles := by
    refine sound.tiles.of_coverCount_eq ?_
    intro address
    have once := pieces.coverCount_eq address
    rw [coverCount_cons] at once
    simp only [coverCount_append, coverCount_smaListAdd,
      coverCount_perm permuted, split, coverCount_cons]
    omega
  usedSorted := sound.usedSorted.smaListAdd taken
  freeSorted := sorted
  used := by
    intro other member
    rcases mem_smaListAdd.mp member with rfl | inUsed
    · exact takenUsed
    · exact sound.used other inUsed
  free := by
    intro other member
    have memberOld := permuted.mem_iff.mp member
    simp only [List.mem_append] at memberOld
    rcases memberOld with inPassed | inRemaining | inRest
    · exact sound.free other (by simp [split, inPassed])
    · exact remainingFree other inRemaining
    · exact sound.free other (by simp [split, inRest])
  fits := sound.fits
  nonempty := by
    intro other member empty
    rcases List.mem_append.mp member with inUsed | inFree
    · rcases mem_smaListAdd.mp inUsed with rfl | inOld
      · exact (nonempty other (by simp) empty).elim
      · exact sound.nonempty other (by simp [inOld]) empty
    · have memberOld := permuted.mem_iff.mp inFree
      simp only [List.mem_append] at memberOld
      rcases memberOld with inPassed | inRemaining | inRest
      · exact sound.nonempty other (by simp [split, inPassed]) empty
      · exact (nonempty other (by simp [inRemaining]) empty).elim
      · exact sound.nonempty other (by simp [split, inRest]) empty

theorem sorted_change (changed : SmaBlock w Data)
    (split : area.freeList = passed ++ block :: rest)
    (nonempty : block.size ≠ 0)
    (lower : block.start.toNat ≤ changed.start.toNat)
    (upper : changed.start.toNat ≤ block.ends) :
    Sorted (passed ++ changed :: rest) := by
  have sorted := sound.freeSorted
  rw [split, Sorted, List.pairwise_append, List.pairwise_cons] at sorted
  obtain ⟨passedSorted, ⟨_, restSorted⟩, across⟩ := sorted
  rw [Sorted, List.pairwise_append, List.pairwise_cons]
  refine ⟨passedSorted, ⟨?_, restSorted⟩, ?_⟩
  · intro other member
    have starts := sound.rest_starts split nonempty member
    rw [BitVec.le_def]
    omega
  · intro first firstMember second secondMember
    rcases List.mem_cons.mp secondMember with rfl | inRest
    · have ordered := across first firstMember block (by simp)
      rw [BitVec.le_def] at ordered ⊢
      omega
    · exact across first firstMember second (by simp [inRest])

theorem sorted_remove (split : area.freeList = passed ++ block :: rest) :
    Sorted (passed ++ rest) := by
  have sorted := sound.freeSorted
  rw [split] at sorted
  exact sorted.sublist (by simp)

/-- Taking the front of a large enough free block keeps the partition. -/
theorem takeFront {found : Found (SmaBlock w Data)} {size : BitVec w}
    (split : area.freeList = found.passed ++ found.item :: found.rest)
    (positive : size ≠ 0) (room : size ≤ found.item.size) :
    Sound (smaTakeFront area found size).2 ∧
      ∀ address,
        (smaTakeFront area found size).1.Covers address →
          found.item.Covers address := by
  have member : found.item ∈ area.usedList ++ area.freeList := by
    simp [split]
  have fits := sound.ends_le member
  have itemFree := sound.free found.item (by simp [split])
  have sizePositive : 0 < size.toNat := by
    have notZero : size.toNat ≠ 0 := by
      simpa [BitVec.toNat_eq] using positive
    omega
  rw [BitVec.le_def] at room
  have nonempty : found.item.size ≠ 0 := by
    intro empty
    simp [empty] at room
    omega
  unfold smaTakeFront
  by_cases whole : found.item.size = size
  · subst whole
    simp only [↓reduceIte]
    refine ⟨?_, fun address covers => covers⟩
    refine sound.replace [] split
      (by simp) (sound.sorted_remove split) ?_ (by simp) ?_ ?_
    · rw [flags_or_used]
      decide
    · simpa using positive
    · exact
        { disjoint := by simp
          exact := by simp [SmaBlock.Covers, SmaBlock.ends] }
  · simp only [whole, ↓reduceIte]
    have smaller : size.toNat < found.item.size.toNat := by
      have different : found.item.size.toNat ≠ size.toNat := by
        simpa [BitVec.toNat_eq] using whole
      omega
    obtain ⟨newSize, newStart⟩ := SmaBlock.cutFront_toNat fits smaller
    constructor
    · refine sound.replace
        [{ found.item with
           size := found.item.size - size
           start := found.item.start + size }]
        split (by simp) (sound.sorted_change _ split nonempty ?_ ?_)
        smaFlagsUsed_set ?_ ?_ ?_
      · simp only [newStart]
        omega
      · simp only [newStart, SmaBlock.ends]
        omega
      · simpa using itemFree
      · have shrunkNonempty : found.item.size - size ≠ 0 := by
          intro empty
          rw [empty] at newSize
          simp at newSize
          omega
        simpa using ⟨positive, shrunkNonempty⟩
      · constructor <;>
          simp [SmaBlock.Covers, SmaBlock.ends, newSize, newStart] <;>
          omega
    · simp only [SmaBlock.Covers, SmaBlock.ends]
      omega

/-- Cutting a piece out of the middle keeps the partition. -/
theorem takeMiddle {found : Found (SmaBlock w Data)} {addr size : BitVec w}
    (split : area.freeList = found.passed ++ found.item :: found.rest)
    (positive : size ≠ 0) (inside : found.item.hits addr = true)
    (behind : found.item.start ≠ addr)
    (room : addr.toNat + size.toNat ≤ found.item.ends) :
    Sound (smaTakeMiddle area found addr size).2 ∧
      ∀ address,
        (smaTakeMiddle area found addr size).1.Covers address →
          found.item.Covers address := by
  have member : found.item ∈ area.usedList ++ area.freeList := by
    simp [split]
  have itemFree := sound.free found.item (by simp [split])
  obtain ⟨⟨lower, upper⟩, noWrap⟩ :=
    (SmaBlock.hits_iff_covers (sound.ends_le member)).mp inside
  have sizePositive : size.toNat ≠ 0 := by
    simpa [BitVec.toNat_eq] using positive
  have nonempty : found.item.size ≠ 0 := by
    intro empty
    simp only [SmaBlock.ends, empty] at lower upper
    simp at upper
    omega
  have strictly : found.item.start.toNat < addr.toNat := by
    have different : found.item.start.toNat ≠ addr.toNat := by
      simpa [BitVec.toNat_eq] using behind
    omega
  obtain ⟨newSize, newEnd, lastSize⟩ :=
    SmaBlock.cutMiddle_toNat ⟨lower, upper⟩ noWrap room
  have stop := SmaBlock.stop_toNat noWrap
  have shrunkNonempty : addr - found.item.start ≠ 0 := by
    intro empty
    rw [empty] at newSize
    simp at newSize
    omega
  have shrunkSorted :=
    sound.sorted_change
      { found.item with size := addr - found.item.start } split
      nonempty (Nat.le_refl _) (by simp [SmaBlock.ends])
  constructor
  · unfold smaTakeMiddle
    by_cases suffix : found.item.stop = addr + size
    · simp only [suffix, ↓reduceIte]
      have same : found.item.ends = addr.toNat + size.toNat := by
        rw [← stop, suffix, newEnd]
      refine sound.replace [{ found.item with size := addr - found.item.start }]
        split (by simp) shrunkSorted smaFlagsUsed_set ?_ ?_ ?_
      · simpa using itemFree
      · simpa using ⟨positive, shrunkNonempty⟩
      · simp only [SmaBlock.ends] at same
        constructor <;> simp [SmaBlock.Covers, SmaBlock.ends, newSize] <;>
          omega
    · simp only [suffix, ↓reduceIte]
      have different : found.item.ends ≠ addr.toNat + size.toNat := by
        rw [← stop, ← newEnd]
        simpa [BitVec.toNat_eq] using suffix
      have lastNonempty : found.item.stop - (addr + size) ≠ 0 := by
        intro empty
        rw [empty] at lastSize
        simp at lastSize
        omega
      refine sound.replace
        [{ found.item with size := addr - found.item.start },
          { flags := 0
            start := addr + size
            size := found.item.stop - (addr + size)
            dataptr := none }]
        split ?_ (shrunkSorted.smaListAdd _) smaFlagsUsed_set ?_ ?_ ?_
      · refine (smaListAdd_perm _ _).trans ?_
        exact perm_behind _ _ _ _
      · simpa using itemFree
      · simpa using ⟨positive, shrunkNonempty, lastNonempty⟩
      · simp only [SmaBlock.ends] at *
        constructor
        · simp [SmaBlock.Covers, SmaBlock.ends, newSize, newEnd, lastSize]
          refine ⟨⟨?_, ?_⟩, ?_⟩ <;> omega
        · simp [SmaBlock.Covers, SmaBlock.ends, newSize, newEnd, lastSize]
          omega
  · simp only [smaTakeMiddle, SmaBlock.Covers, SmaBlock.ends] at *
    omega

end Sound

variable {found : Found (SmaBlock w Data)}

variable {area : SmaArea w Data} {addr size : BitVec w}

theorem smaHinted_some (isFound : smaHinted area addr size = some found) :
    addr ≠ 0 ∧
      firstFound (fun block => block.hits addr) area.freeList = some found ∧
      addr + size ≤ found.item.stop := by
  unfold smaHinted at isFound
  by_cases noHint : addr = 0
  · simp [noHint] at isFound
  · rw [if_neg noHint] at isFound
    split at isFound
    · simp at isFound
    · rename_i hit isHit
      by_cases short : hit.item.stop < addr + size
      · simp [short] at isFound
      · simp only [short, ↓reduceIte, Option.some.injEq] at isFound
        subst isFound
        exact ⟨noHint, isHit, BitVec.not_lt.mp short⟩

theorem smaHinted_eq_none
    (isFirst :
      firstFound (fun block => block.hits addr) area.freeList = some found)
    (short : found.item.stop < addr + size) :
    smaHinted area addr size = none := by
  simp [smaHinted, isFirst, short]

variable {flags : BitVec 32}

theorem smaFirstFit_some (isFound : smaFirstFit area size flags = some found) :
    area.freeList = found.passed ++ found.item :: found.rest ∧
      size ≤ found.item.size := by
  unfold smaFirstFit at isFound
  by_cases fixed : flags &&& smaAllocFixed ≠ 0
  · rw [if_pos fixed] at isFound
    simp at isFound
  · rw [if_neg fixed] at isFound
    obtain ⟨split, large, _⟩ := firstFound_some isFound
    exact ⟨split, by simpa using large⟩

theorem smaFind_split {found : Found (SmaBlock w Data)}
    (isFound : smaFind area addr size flags = some found) :
    area.freeList = found.passed ++ found.item :: found.rest := by
  rcases Option.or_eq_some_iff.mp isFound with
    hinted | ⟨_, firstFit⟩
  · exact (firstFound_some (smaHinted_some hinted).2.1).1
  · exact (smaFirstFit_some firstFit).1

/--
The hint lies in a free block that ends before `addr + size`, and `sma_alloc`
carves that block nevertheless: because the sum has wrapped around, or because
the block is the first one that is large enough.
-/
def Overruns (area : SmaArea w Data) (addr size : BitVec w)
    (flags : BitVec 32) : Prop :=
  addr ≠ 0 ∧
    ∃ block ∈ area.freeList,
      block.hits addr = true ∧ block.ends < addr.toNat + size.toNat ∧
        (addr + size ≤ block.stop ∨
          (smaFirstFit area size flags).map Found.item = some block)

/-- The piece that is carved fits into the block it is carved from. -/
def Room (block : SmaBlock w Data) (addr size : BitVec w) : Prop :=
  if block.hits addr = true ∧ addr ≠ 0 then
    addr.toNat + size.toNat ≤ block.ends
  else
    size ≤ block.size

theorem room_of_not_overruns {found : Found (SmaBlock w Data)}
    (isFound : smaFind area addr size flags = some found)
    (inRoom : ¬ Overruns area addr size flags) : Room found.item addr size := by
  have split := smaFind_split isFound
  have member : found.item ∈ area.freeList := by
    simp [split]
  unfold Room
  by_cases inside : found.item.hits addr = true ∧ addr ≠ 0
  · rw [if_pos inside]
    apply Nat.le_of_not_lt
    intro short
    refine inRoom ⟨inside.2, found.item, member, inside.1, short, ?_⟩
    rcases Option.or_eq_some_iff.mp isFound with
      hinted | ⟨_, firstFit⟩
    · exact .inl (smaHinted_some hinted).2.2
    · exact .inr (by simp [firstFit])
  · rw [if_neg inside]
    rcases Option.or_eq_some_iff.mp isFound with
      hinted | ⟨_, firstFit⟩
    · obtain ⟨hint, isFirst, _⟩ := smaHinted_some hinted
      exact (inside ⟨(firstFound_some isFirst).2.1, hint⟩).elim
    · exact (smaFirstFit_some firstFit).2

/-- In an overrun the block around the hint is the one that is carved. -/
theorem smaFind_of_overruns (sound : Sound area)
    (overruns : Overruns area addr size flags) :
    ∃ found,
      smaFind area addr size flags = some found ∧ found.item.hits addr = true ∧
        found.item.ends < addr.toNat + size.toNat := by
  obtain ⟨hint, block, member, inside, short, why⟩ := overruns
  obtain ⟨first, isFirst⟩ : ∃ first,
        firstFound (fun block => block.hits addr) area.freeList =
          some first := by
    rw [← Option.isSome_iff_exists, Option.isSome_iff_ne_none]
    intro nothing
    rw [firstFound_eq_none_iff] at nothing
    simp [nothing block member] at inside
  -- no other free block holds the hint
  have same : first.item = block := by
    have firstMember := firstFound_mem isFirst
    have blockAny : block ∈ area.usedList ++ area.freeList := by
      simp [member]
    have firstAny : first.item ∈ area.usedList ++ area.freeList := by
      simp [firstMember]
    have firstInside := (firstFound_some isFirst).2.1
    rw [SmaBlock.hits_iff_covers (sound.ends_le firstAny)] at firstInside
    rw [SmaBlock.hits_iff_covers (sound.ends_le blockAny)] at inside
    exact sound.covers_unique firstAny blockAny firstInside.1 inside.1
  subst same
  by_cases giveUp : first.item.stop < addr + size
  · have firstFit :
        (smaFirstFit area size flags).map Found.item = some first.item := by
      rcases why with wrapped | firstFit
      · exact (BitVec.not_lt.mpr wrapped giveUp).elim
      · exact firstFit
    obtain ⟨found, isFound, sameItem⟩ := Option.map_eq_some_iff.mp firstFit
    refine ⟨found, ?_, by rwa [sameItem], by rwa [sameItem]⟩
    simp [smaFind, smaHinted_eq_none isFirst giveUp, isFound]
  · refine ⟨first, ?_, inside, short⟩
    have hinted : smaHinted area addr size = some first := by
      rw [smaHinted, if_neg hint, isFirst]
      simp [giveUp]
    simp [smaFind, hinted]

theorem smaCarve_front {found : Found (SmaBlock w Data)}
    (front :
      ¬ (found.item.hits addr = true ∧ addr ≠ 0) ∨ found.item.start = addr) :
    smaCarve area found addr size = smaTakeFront area found size := by
  unfold smaCarve
  by_cases inside : found.item.hits addr = true
  · simp only [inside, ↓reduceIte, true_and] at front ⊢
    rw [if_pos]
    rcases front with noHint | atStart
    · exact .inr (Decidable.not_not.mp noHint)
    · exact .inl atStart
  · simp [inside]

theorem smaCarve_middle {found : Found (SmaBlock w Data)}
    (inside : found.item.hits addr = true) (hint : addr ≠ 0)
    (behind : found.item.start ≠ addr) :
    smaCarve area found addr size = smaTakeMiddle area found addr size := by
  simp only [smaCarve, inside, ↓reduceIte]
  rw [if_neg]
  rintro (atStart | noHint)
  · exact behind atStart
  · exact hint noHint

/-- What carving does to everything but the block that is carved. -/
structure Carved
    (area : SmaArea w Data) (found : Found (SmaBlock w Data))
    (size : BitVec w) (result : SmaBlock w Data × SmaArea w Data) :
    Prop where
  used : result.2.usedList = smaListAdd result.1 area.usedList
  start : result.2.start = area.start
  areaSize : result.2.size = area.size
  size : result.1.size = size
  keeps : ∀ other ∈ found.passed ++ found.rest, other ∈ result.2.freeList

theorem smaTakeFront_carved
    (area : SmaArea w Data) (found : Found (SmaBlock w Data))
    (size : BitVec w) :
    Carved area found size (smaTakeFront area found size) := by
  unfold smaTakeFront
  by_cases whole : found.item.size = size
  · simp only [whole, ↓reduceIte]
    exact ⟨rfl, rfl, rfl, rfl, fun _ member => member⟩
  · simp only [whole, ↓reduceIte]
    refine ⟨rfl, rfl, rfl, rfl, fun other member => ?_⟩
    rcases List.mem_append.mp member with inPassed | inRest
    · simp [inPassed]
    · simp [inRest]

theorem smaTakeMiddle_carved
    (area : SmaArea w Data) (found : Found (SmaBlock w Data))
    (addr size : BitVec w) :
    Carved area found size (smaTakeMiddle area found addr size) := by
  refine ⟨rfl, rfl, rfl, rfl, fun other member => ?_⟩
  unfold smaTakeMiddle
  by_cases suffix : found.item.stop = addr + size
  · simp only [suffix, ↓reduceIte]
    rcases List.mem_append.mp member with inPassed | inRest
    · simp [inPassed]
    · simp [inRest]
  · simp only [suffix, ↓reduceIte]
    rcases List.mem_append.mp member with inPassed | inRest
    · simp [inPassed]
    · simp [inRest]

theorem smaCarve_carved
    (area : SmaArea w Data) (found : Found (SmaBlock w Data))
    (addr size : BitVec w) :
    Carved area found size (smaCarve area found addr size) := by
  by_cases middle :
      (found.item.hits addr = true ∧ addr ≠ 0) ∧ found.item.start ≠ addr
  · rw [smaCarve_middle middle.1.1 middle.1.2 middle.2]
    exact smaTakeMiddle_carved area found addr size
  · have front : ¬ (found.item.hits addr = true ∧ addr ≠ 0) ∨
          found.item.start = addr := by
      by_cases atStart : found.item.start = addr
      · exact .inr atStart
      · exact .inl fun inside => middle ⟨inside, atStart⟩
    rw [smaCarve_front front]
    exact smaTakeFront_carved area found size

theorem smaCarve_cases (area : SmaArea w Data) (found : Found (SmaBlock w Data))
    (room : Room found.item addr size) :
    (smaCarve area found addr size = smaTakeFront area found size ∧
        size ≤ found.item.size) ∨
      (smaCarve area found addr size = smaTakeMiddle area found addr size ∧
        found.item.hits addr = true ∧ found.item.start ≠ addr ∧
        addr.toNat + size.toNat ≤ found.item.ends) := by
  unfold Room at room
  by_cases inside : found.item.hits addr = true ∧ addr ≠ 0
  · rw [if_pos inside] at room
    by_cases atStart : found.item.start = addr
    · refine .inl ⟨smaCarve_front (.inr atStart), ?_⟩
      rw [← atStart, SmaBlock.ends] at room
      rw [BitVec.le_def]
      omega
    · exact .inr
        ⟨smaCarve_middle inside.1 inside.2 atStart, inside.1, atStart, room⟩
  · rw [if_neg inside] at room
    exact .inl ⟨smaCarve_front (.inl inside), room⟩

theorem Sound.carve {found : Found (SmaBlock w Data)} (sound : Sound area)
    (split : area.freeList = found.passed ++ found.item :: found.rest)
    (positive : size ≠ 0) (room : Room found.item addr size) :
    Sound (smaCarve area found addr size).2 ∧
      ∀ address,
        (smaCarve area found addr size).1.Covers address →
          found.item.Covers address := by
  rcases smaCarve_cases area found room with
    ⟨same, large⟩ | ⟨same, inside, behind, short⟩
  · rw [same]
    exact sound.takeFront split positive large
  · rw [same]
    exact sound.takeMiddle split positive inside behind short

theorem smaCarve_overrun {found : Found (SmaBlock w Data)} (sound : Sound area)
    (split : area.freeList = found.passed ++ found.item :: found.rest)
    (inside : found.item.hits addr = true) (hint : addr ≠ 0)
    (short : found.item.ends < addr.toNat + size.toNat) :
    (smaCarve area found addr size).1.Covers found.item.ends := by
  have member : found.item ∈ area.usedList ++ area.freeList := by
    simp [split]
  obtain ⟨⟨_, upper⟩, _⟩ :=
    (SmaBlock.hits_iff_covers (sound.ends_le member)).mp inside
  by_cases atStart : found.item.start = addr
  · rw [smaCarve_front (.inr atStart), smaTakeFront]
    have notWhole : found.item.size ≠ size := by
      rintro rfl
      rw [← atStart, SmaBlock.ends] at short
      omega
    have same := congrArg BitVec.toNat atStart
    simp only [notWhole, ↓reduceIte, SmaBlock.Covers]
    simp only [SmaBlock.ends] at *
    omega
  · rw [smaCarve_middle inside hint atStart, smaTakeMiddle]
    simp only [SmaBlock.Covers, SmaBlock.ends] at *
    omega

theorem Sound.not_partition_of_overrun {found : Found (SmaBlock w Data)}
    {result : SmaBlock w Data × SmaArea w Data} (sound : Sound area)
    (split : area.freeList = found.passed ++ found.item :: found.rest)
    (carved : Carved area found size result)
    (overrun : result.1.Covers found.item.ends) : ¬ Partition result.2 := by
  intro partition
  have newMember : result.1 ∈ result.2.usedList := by
    simp [carved.used]
  have inArea : area.Covers found.item.ends := by
    have covered :=
      (partition.tiles.exact _).mp ⟨result.1, by simp [newMember], overrun⟩
    simpa [SmaArea.Covers, carved.start, carved.areaSize] using covered
  obtain ⟨piece, member, covers⟩ := (sound.tiles.exact _).mpr inArea
  have once := partition.tiles.coverCount_le_one found.item.ends
  simp only [coverCount_append, carved.used, coverCount_smaListAdd,
    overrun, ↓reduceIte] at once
  rw [split] at member
  simp only [List.mem_append, List.mem_cons] at member
  rcases member with inUsed | inPassed | rfl | inRest
  · have positive := coverCount_pos_iff.mpr ⟨piece, inUsed, covers⟩
    omega
  · have positive :=
      coverCount_pos_iff.mpr
        ⟨piece, carved.keeps piece (by simp [inPassed]), covers⟩
    omega
  · exact Nat.lt_irrefl _ covers.2
  · have positive :=
      coverCount_pos_iff.mpr
        ⟨piece, carved.keeps piece (by simp [inRest]), covers⟩
    omega

variable {next : SmaArea w Data}

theorem smaAlloc_partition_iff (sound : Sound area) (positive : size ≠ 0)
    (result : smaAlloc area addr size flags = some (block, next)) :
    (¬ Overruns area addr size flags → Sound next) ∧
      (Overruns area addr size flags → ¬ Partition next) := by
  obtain ⟨found, isFound, isCarved⟩ := Option.map_eq_some_iff.mp result
  have split := smaFind_split isFound
  have sameNext := congrArg Prod.snd isCarved
  dsimp only at sameNext
  constructor
  · intro inRoom
    rw [← sameNext]
    exact (sound.carve split positive (room_of_not_overruns isFound inRoom)).1
  · intro overruns
    obtain ⟨other, isOther, inside, short⟩ := smaFind_of_overruns sound overruns
    rw [isFound, Option.some.injEq] at isOther
    subst isOther
    rw [← sameNext]
    exact sound.not_partition_of_overrun split
      (smaCarve_carved area found addr size)
      (smaCarve_overrun sound split inside overruns.1 short)

theorem Sound.release {passed rest : List (SmaBlock w Data)}
    (sound : Sound area) (split : area.usedList = passed ++ block :: rest) :
    Sound
      { area with
        usedList := passed ++ rest
        freeList :=
          smaListAdd { block with flags := block.flags &&& ~~~smaFlagsUsed }
            area.freeList } where
  tiles := by
    refine sound.tiles.of_coverCount_eq ?_
    intro address
    have sameCover : SmaBlock.Covers
            { block with flags := block.flags &&& ~~~smaFlagsUsed }
            address ↔
          block.Covers address :=
      Iff.rfl
    simp only [coverCount_append, coverCount_smaListAdd, split,
      coverCount_cons, sameCover]
    omega
  usedSorted := by
    have sorted := sound.usedSorted
    rw [split] at sorted
    exact sorted.sublist (by simp)
  freeSorted := sound.freeSorted.smaListAdd _
  used := by
    intro other member
    apply sound.used other
    rw [split]
    rcases List.mem_append.mp member with inPassed | inRest
    · simp [inPassed]
    · simp [inRest]
  free := by
    intro other member
    rcases mem_smaListAdd.mp member with rfl | inFree
    · exact flags_clear_used block.flags
    · exact sound.free other inFree
  fits := sound.fits
  nonempty := by
    intro other member empty
    simp only [List.mem_append, mem_smaListAdd] at member
    rcases member with (inPassed | inRest) | rfl | inFree
    · exact sound.nonempty other (by simp [split, inPassed]) empty
    · exact sound.nonempty other (by simp [split, inRest]) empty
    · exact sound.nonempty block (by simp [split]) empty
    · exact sound.nonempty other (by simp [inFree]) empty

theorem Sound.smaFree {start : BitVec w} {freed : Option (SmaBlock w Data)}
    (sound : Sound area)
    (result : smaFree area start size = some (next, freed)) : Sound next := by
  unfold Mm.smaFree at result
  split at result
  · simp at result
  · rename_i found isFound
    by_cases whole : found.item.start = start ∧ found.item.size = size
    · rw [if_pos whole, Option.some.injEq, Prod.mk.injEq] at result
      rw [← result.1]
      exact sound.release (firstFound_some isFound).1
    · simp only [whole, ↓reduceIte, Option.some.injEq, Prod.mk.injEq] at result
      rw [← result.1]
      exact sound

/-- The calls on an area. -/
inductive SmaCall (w : Nat) where
  | alloc (addr size : BitVec w) (flags : BitVec 32)
  | free (start size : BitVec w)

/--
A call that returns: `sma_alloc` for a nonempty range inside the address
space, or `sma_free` of exactly one used block.
-/
inductive SmaStep :
    SmaArea w Data → SmaCall w → SmaArea w Data → Prop where
  | refused {area : SmaArea w Data} {addr size : BitVec w} {flags : BitVec 32}
      (positive : size ≠ 0)
      (inSpace : addr.toNat + size.toNat ≤ 2 ^ w)
      (result : smaAlloc area addr size flags = none) :
      SmaStep area (.alloc addr size flags) area
  | alloc {area next : SmaArea w Data} {addr size : BitVec w}
      {flags : BitVec 32}
      (block : SmaBlock w Data)
      (positive : size ≠ 0)
      (inSpace : addr.toNat + size.toNat ≤ 2 ^ w)
      (result : smaAlloc area addr size flags = some (block, next)) :
      SmaStep area (.alloc addr size flags) next
  | free {area next : SmaArea w Data} {block : SmaBlock w Data}
      {freed : Option (SmaBlock w Data)}
      (member : block ∈ area.usedList)
      (result : smaFree area block.start block.size = some (next, freed)) :
      SmaStep area (.free block.start block.size) next

/-- No allocation carves a block past its end. -/
def StaysInBlock (area : SmaArea w Data) (call : SmaCall w) : Prop :=
  match call with
  | .alloc addr size flags => ¬ Overruns area addr size flags
  | .free _ _ => True

theorem smaAreaCreate_sound {start : BitVec w}
    (fits : (pageRoundDown start).toNat + (pageRoundUp size).toNat ≤ 2 ^ w) :
    Sound (smaAreaCreate start size : SmaArea w Data) where
  tiles :=
    { disjoint := by simp [smaAreaCreate]
      exact := by
        simp [smaAreaCreate, SmaBlock.Covers, SmaBlock.ends, SmaArea.Covers] }
  usedSorted := List.Pairwise.nil
  freeSorted := List.pairwise_singleton _ _
  used := by simp [smaAreaCreate]
  free := by simp [smaAreaCreate]
  fits := fits
  nonempty := by simp [smaAreaCreate]

theorem SmaStep.sound {call : SmaCall w}
    (step : SmaStep area call next) (sound : Sound area)
    (stays : StaysInBlock area call) : Sound next := by
  cases step with
  | refused _ _ _ =>
    exact sound
  | alloc _ positive _ result =>
    exact (smaAlloc_partition_iff sound positive result).1 stays
  | free _ result =>
    exact sound.smaFree result

theorem not_overruns_of_refused (sound : Sound area)
    (result : smaAlloc area addr size flags = none) :
    ¬ Overruns area addr size flags := by
  intro overruns
  obtain ⟨found, isFound, _⟩ := smaFind_of_overruns sound overruns
  simp [smaAlloc, isFound] at result

/--
Every run without overruns keeps the partition, and the next call keeps it
exactly when it does not overrun a block either.
-/
theorem smaArea_partition_iff {start size : BitVec w}
    (fits : (pageRoundDown start).toNat + (pageRoundUp size).toNat ≤ 2 ^ w)
    {past : List (SmaCall w)} {area : SmaArea w Data}
    (run :
      Run (Guarded StaysInBlock SmaStep) (smaAreaCreate start size) past area) :
    Partition area ∧
      ∀ {call next}, SmaStep area call next →
        (Partition next ↔ StaysInBlock area call) := by
  have sound : Sound area := by
    refine run.invariant (fun _ => Sound) (smaAreaCreate_sound fits) ?_
    intro _ source call target sound step
    exact step.2.sound sound step.1
  refine ⟨sound.toPartition, fun step => ⟨fun partition => ?_,
    fun stays => (step.sound sound stays).toPartition⟩⟩
  cases step with
  | refused _ _ result =>
    exact not_overruns_of_refused sound result
  | alloc _ positive _ result =>
    intro overruns
    exact (smaAlloc_partition_iff sound positive result).2 overruns partition
  | free _ _ =>
    trivial

/-- An area of sixteen pages. -/
def smallArea : SmaArea 32 Unit := smaAreaCreate 0x1000 0x10000

/-- The block of one page at `0x5000`. -/
def middlePage : SmaBlock 32 Unit where
  flags := smaFlagsUsed
  start := 0x5000
  size := 0x1000
  dataptr := none

/-- The small area after its page at `0x5000` has been allocated. -/
def splitArea : SmaArea 32 Unit where
  usedList := [middlePage]
  freeList :=
    [{ flags := 0, start := 0x1000, size := 0x4000, dataptr := none },
      { flags := 0, start := 0x6000, size := 0xB000, dataptr := none }]
  start := 0x1000
  size := 0x10000

/-- The block that two pages requested at `0x4000` get. -/
def overlappingPages : SmaBlock 32 Unit where
  flags := smaFlagsUsed
  start := 0x4000
  size := 0x2000
  dataptr := none

/-- The split area after two pages have been requested at `0x4000`. -/
def brokenArea : SmaArea 32 Unit where
  usedList := [overlappingPages, middlePage]
  freeList :=
    [{ flags := 0, start := 0x1000, size := 0x3000, dataptr := none },
      { flags := 0, start := 0x6000, size := 0xB000, dataptr := none },
      { flags := 0
        start := 0x6000
        size := 0xFFFFF000
        dataptr := none }]
  start := 0x1000
  size := 0x10000

theorem splitArea_step :
    SmaStep smallArea (.alloc 0x5000 0x1000 smaAllocFixed) splitArea :=
  .alloc middlePage (by decide) (by decide) (by decide)

/-- Allocating inside a free block is a run that keeps the partition. -/
theorem splitArea_partition : Partition splitArea := by
  have inRoom :
      StaysInBlock smallArea (.alloc 0x5000 0x1000 smaAllocFixed) := by
    rintro ⟨_, block, member, _, short, _⟩
    obtain rfl := List.mem_singleton.mp member
    exact absurd short (by decide)
  exact
    (smaArea_partition_iff (by decide)
      (.single ⟨inRoom, splitArea_step⟩)).1

/--
A hint in front of a used block, in the first free block that is large
enough, yields a block that overlaps the used one.
-/
theorem smaAlloc_overlaps_used_block :
    ¬ ∀ {past : List (SmaCall 32)} {area : SmaArea 32 Unit},
      Run SmaStep smallArea past area → Partition area := by
  intro partition
  have step : SmaStep splitArea (.alloc 0x4000 0x2000 0) brokenArea :=
    .alloc overlappingPages (by decide) (by decide) (by decide)
  have broken := partition (.extend (.single splitArea_step) step)
  have once := broken.tiles.coverCount_le_one 0x5000
  exact absurd once (by decide)

end Idylla.Mm
