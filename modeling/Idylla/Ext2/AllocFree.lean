import Idylla.Ext2.BitmapNumbers

namespace Idylla.Ext2

open Idylla.Lib

/-!
# Freeing what has been allocated

A free gives back the bit and the counters that an allocation has taken, but
for the last bit of a word, for which `block % 32 - 1` leaves the word, and for
bits behind the group.
-/

/-- Blocks of 1024 bytes, numbers from one and groups of whole words. -/
structure WholeWords (data : Ext2Data) (kind : BitmapKind) : Prop where
  blkSize : data.blkSize = 1024
  first : data.sb.sFirstDataBlock = 1
  positive : 0 < data.sb.perGroup kind
  words : 32 ∣ data.sb.perGroup kind

/-- A number whose bit is set in the bitmap of its group. -/
def IsAllocated (data : Ext2Data) (kind : BitmapKind)
    (number : BitVec 32) : Prop :=
  ∃ group bit, group < data.groupsCount ∧ bit < data.sb.perGroup kind ∧
    number.toNat = group * data.sb.perGroup kind + bit + 1 ∧
    data.bit kind group bit = true

section Counted

variable {kind : BitmapKind} {data : Ext2Data} {group bit : Nat}

theorem bit_taken_self :
    (data.taken kind group bit).bit kind group bit = true := by
  have stored : (data.taken kind group bit).words kind group =
        (data.words kind group).setBit bit :=
    words_store _
  unfold Ext2Data.bit
  rw [stored, Bitmap.bit_setBit (by decide), if_pos rfl]

theorem counted_ne {other : Nat} (words : Bitmap 32)
    (different : group ≠ other) :
    ((data.taken kind group bit).count kind other 1 1).store kind other
      words ≠ data := by
  intro same
  have counters := congrArg (fun data => (data.groups group).free kind) same
  have back :
      ((((data.taken kind group bit).count kind other 1 1).store kind other
        words).groups group).free kind =
        (data.groups group).free kind + -1 := by
    refine (free_count 1 1).trans ?_
    rw [if_neg fun same => different same.2]
    exact (free_count (-1) (-1)).trans (if_pos ⟨rfl, rfl⟩)
  bv_omega

theorem taken_ne :
    data.taken kind group bit ≠ data := by
  intro same
  have counters := congrArg (fun data => (data.groups group).free kind) same
  have back : ((data.taken kind group bit).groups group).free kind =
        (data.groups group).free kind + -1 :=
    (free_count (-1) (-1)).trans (if_pos ⟨rfl, rfl⟩)
  bv_omega

theorem count_ne {after : Ext2Data}
    (groups : after.groups = (data.count kind group 1 1).groups) :
    after ≠ data := by
  intro same
  have counters := congrArg (fun groups => (groups group).free kind) groups
  rw [same] at counters
  have more : ((data.count kind group 1 1).groups group).free kind =
        (data.groups group).free kind + 1 :=
    (free_count 1 1).trans (if_pos ⟨rfl, rfl⟩)
  bv_omega

end Counted

section Undo

variable {kind : BitmapKind} {data : Ext2Data} {chosen bit : Nat}
  {number : BitVec 32} {below : Word}

/-- A free that gives everything back. -/
def Undone (kind : BitmapKind) (data taken : Ext2Data) (number : BitVec 32)
    (below : Word) : Prop :=
  ∃ freed, kind.release taken number ⟨true, true⟩ below = some freed ∧
    freed.err = none ∧ freed.data = data

theorem undone_of_inside (geometry : WholeWords data kind)
    (inside : chosen < data.groupsCount)
    (isClear : data.bit kind chosen bit = false)
    (inGroup : bit < data.sb.perGroup kind) (notLast : bit % 32 ≠ 31)
    (fits : chosen * data.sb.perGroup kind + bit + 1 < 2 ^ 32) :
    Undone kind data (data.taken kind chosen bit)
      (BitVec.ofNat 32 (chosen * data.sb.perGroup kind + bit + 1)) below := by
  have samePerGroup := (sameLayout_taken data kind chosen bit).perGroup kind
  generalize isNumber :
    BitVec.ofNat 32 (chosen * data.sb.perGroup kind + bit + 1) = number
  have isLast : (number - 1).toNat =
        chosen * (data.taken kind chosen bit).sb.perGroup kind + bit := by
    rw [samePerGroup, ← isNumber]
    bv_omega
  obtain ⟨sameGroup, finds, words⟩ :=
    free_at isLast
      (by
        rw [samePerGroup]
        exact inGroup)
      (by
        rw [samePerGroup]
        exact Nat.dvd_mul_left_of_dvd geometry.words chosen)
      notLast below
  have released :=
    @release_eq kind (data.taken kind chosen bit) number ⟨true, true⟩ below
  have insideAfter : chosen < (data.taken kind chosen bit).groupsCount := inside
  rw [sameGroup, if_pos insideAfter, finds, bit_taken_self, words] at released
  exact ⟨_, released, rfl, taken_undone isClear⟩

theorem inside_of_undone (geometry : WholeWords data kind)
    (inside : bit < data.bitsPerBlock)
    (isClear : data.bit kind chosen bit = false)
    (undone :
      Undone kind data (data.taken kind chosen bit)
        (BitVec.ofNat 32 (chosen * data.sb.perGroup kind + bit + 1)) below) :
    bit < data.sb.perGroup kind ∧ bit % 32 ≠ 31 ∧
      chosen * data.sb.perGroup kind + bit + 1 < 2 ^ 32 := by
  have samePerGroup := (sameLayout_taken data kind chosen bit).perGroup kind
  have positive := geometry.positive
  generalize isNumber :
    BitVec.ofNat 32 (chosen * data.sb.perGroup kind + bit + 1) = number
    at undone
  obtain ⟨freed, released, -, back⟩ := undone
  rw [release_eq] at released
  split at released
  next found =>
    have isFreed := Option.some.inj released
    simp only [Bool.true_eq_false, ↓reduceIte] at isFreed
    split at isFreed
    next finds =>
      rw [← isFreed] at back
      have sameGroup :
          groupOf kind (data.taken kind chosen bit) number = chosen :=
        Classical.byContradiction fun different =>
          counted_ne _ (Ne.symm different) back
      rw [sameGroup] at back
      -- the number has not wrapped around, as a group is no longer than that
      have start : chosen * data.sb.perGroup kind ≤ (number - 1).toNat := by
        have multiple :=
          Nat.div_mul_le_self (number - 1).toNat
            ((data.taken kind chosen bit).sb.perGroup kind)
        unfold groupOf at sameGroup
        rwa [sameGroup, samePerGroup] at multiple
      have small : bit < 8192 := by
        unfold Ext2Data.bitsPerBlock at inside
        rw [geometry.blkSize] at inside
        exact inside
      have isLast :
          (number - 1).toNat = chosen * data.sb.perGroup kind + bit := by
        bv_omega
      have inGroup : bit < data.sb.perGroup kind := by
        have sum := @groupOf_eq kind (data.taken kind chosen bit) number
          chosen bit
        rw [samePerGroup, sameGroup] at sum
        exact (Nat.div_eq_zero_iff_lt positive).mp (by omega)
      have cleared :
          (freedWords kind (data.taken kind chosen bit) number).bit bit =
            false := by
        have stored :=
          @words_store
            ((data.taken kind chosen bit).count kind chosen 1 1) kind chosen
            (freedWords kind (data.taken kind chosen bit) number)
        dsimp only at back
        rw [back] at stored
        rw [← stored]
        exact isClear
      obtain ⟨notLast, aligned⟩ :=
        notLast_of_cleared
          (by
            rw [samePerGroup]
            exact isLast)
          (by
            rw [samePerGroup]
            exact inGroup)
          bit_taken_self cleared
      rw [samePerGroup] at aligned
      omega
    next lost =>
      rw [← isFreed] at back
      exact absurd back taken_ne
  next outside => cases released

end Undo

/-- An unallocated number is left alone, unless `bt` leaves the word. -/
theorem release_unallocated_iff
    {kind : BitmapKind} {data : Ext2Data} {number : BitVec 32} {io : BitmapIo}
    {below : Word} (geometry : WholeWords data kind)
    (notAllocated : ¬ IsAllocated data kind number) :
    (∃ freed, kind.release data number io below = some freed ∧
      freed.data = data) ↔
      groupOf kind data number < data.groupsCount ∧
        (io.readOk = false ∨ number.toNat % 32 ≠ 0 ∨
          below.getLsbD 31 = false) := by
  have lastBit : number.toNat % 32 = 0 →
      freeFinds kind data number below = below.getLsbD 31 := by
    intro isLast
    unfold freeFinds testBit freeIndex
    rw [isLast]
    rfl
  rw [release_eq]
  constructor
  · rintro ⟨freed, released, same⟩
    split at released
    next inside =>
      refine ⟨inside, ?_⟩
      cases readOk : io.readOk with
      | false =>
        exact .inl rfl
      | true =>
        refine .inr (Classical.byContradiction fun leaves => ?_)
        rw [not_or, Decidable.not_not, Bool.not_eq_false] at leaves
        have finds := (lastBit leaves.1).trans leaves.2
        have isFreed := Option.some.inj released
        simp only [readOk, Bool.true_eq_false, ↓reduceIte, finds] at isFreed
        refine @count_ne kind data (groupOf kind data number) freed.data ?_ same
        rw [← isFreed]
        cases io.writeOk <;> rfl
    next outside => cases released
  · rintro ⟨inside, harmless⟩
    rw [if_pos inside]
    cases readOk : io.readOk with
    | false =>
      simp
    | true =>
      have unset : freeFinds kind data number below = false := by
        by_cases isLast : number.toNat % 32 = 0
        · rw [lastBit isLast]
          simpa [readOk, isLast] using harmless
        · have inGroup : (number - 1).toNat % data.sb.perGroup kind <
                data.sb.perGroup kind :=
            Nat.mod_lt _ geometry.positive
          have parts :=
            Nat.div_add_mod' (number - 1).toNat (data.sb.perGroup kind)
          have aligned :
              32 ∣ groupOf kind data number * data.sb.perGroup kind :=
            Nat.dvd_mul_left_of_dvd geometry.words _
          unfold groupOf at inside aligned
          have back : number.toNat = (number - 1).toNat + 1 := by
            bv_omega
          obtain ⟨-, finds, -⟩ :=
            free_at parts.symm inGroup aligned (by omega) below
          rw [finds, ← Bool.not_eq_true]
          intro isSet
          exact notAllocated ⟨_, _, inside, inGroup, by omega, isSet⟩
      simp [unset]

/--
A free restores what an allocation has changed exactly for the bits inside of
their group that are not the last of a word, and leaves everything as it is
exactly where it stays in the groups and in the word that it tests.
-/
theorem release_undoes_alloc {kind : BitmapKind} {data : Ext2Data}
    (geometry : WholeWords data kind) :
    (∀ group call number below, kind.alloc data group ⟨true, true⟩ = some call →
      call.err = none →
      call.number = some number →
      (Undone kind data call.data number below ↔
        ∃ chosen bit : Nat, kind.group data group = chosen ∧
          data.FirstFree kind chosen bit ∧
          bit < data.sb.perGroup kind ∧ bit % 32 ≠ 31 ∧
          chosen * data.sb.perGroup kind + bit + 1 < 2 ^ 32)) ∧
    ∀ number io below, ¬ IsAllocated data kind number →
      ((∃ freed, kind.release data number io below = some freed ∧
        freed.data = data) ↔
        groupOf kind data number < data.groupsCount ∧
          (io.readOk = false ∨ number.toNat % 32 ≠ 0 ∨
            below.getLsbD 31 = false)) := by
  refine ⟨fun group call number below called succeeded stored => ?_,
    fun number io below => release_unallocated_iff geometry⟩
  obtain ⟨chosen, bit, same, inside, first, taken, hasNumber⟩ :=
    alloc_succeeded called succeeded
  rw [stored, Option.some.injEq] at hasNumber
  rw [taken, hasNumber]
  constructor
  · intro undone
    exact ⟨chosen, bit, same, first,
      inside_of_undone geometry first.inside first.isClear undone⟩
  · rintro ⟨index, other, isChosen, isFirst, inGroup, notLast, fits⟩
    obtain rfl : index = chosen := Int.ofNat.inj (isChosen.symm.trans same)
    obtain rfl := isFirst.unique first
    exact undone_of_inside geometry inside first.isClear inGroup notLast fits

theorem oneGroup_wholeWords {word : Word} (kind : BitmapKind) :
    WholeWords (oneGroup 1 1024 word) kind := by
  cases kind <;> exact ⟨rfl, rfl, Nat.zero_lt_succ _, ⟨256, rfl⟩⟩

/-- The first block is taken and given back. -/
theorem firstBlock_undone :
    ∃ call, blockAlloc (oneGroup 1 1024 0) 0 ⟨true, true⟩ = some call ∧
      call.number = some 1 ∧
      Undone .block (oneGroup 1 1024 0) call.data 1 0 := by
  refine ⟨_, rfl, rfl, ?_⟩
  refine ((release_undoes_alloc (oneGroup_wholeWords .block)).1 0 _ 1 0 rfl
    rfl rfl).mpr ?_
  refine ⟨0, 0, rfl, ⟨by decide, rfl, ?_⟩, by decide, by decide, by decide⟩
  exact fun other before => absurd before (Nat.not_lt_zero other)

/-- The last block of a word is taken and not given back. -/
theorem lastOfWord_not_undone :
    ∃ call, blockAlloc (oneGroup 1 1024 0x7fffffff) 0 ⟨true, true⟩ = some call ∧
      call.err = none ∧ call.number = some 32 ∧
      ¬ Undone .block (oneGroup 1 1024 0x7fffffff) call.data 32 0 := by
  refine ⟨_, rfl, rfl, rfl, ?_⟩
  rintro ⟨freed, released, -, same⟩
  have isSet : freed.data.bit .block 0 31 = true := by
    cases released
    rfl
  rw [same] at isSet
  cases isSet

end Idylla.Ext2
