import Idylla.Ext2.Bitmaps

namespace Idylla.Ext2

open Idylla.Lib

/-!
# What an allocation and a free do

Both searches of an allocation are described by what they find, and a call that
returns by the one bit and the two counters it changes.  The claims about
numbers, counters and bitmaps rest on these rules and not on the functions.
-/

namespace Ext2Data

/-- The first clear bit of a group's bitmap. -/
structure FirstFree
    (data : Ext2Data) (kind : BitmapKind)
    (group bit : Nat) : Prop where
  inside : bit < data.bitsPerBlock
  isClear : data.bit kind group bit = false
  earlier : ∀ other, other < bit → data.bit kind group other = true

theorem FirstFree.unique
    {data : Ext2Data} {kind : BitmapKind} {group bit other : Nat}
    (first : data.FirstFree kind group bit)
    (also : data.FirstFree kind group other) : bit = other := by
  rcases Nat.lt_trichotomy bit other with before | same | behind
  · have isSet := also.earlier bit before
    rw [first.isClear] at isSet
    cases isSet
  · exact same
  · have isSet := first.earlier other behind
    rw [also.isClear] at isSet
    cases isSet

/-- What every mounted superblock and its descriptors promise. -/
structure Layout (data : Ext2Data) : Prop where
  perGroup : ∀ kind, 0 < data.sb.perGroup kind
  own : ∀ {kind other group index}, group < data.groupsCount →
      index < data.groupsCount →
      (data.groups index).bitmap other = (data.groups group).bitmap kind →
      other = kind ∧ index = group

theorem exists_firstFree {data : Ext2Data} {kind : BitmapKind} {group bit : Nat}
    (inside : bit < data.bitsPerBlock)
    (isClear : data.bit kind group bit = false) :
    ∃ first, first ≤ bit ∧ data.FirstFree kind group first := by
  induction bit using Nat.strongRecOn with
  | ind bit ih =>
    by_cases earlier : ∃ other, other < bit ∧ data.bit kind group other = false
    · obtain ⟨other, before, alsoClear⟩ := earlier
      obtain ⟨first, most, isFirst⟩ :=
        ih other before (Nat.lt_trans before inside) alsoClear
      exact ⟨first, by omega, isFirst⟩
    · refine ⟨bit, Nat.le_refl bit, inside, isClear, ?_⟩
      intro other before
      rw [← Bool.not_eq_false]
      exact fun alsoClear => earlier ⟨other, before, alsoClear⟩

/-- One number counted as taken and its bit set on the device. -/
def taken (data : Ext2Data) (kind : BitmapKind) (group bit : Nat) : Ext2Data :=
  (data.count kind group (-1) (-1)).store kind group
    ((data.words kind group).setBit bit)

end Ext2Data

section Fields

variable {data : Ext2Data} {kind other : BitmapKind} {group index : Nat}
  {desc : Ext2GroupDesc} {sb : Ext2Superblock}

@[simp] theorem bitmap_setFree (free : BitVec 16) :
    (desc.setFree free kind).bitmap other = desc.bitmap other := by
  cases kind <;> cases other <;> rfl

@[simp] theorem desc_free_setFree (free : BitVec 16) :
    (desc.setFree free kind).free other =
      if other = kind then free else desc.free other := by
  cases kind <;> cases other <;> rfl

@[simp] theorem desc_setFree_setFree (free again : BitVec 16) :
    (desc.setFree free kind).setFree again kind = desc.setFree again kind := by
  cases kind <;> rfl

@[simp] theorem desc_setFree_free :
    desc.setFree (desc.free kind) kind = desc := by
  cases kind <;> rfl

@[simp] theorem sb_free_setFree (free : BitVec 32) :
    (sb.setFree free kind).free other =
      if other = kind then free else sb.free other := by
  cases kind <;> cases other <;> rfl

@[simp] theorem sb_setFree_setFree (free again : BitVec 32) :
    (sb.setFree free kind).setFree again kind = sb.setFree again kind := by
  cases kind <;> rfl

@[simp] theorem sb_setFree_free :
    sb.setFree (sb.free kind) kind = sb := by
  cases kind <;> rfl

@[simp] theorem perGroup_setFree (free : BitVec 32) :
    (sb.setFree free kind).perGroup other = sb.perGroup other := by
  cases kind <;> cases other <;> rfl

@[simp] theorem sFirstDataBlock_setFree (free : BitVec 32) :
    (sb.setFree free kind).sFirstDataBlock = sb.sFirstDataBlock := by
  cases kind <;> rfl

@[simp] theorem bitmap_count (groupChange : BitVec 16) (change : BitVec 32) :
    ((data.count kind group groupChange change).groups index).bitmap other =
      (data.groups index).bitmap other := by
  unfold Ext2Data.count
  dsimp only
  split
  next same => rw [same, bitmap_setFree]
  · rfl

@[simp] theorem words_count (groupChange : BitVec 16) (change : BitVec 32) :
    (data.count kind group groupChange change).words other index =
      data.words other index := by
  unfold Ext2Data.words
  rw [bitmap_count]
  rfl

theorem free_count (groupChange : BitVec 16) (change : BitVec 32) :
    ((data.count kind group groupChange change).groups index).free other =
      if other = kind ∧ index = group then
        (data.groups group).free kind + groupChange
      else
        (data.groups index).free other := by
  unfold Ext2Data.count
  by_cases sameGroup : index = group
  · simp [sameGroup]
  · simp [sameGroup]

theorem words_store (words : Bitmap 32) :
    (data.store kind group words).words kind group = words :=
  if_pos rfl

theorem words_store_of_ne (words : Bitmap 32)
    (different :
      (data.groups index).bitmap other ≠ (data.groups group).bitmap kind) :
    (data.store kind group words).words other index = data.words other index :=
  if_neg different

theorem words_store_layout (layout : data.Layout)
    (inside : group < data.groupsCount) (otherInside : index < data.groupsCount)
    (words : Bitmap 32) :
    (data.store kind group words).words other index =
      if other = kind ∧ index = group then words
      else data.words other index := by
  split
  next same => rw [same.1, same.2, words_store]
  next different =>
    exact words_store_of_ne words fun sameBlock =>
      different (layout.own inside otherInside sameBlock)

theorem layout_count (layout : data.Layout) (groupChange : BitVec 16)
    (change : BitVec 32) :
    (data.count kind group groupChange change).Layout := by
  refine ⟨fun other => ?_, fun inside otherInside sameBlock => ?_⟩
  · unfold Ext2Data.count
    rw [perGroup_setFree]
    exact layout.perGroup other
  · rw [bitmap_count, bitmap_count] at sameBlock
    exact layout.own inside otherInside sameBlock

@[simp] theorem bit_count (groupChange : BitVec 16) (change : BitVec 32)
    (place : Nat) :
    (data.count kind group groupChange change).bit other index place =
      data.bit other index place := by
  unfold Ext2Data.bit
  rw [words_count]

theorem bit_store (layout : data.Layout) (inside : group < data.groupsCount)
    (otherInside : index < data.groupsCount) (words : Bitmap 32) (place : Nat) :
    (data.store kind group words).bit other index place =
      if other = kind ∧ index = group then words.bit place
      else data.bit other index place := by
  unfold Ext2Data.bit
  rw [words_store_layout layout inside otherInside]
  split <;> rfl

theorem bit_taken (layout : data.Layout) (inside : group < data.groupsCount)
    (otherInside : index < data.groupsCount) (bit place : Nat) :
    (data.taken kind group bit).bit other index place =
      if other = kind ∧ index = group ∧ place = bit then true
      else data.bit other index place := by
  unfold Ext2Data.taken
  rw [bit_store (layout_count layout _ _) inside otherInside, bit_count,
    Bitmap.bit_setBit (by decide)]
  by_cases same : other = kind ∧ index = group
  · rw [if_pos same, same.1, same.2]
    simp [Ext2Data.bit]
  · rw [if_neg same, if_neg fun all => same ⟨all.1, all.2.1⟩]

theorem taken_undone (isClear : data.bit kind group index = false) :
    ((data.taken kind group index).count kind group 1 1).store kind group
      (((data.taken kind group index).words kind group).clearBit index) =
      data := by
  have words : (data.taken kind group index).words kind group =
        (data.words kind group).setBit index :=
    words_store _
  rw [words, Bitmap.clearBit_setBit (by decide) isClear]
  obtain ⟨sb, groupsCount, blkSize, groups, disk⟩ := data
  unfold Ext2Data.taken Ext2Data.store Ext2Data.count
  simp only [Ext2Data.mk.injEq, true_and]
  refine ⟨?_, ?_, ?_⟩
  · simp [BitVec.add_assoc]
  · funext index
    by_cases same : index = group
    · subst same
      simp [BitVec.add_assoc]
    · simp [same]
  · funext block
    by_cases same : block = (groups group).bitmap kind
    · subst same
      simp [Ext2Data.words]
    · simp [same]

end Fields

theorem ffzBit_spec {base : Word} (hasZero : base ≠ BitVec.allOnes 32) :
    ffzBit base < 32 ∧ base.getLsbD (ffzBit base) = false ∧
      ∀ idx, idx < ffzBit base → base.getLsbD idx = true :=
  Bitmap.firstZero_spec hasZero

theorem findZero_some {blkSize i j : Nat} {buf : Bitmap 32}
    (found : findZero blkSize buf = some (i, j)) :
    j < 32 ∧ 32 * i + j < 32 * (blkSize / 4) ∧ buf.bit (32 * i + j) = false ∧
      ∀ other, other < 32 * i + j → buf.bit other = true := by
  obtain ⟨word, isFirst, same⟩ := Option.map_eq_some_iff.mp found
  obtain ⟨rfl, rfl⟩ := Prod.mk.inj same
  obtain ⟨hasZero, below, earlier⟩ := List.find?_range_eq_some.mp isFirst
  rw [List.mem_range] at below
  obtain ⟨small, isZero, before⟩ := ffzBit_spec (bne_iff_ne.mp hasZero)
  refine ⟨small, by omega, ?_, ?_⟩
  · unfold Bitmap.bit
    rwa [Nat.mul_add_div (by decide), Nat.div_eq_of_lt small, Nat.add_zero,
      Nat.mul_add_mod, Nat.mod_eq_of_lt small]
  · intro other less
    by_cases sameWord : other / 32 = word
    · unfold Bitmap.bit
      rw [sameWord]
      exact before _ (by omega)
    · refine Bitmap.bit_of_allOnes (by decide) ?_
      have ones := earlier (other / 32) (by omega)
      simpa using ones

variable {index : Nat}

theorem findZero_none {blkSize : Nat} {buf : Bitmap 32}
    (found : findZero blkSize buf = none)
    (inside : index < 32 * (blkSize / 4)) : buf.bit index = true := by
  refine Bitmap.bit_of_allOnes (by decide) ?_
  have ones :=
    List.find?_eq_none.mp (Option.map_eq_none_iff.mp found) (index / 32)
      (List.mem_range.mpr (by omega))
  simpa using ones

theorem mostFree_cases (kind : BitmapKind) (data : Ext2Data) (group : Int) :
    (mostFree kind data group = group ∧
      ∀ index, index < data.groupsCount → (data.groups index).free kind = 0) ∨
    ∃ index : Nat, index < data.groupsCount ∧ mostFree kind data group = index ∧
      (data.groups index).free kind ≠ 0 := by
  unfold mostFree
  generalize data.groupsCount = bound
  suffices invariant : ∀ best,
        (List.range bound).foldl
          (fun (best : BitVec 16 × Int) (i : Nat) =>
            if best.1 < (data.groups i).free kind then
              ((data.groups i).free kind, (i : Int))
            else
              best)
          (0, group) = best →
        (best = (0, group) ∧
          ∀ index, index < bound → (data.groups index).free kind = 0) ∨
        ∃ index : Nat, index < bound ∧
          best = ((data.groups index).free kind, (index : Int)) ∧
          (data.groups index).free kind ≠ 0 by
    rcases invariant _ rfl with ⟨same, zeros⟩ | ⟨index, below, same, some⟩
    · rw [same]
      exact .inl ⟨rfl, zeros⟩
    · rw [same]
      exact .inr ⟨index, below, rfl, some⟩
  induction bound with
  | zero =>
    rintro best rfl
    exact .inl ⟨rfl, fun index below => absurd below (Nat.not_lt_zero index)⟩
  | succ bound ih =>
    rintro best rfl
    rw [List.range_succ, List.foldl_append, List.foldl_cons, List.foldl_nil]
    split
    next more =>
      refine .inr ⟨bound, Nat.lt_succ_self bound, rfl, fun isZero => ?_⟩
      rw [isZero] at more
      exact absurd more (by simp)
    next notMore =>
      rcases ih _ rfl with
        ⟨same, zeros⟩ | ⟨index, below, same, some⟩
      · refine .inl ⟨same, fun index below => ?_⟩
        rcases Nat.lt_succ_iff_lt_or_eq.mp below with before | rfl
        · exact zeros index before
        · rw [same] at notMore
          simpa using notMore
      · exact .inr ⟨index, Nat.lt_succ_of_lt below, same, some⟩

variable {data : Ext2Data}

theorem groupIndex_some {group : Int} :
    data.groupIndex group = some index ↔
      group = index ∧ index < data.groupsCount := by
  unfold Ext2Data.groupIndex
  split
  · simp only [Option.some.injEq]
    omega
  · simp only [reduceCtorEq, false_iff]
    omega

theorem groupIndex_of_lt (below : index < data.groupsCount) :
    data.groupIndex index = some index :=
  groupIndex_some.mpr ⟨rfl, below⟩

/-- How an allocation in a group ends. -/
inductive Allocated
    (kind : BitmapKind) (data : Ext2Data) (io : BitmapIo)
    (group : Nat) : BitmapCall → Prop where
  | refused (err : Errno)
      (why :
        io.readOk = false ∨ (data.groups group).free kind = 0 ∨
          ∀ bit, ¬ data.FirstFree kind group bit) :
      Allocated kind data io group
        { data := data, number := none, err := some err }
  | counted (bit : Nat) (readOk : io.readOk = true)
      (some : (data.groups group).free kind ≠ 0)
      (first : data.FirstFree kind group bit) :
      Allocated kind data io group
        { data :=
            if io.writeOk then data.taken kind group bit
            else data.count kind group (-1) (-1)
          number :=
            Option.some
              (BitVec.ofNat 32 (group * data.sb.perGroup kind + bit + 1))
          err := if io.writeOk then none else Option.some Errno.EIO }

variable {io : BitmapIo}

variable {kind : BitmapKind}

/-- The work under the lock of a group. -/
theorem allocIn_allocated {group : Nat} (below : group < data.groupsCount)
    (some : (data.groups group).free kind ≠ 0) :
    Allocated kind data io group (allocIn kind data group io) := by
  unfold allocIn bitmapRead
  rw [if_neg (Nat.not_le.mpr below)]
  cases readOk : io.readOk with
  | false =>
    exact .refused Errno.EIO (.inl readOk)
  | true =>
    simp only [↓reduceIte]
    cases found : findZero data.blkSize (data.words kind group) with
    | none =>
      refine .refused .ENOSPC (.inr (.inr fun bit first => ?_))
      have isSet := findZero_none found first.inside
      have isClear := first.isClear
      unfold Ext2Data.bit at isClear
      rw [isClear] at isSet
      cases isSet
    | some place =>
      obtain ⟨i, j⟩ := place
      obtain ⟨-, inside, isClear, earlier⟩ := findZero_some found
      have first : data.FirstFree kind group (32 * i + j) :=
        ⟨inside, isClear, earlier⟩
      have outcome := Allocated.counted _ readOk some first
      have notAbove : ¬ (data.count kind group (-1) (-1)).groupsCount ≤ group :=
        Nat.not_le.mpr below
      have sameNumber : group * data.sb.perGroup kind + i * 32 + j + 1 =
            group * data.sb.perGroup kind + (32 * i + j) + 1 := by
        omega
      dsimp only
      unfold bitmapWrite
      rw [if_neg notAbove, sameNumber]
      cases writeOk : io.writeOk with
      | true =>
        simp only [writeOk, ↓reduceIte] at outcome ⊢
        exact outcome
      | false =>
        simpa only [writeOk, Bool.false_eq_true, ↓reduceIte] using outcome

theorem alloc_allocated {group : Int} {call : BitmapCall}
    (called : kind.alloc data group io = some call) :
    ∃ chosen : Nat, kind.group data group = chosen ∧ chosen < data.groupsCount ∧
      Allocated kind data io chosen call := by
  cases kind with
  | block =>
    obtain ⟨asked, isAsked, rest⟩ := Option.bind_eq_some_iff.mp called
    obtain ⟨chosen, isChosen, result⟩ := Option.map_eq_some_iff.mp rest
    obtain ⟨rfl, -⟩ := groupIndex_some.mp isAsked
    obtain ⟨same, below⟩ := groupIndex_some.mp isChosen
    refine ⟨chosen, same, below, ?_⟩
    rw [← result]
    split
    next isZero => exact .refused .ENOSPC (.inr (.inl isZero))
    next some => exact allocIn_allocated below some
  | inode =>
    obtain ⟨chosen, isChosen, result⟩ := Option.map_eq_some_iff.mp called
    obtain ⟨same, below⟩ := groupIndex_some.mp isChosen
    refine ⟨chosen, same, below, ?_⟩
    rw [← result]
    split
    next isZero => exact .refused .ENOSPC (.inr (.inl isZero))
    next some => exact allocIn_allocated below some

theorem alloc_succeeded
    {kind : BitmapKind} {data : Ext2Data} {group : Int} {io : BitmapIo}
    {call : BitmapCall} (called : kind.alloc data group io = some call)
    (succeeded : call.err = none) :
    ∃ chosen bit : Nat, kind.group data group = chosen ∧
      chosen < data.groupsCount ∧ data.FirstFree kind chosen bit ∧
      call.data = data.taken kind chosen bit ∧
      call.number =
        some (BitVec.ofNat 32 (chosen * data.sb.perGroup kind + bit + 1)) := by
  obtain ⟨chosen, same, below, allocated⟩ := alloc_allocated called
  cases allocated with
  | refused err why =>
    cases succeeded
  | counted bit readOk some first =>
    cases writeOk : io.writeOk with
    | false =>
      simp [writeOk] at succeeded
    | true =>
      exact ⟨chosen, bit, same, below, first, by simp, rfl⟩

/-- The bit that a free clears, as an offset into its group's bitmap. -/
def freePosition (kind : BitmapKind) (data : Ext2Data)
    (number : BitVec 32) : Int :=
  32 * (freeWord kind data number : Int) + freeIndex number

/-- What a free finds in the bitmap of its group. -/
def freeFinds (kind : BitmapKind) (data : Ext2Data) (number : BitVec 32)
    (below : Word) : Bool :=
  testBit below
    (data.words kind (groupOf kind data number) (freeWord kind data number))
    (freeIndex number)

/-- The bitmap that a free writes. -/
def freedWords (kind : BitmapKind) (data : Ext2Data)
    (number : BitVec 32) : Bitmap 32 :=
  clearBit (data.words kind (groupOf kind data number))
    (freeWord kind data number) (freeIndex number)

theorem release_eq
    {kind : BitmapKind} {data : Ext2Data} {number : BitVec 32} {io : BitmapIo}
    {below : Word} :
    kind.release data number io below =
      if groupOf kind data number < data.groupsCount then
        some
          (if io.readOk = false then
            { data := data, number := none, err := some Errno.EIO }
          else if freeFinds kind data number below then
            { data :=
                if io.writeOk then
                  (data.count kind (groupOf kind data number) 1 1).store kind
                    (groupOf kind data number) (freedWords kind data number)
                else
                  data.count kind (groupOf kind data number) 1 1
              number := none
              err := if io.writeOk then none else some Errno.EIO }
          else
            { data := data, number := none, err := none })
      else
        none := by
  have same : kind.release data number io below =
        bitmapFree kind data number io below := by
    cases kind <;> rfl
  rw [same]
  unfold bitmapFree
  split
  next inside =>
    rw [groupIndex_of_lt inside, Option.map_some]
    unfold bitmapRead
    rw [if_neg (Nat.not_le.mpr inside)]
    cases readOk : io.readOk with
    | false =>
      simp
    | true =>
      have notAbove :
          ¬ (data.count kind (groupOf kind data number) 1 1).groupsCount ≤
            groupOf kind data number :=
        Nat.not_le.mpr inside
      simp only [↓reduceIte, Bool.true_eq_false]
      unfold freeFinds freedWords
      split
      · unfold bitmapWrite
        rw [if_neg notAbove]
        cases io.writeOk <;> simp
      · rfl
  next outside =>
    have noGroup : data.groupIndex (groupOf kind data number) = none := by
      exact if_neg fun inside => outside (by omega)
    rw [noGroup, Option.map_none]

/-- How a free in the group of a number ends. -/
inductive Released
    (kind : BitmapKind) (data : Ext2Data) (number : BitVec 32) (io : BitmapIo)
    (below : Word) : BitmapCall → Prop where
  | unread (readFails : io.readOk = false) :
      Released kind data number io below
        { data := data, number := none, err := some Errno.EIO }
  | unset (readOk : io.readOk = true)
      (unset : freeFinds kind data number below = false) :
      Released kind data number io below
        { data := data, number := none, err := none }
  | counted (readOk : io.readOk = true)
      (finds : freeFinds kind data number below = true) :
      Released kind data number io below
        { data :=
            if io.writeOk then
              (data.count kind (groupOf kind data number) 1 1).store kind
                (groupOf kind data number) (freedWords kind data number)
            else
              data.count kind (groupOf kind data number) 1 1
          number := none
          err := if io.writeOk then none else some Errno.EIO }

theorem release_released {number : BitVec 32} {below : Word} {call : BitmapCall}
    (called : kind.release data number io below = some call) :
    groupOf kind data number < data.groupsCount ∧
      Released kind data number io below call := by
  rw [release_eq] at called
  split at called
  next inside =>
    refine ⟨inside, ?_⟩
    obtain rfl := Option.some.inj called
    cases readOk : io.readOk with
    | false =>
      exact .unread readOk
    | true =>
      cases finds : freeFinds kind data number below with
      | false =>
        exact .unset readOk finds
      | true =>
        exact .counted readOk finds
  next outside => cases called

section Positions

variable {kind : BitmapKind} {data : Ext2Data} {number : BitVec 32}
  {group bit : Nat}

theorem freeWord_eq :
    freeWord kind data number =
      (number - 1).toNat % data.sb.perGroup kind / 32 := by
  have start :
      groupOf kind data number * data.sb.perGroup kind ≤ (number - 1).toNat :=
    Nat.div_mul_le_self _ _
  have offset : (number - 1).toNat % data.sb.perGroup kind =
        (number - 1).toNat -
          groupOf kind data number * data.sb.perGroup kind := by
    have parts := Nat.div_add_mod' (number - 1).toNat (data.sb.perGroup kind)
    unfold groupOf
    omega
  refine congrArg (· / 32) ?_
  bv_omega

theorem freeIndex_eq :
    freeIndex number = ((((number - 1).toNat + 1) % 32 : Nat) : Int) - 1 := by
  unfold freeIndex
  have back : number.toNat = ((number - 1).toNat + 1) % 2 ^ 32 := by
    bv_omega
  omega

theorem freePosition_eq
    (isNumber : (number - 1).toNat = group * data.sb.perGroup kind + bit)
    (inGroup : bit < data.sb.perGroup kind) :
    freePosition kind data number =
      ((32 * (bit / 32) +
        (group * data.sb.perGroup kind + bit + 1) % 32 : Nat) : Int) - 1 := by
  unfold freePosition
  rw [freeWord_eq, freeIndex_eq, isNumber, Nat.mul_comm group,
    Nat.mul_add_mod, Nat.mod_eq_of_lt inGroup]
  omega

theorem groupOf_eq
    (isNumber : (number - 1).toNat = group * data.sb.perGroup kind + bit)
    (positive : 0 < data.sb.perGroup kind) :
    groupOf kind data number = group + bit / data.sb.perGroup kind := by
  unfold groupOf
  rw [isNumber, Nat.mul_comm, Nat.mul_add_div positive]

end Positions

end Idylla.Ext2
