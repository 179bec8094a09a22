import Idylla.Ext2.AllocFree
import Idylla.Lib.Run

namespace Idylla.Ext2

open Idylla.Lib

/-!
# Counters and bitmaps

The counters of a group and those of the superblock count the clear bits of the
bitmaps.  An allocation or a free changes them before it writes the bitmap, so
that they stay true where that write does not fail, and where a free clears the
bit that it counts.
-/

/-- The counters are true. -/
structure Counted (data : Ext2Data) : Prop where
  layout : data.Layout
  perGroup : ∀ kind, data.sb.perGroup kind ≤ data.bitsPerBlock
  groups : ∀ kind group, group < data.groupsCount →
      ((data.groups group).free kind).toNat =
        (data.words kind group).clearBits (data.sb.perGroup kind)
  sums : ∀ kind,
      (data.sb.free kind).toNat =
        total
          (fun group =>
            (data.words kind group).clearBits (data.sb.perGroup kind))
          data.groupsCount

/-- The second state has one number more in use. -/
structure OneTaken
    (data after : Ext2Data) (kind : BitmapKind)
    (group bit : Nat) : Prop where
  inside : group < data.groupsCount
  isClear : data.bit kind group bit = false
  bits : ChangesOnly data after kind group bit true
  groupFree : ((after.groups group).free kind).toNat + 1 =
      ((data.groups group).free kind).toNat
  sbFree : (after.sb.free kind).toNat + 1 = (data.sb.free kind).toNat
  otherGroups : ∀ other index, ¬ (other = kind ∧ index = group) →
      (after.groups index).free other = (data.groups index).free other
  otherKind : ∀ other, other ≠ kind → after.sb.free other = data.sb.free other

/-- A failing call changes nothing, one that returns 0 at most one bit. -/
structure Atomic (data : Ext2Data) (call : BitmapCall) : Prop where
  failed : call.err ≠ none → call.data = data
  returned : call.err = none →
    call.data = data ∨
      ∃ kind group bit,
        OneTaken data call.data kind group bit ∨
          OneTaken call.data data kind group bit

/-- The four calls, with the outcome of their transfers. -/
inductive BitmapOp where
  | alloc (kind : BitmapKind) (group : Int) (io : BitmapIo)
  | release (kind : BitmapKind) (number : BitVec 32) (io : BitmapIo)
      (below : Word)

/-- The call of an operation. -/
def BitmapOp.call (data : Ext2Data) : BitmapOp → Option BitmapCall
  | .alloc kind group io => kind.alloc data group io
  | .release kind number io below => kind.release data number io below

/-- One call after another. -/
def BitmapStep (data : Ext2Data) (op : BitmapOp) (after : Ext2Data) : Prop :=
  ∃ call, op.call data = some call ∧ call.data = after

/--
An allocation from a group with free numbers does not fail to write what it has
read, and neither does a free of what it finds set, which is a bit of its group
that is in use, with counters that have room.
-/
def CountsTrue (data : Ext2Data) : BitmapOp → Prop
  | .alloc kind group io =>
    ∀ chosen : Nat, kind.group data group = chosen →
      (data.groups chosen).free kind ≠ 0 →
      io.readOk = true → io.writeOk = true
  | .release kind number io below =>
    io.readOk = true →
    freeFinds kind data number below = true →
    io.writeOk = true ∧
      ∃ bit : Nat, freePosition kind data number = bit ∧
        bit < data.sb.perGroup kind ∧
        data.bit kind (groupOf kind data number) bit = true ∧
        ((data.groups (groupOf kind data number)).free kind).toNat + 1 <
          2 ^ 16 ∧
        (data.sb.free kind).toNat + 1 < 2 ^ 32

namespace Counted

variable {data : Ext2Data} {kind : BitmapKind} {group bit : Nat}

theorem update (counted : Counted data) (inside : group < data.groupsCount)
    {groupChange : BitVec 16} {change : BitVec 32} {words : Bitmap 32}
    (groupFree :
      ((data.groups group).free kind + groupChange).toNat =
        words.clearBits (data.sb.perGroup kind))
    (sbFree :
      (data.sb.free kind + change).toNat +
          (data.words kind group).clearBits (data.sb.perGroup kind) =
        (data.sb.free kind).toNat + words.clearBits (data.sb.perGroup kind)) :
    Counted
      ((data.count kind group groupChange change).store kind group words) := by
  have layout := @layout_count data kind group counted.layout groupChange change
  have samePerGroup (other : BitmapKind) :
      ((data.count kind group groupChange change).store kind group
        words).sb.perGroup other = data.sb.perGroup other :=
    perGroup_setFree _
  have wordsAfter (other : BitmapKind) (index : Nat)
      (otherInside : index < data.groupsCount) :
      ((data.count kind group groupChange change).store kind group
        words).words other index =
        if other = kind ∧ index = group then words
        else data.words other index := by
    rw [words_store_layout layout inside otherInside, words_count]
  refine ⟨⟨layout.perGroup, layout.own⟩, fun other => ?_,
    fun other index otherInside => ?_, fun other => ?_⟩
  · rw [samePerGroup]
    exact counted.perGroup other
  · rw [samePerGroup, wordsAfter other index otherInside]
    refine (congrArg BitVec.toNat (free_count groupChange change)).trans ?_
    split
    next same =>
      rw [same.1]
      exact groupFree
    next different => exact counted.groups other index otherInside
  · rw [samePerGroup]
    by_cases same : other = kind
    · subst same
      have counters :
          ((data.count other group groupChange change).store other group
            words).sb.free other = data.sb.free other + change := by
        refine (sb_free_setFree _).trans (if_pos rfl)
      have changed :=
        @total_change
          (fun index =>
            (data.words other index).clearBits (data.sb.perGroup other))
          (fun index =>
            if index = group then words.clearBits (data.sb.perGroup other)
            else (data.words other index).clearBits (data.sb.perGroup other))
          data.groupsCount group inside fun index different =>
            if_neg different
      rw [if_pos rfl, ← counted.sums other] at changed
      have sameTotal :=
        @total_congr
          (fun index =>
            if index = group then words.clearBits (data.sb.perGroup other)
            else (data.words other index).clearBits (data.sb.perGroup other))
          (fun index =>
            (((data.count other group groupChange change).store other group
              words).words other index).clearBits (data.sb.perGroup other))
          data.groupsCount fun index otherInside => by
            rw [wordsAfter other index otherInside]
            by_cases sameGroup : index = group
            · rw [if_pos ⟨rfl, sameGroup⟩, if_pos sameGroup]
            · rw [if_neg fun both => sameGroup both.2, if_neg sameGroup]
      rw [counters]
      refine Eq.trans ?_ sameTotal.symm
      omega
    · have counters :
          ((data.count kind group groupChange change).store kind group
            words).sb.free other = data.sb.free other := by
        refine (sb_free_setFree _).trans (if_neg same)
      rw [counters, counted.sums other]
      refine (total_congr fun index otherInside => ?_).symm
      rw [wordsAfter other index otherInside, if_neg fun both => same both.1]

theorem clearBits_le (counted : Counted data)
    (inside : group < data.groupsCount) :
    (data.words kind group).clearBits (data.sb.perGroup kind) ≤
      (data.sb.free kind).toNat := by
  rw [counted.sums kind]
  exact
    @le_total
      (fun group => (data.words kind group).clearBits (data.sb.perGroup kind))
      data.groupsCount group inside

theorem exists_firstFree (counted : Counted data)
    (inside : group < data.groupsCount)
    (some : (data.groups group).free kind ≠ 0) :
    ∃ bit, bit < data.sb.perGroup kind ∧ data.FirstFree kind group bit := by
  have positive :
      0 < (data.words kind group).clearBits (data.sb.perGroup kind) := by
    rw [← counted.groups kind group inside]
    exact Nat.pos_of_ne_zero fun isZero => some (BitVec.eq_of_toNat_eq isZero)
  obtain ⟨bit, inGroup, isClear⟩ := Bitmap.exists_clear positive
  obtain ⟨first, most, isFirst⟩ :=
    Ext2Data.exists_firstFree
      (Nat.lt_of_lt_of_le inGroup (counted.perGroup kind)) isClear
  exact ⟨first, Nat.lt_of_le_of_lt most inGroup, isFirst⟩

theorem taken (counted : Counted data) (inside : group < data.groupsCount)
    (inGroup : bit < data.sb.perGroup kind)
    (isClear : data.bit kind group bit = false) :
    Counted (data.taken kind group bit) ∧
      OneTaken data (data.taken kind group bit) kind group bit := by
  have fewer := Bitmap.clearBits_setBit (by decide) inGroup isClear
  have groupCount := counted.groups kind group inside
  have atMost := @clearBits_le data kind group counted inside
  have groupFree : ((data.groups group).free kind + -1).toNat + 1 =
        ((data.groups group).free kind).toNat := by
    bv_omega
  have sbFree :
      (data.sb.free kind + -1).toNat + 1 = (data.sb.free kind).toNat := by
    bv_omega
  refine ⟨counted.update inside (by omega) (by omega), inside, isClear, ?_,
    ?_, ?_, ?_, ?_⟩
  · exact fun other index place otherInside =>
      bit_taken counted.layout inside otherInside bit place
  · rw [← groupFree]
    exact congrArg (fun free => BitVec.toNat free + 1)
      ((free_count (-1) (-1)).trans (if_pos ⟨rfl, rfl⟩))
  · rw [← sbFree]
    exact congrArg (fun free => BitVec.toNat free + 1)
      ((sb_free_setFree _).trans (if_pos rfl))
  · exact fun other index different =>
      (free_count (-1) (-1)).trans (if_neg different)
  · exact fun other different => (sb_free_setFree _).trans (if_neg different)

variable (counted : Counted data)

include counted

theorem given (inside : group < data.groupsCount)
    (inGroup : bit < data.sb.perGroup kind)
    (isSet : data.bit kind group bit = true)
    (groupRoom : ((data.groups group).free kind).toNat + 1 < 2 ^ 16)
    (sbRoom : (data.sb.free kind).toNat + 1 < 2 ^ 32) :
    Counted
      ((data.count kind group 1 1).store kind group
        ((data.words kind group).clearBit bit)) ∧
      OneTaken
        ((data.count kind group 1 1).store kind group
          ((data.words kind group).clearBit bit))
        data kind group bit := by
  have more := Bitmap.clearBits_clearBit (by decide) inGroup isSet
  have groupCount := counted.groups kind group inside
  have groupFree : ((data.groups group).free kind + 1).toNat =
        ((data.groups group).free kind).toNat + 1 := by
    bv_omega
  have sbFree :
      (data.sb.free kind + 1).toNat = (data.sb.free kind).toNat + 1 := by
    bv_omega
  have bits (other : BitmapKind) (index place : Nat)
      (otherInside : index < data.groupsCount) :
      ((data.count kind group 1 1).store kind group
        ((data.words kind group).clearBit bit)).bit other index place =
        if other = kind ∧ index = group ∧ place = bit then false
        else data.bit other index place := by
    rw [bit_store (layout_count counted.layout 1 1) inside otherInside,
      bit_count, Bitmap.bit_clearBit (by decide)]
    by_cases same : other = kind ∧ index = group
    · rw [if_pos same, same.1, same.2]
      simp [Ext2Data.bit]
    · rw [if_neg same, if_neg fun all => same ⟨all.1, all.2.1⟩]
  refine ⟨counted.update inside (by omega) (by omega), inside, ?_, ?_, ?_, ?_,
    ?_, ?_⟩
  · rw [bits kind group bit inside, if_pos ⟨rfl, rfl, rfl⟩]
  · intro other index place otherInside
    rw [bits other index place otherInside]
    split
    next same => rw [same.1, same.2.1, same.2.2, isSet]
    · rfl
  · rw [← groupFree]
    exact (congrArg BitVec.toNat
      ((free_count 1 1).trans (if_pos ⟨rfl, rfl⟩))).symm
  · rw [← sbFree]
    exact (congrArg BitVec.toNat ((sb_free_setFree _).trans (if_pos rfl))).symm
  · exact fun other index different =>
      ((free_count 1 1).trans (if_neg different)).symm
  · exact fun other different =>
      ((sb_free_setFree _).trans (if_neg different)).symm

theorem unchanged (number : Option (BitVec 32)) (err : Option Errno) :
    Atomic data { data := data, number := number, err := err } ∧ Counted data :=
  ⟨⟨fun _ => rfl, fun _ => .inl rfl⟩, counted⟩

variable {call : BitmapCall}

theorem alloc_iff {requested : Int} {io : BitmapIo}
    (called : kind.alloc data requested io = some call) :
    Atomic data call ∧ Counted call.data ↔
      CountsTrue data (.alloc kind requested io) := by
  obtain ⟨chosen, same, inside, allocated⟩ := alloc_allocated called
  cases allocated with
  | refused err why =>
    refine ⟨fun _ => ?_, fun _ => counted.unchanged none (some err)⟩
    intro index isChosen some readOk
    obtain rfl : index = chosen := Int.ofNat.inj (isChosen.symm.trans same)
    obtain ⟨bit, -, first⟩ := counted.exists_firstFree inside some
    rcases why with readFails | isZero | full
    · rw [readOk] at readFails
      cases readFails
    · exact absurd isZero some
    · exact absurd first (full bit)
  | counted bit readOk some first =>
    cases writeOk : io.writeOk with
    | true =>
      refine ⟨fun _ _ _ _ _ => writeOk, fun _ => ?_⟩
      obtain ⟨inGroup, inside', least⟩ := counted.exists_firstFree inside some
      obtain rfl := least.unique first
      obtain ⟨after, oneTaken⟩ := counted.taken inside inside' first.isClear
      exact ⟨⟨fun failed => absurd rfl failed,
        fun _ => .inr ⟨kind, chosen, _, .inl oneTaken⟩⟩, after⟩
    | false =>
      simp only [Bool.false_eq_true, ↓reduceIte]
      constructor
      · rintro ⟨atomic, -⟩
        have unchanged := atomic.failed (by simp)
        have counters :=
          congrArg (fun data => (data.groups chosen).free kind) unchanged
        rw [free_count, if_pos ⟨rfl, rfl⟩] at counters
        bv_omega
      · intro keeps
        have writes := keeps chosen same some readOk
        rw [writeOk] at writes
        cases writes

theorem clears_of_counted {number : BitVec 32}
    (inside : groupOf kind data number < data.groupsCount)
    (after :
      Counted
        ((data.count kind (groupOf kind data number) 1 1).store kind
          (groupOf kind data number) (freedWords kind data number))) :
    ∃ bit : Nat, freePosition kind data number = bit ∧
      bit < data.sb.perGroup kind ∧
      data.bit kind (groupOf kind data number) bit = true ∧
      ((data.groups (groupOf kind data number)).free kind).toNat + 1 < 2 ^ 16 ∧
      (data.sb.free kind).toNat + 1 < 2 ^ 32 := by
  generalize isGroup : groupOf kind data number = group at *
  have samePerGroup :
      ((data.count kind group 1 1).store kind group
        (freedWords kind data number)).sb.perGroup kind =
        data.sb.perGroup kind :=
    perGroup_setFree _
  have counts := counted.groups kind group inside
  have countsAfter := after.groups kind group inside
  have atMost := @clearBits_le _ kind group after inside
  have sbAfter :
      ((data.count kind group 1 1).store kind group
        (freedWords kind data number)).sb.free kind =
        data.sb.free kind + 1 :=
    (sb_free_setFree _).trans (if_pos rfl)
  have groupAfter :
      (((data.count kind group 1 1).store kind group
        (freedWords kind data number)).groups group).free kind =
        (data.groups group).free kind + 1 :=
    (free_count 1 1).trans (if_pos ⟨rfl, rfl⟩)
  rw [words_store, samePerGroup, groupAfter] at countsAfter
  rw [words_store, samePerGroup, sbAfter] at atMost
  -- bits outside of the group and clear ones do not count
  have changed :
      (freedWords kind data number).clearBits (data.sb.perGroup kind) ≠
        (data.words kind group).clearBits (data.sb.perGroup kind) := by
    bv_omega
  have words : freedWords kind data number =
        if 0 ≤ freePosition kind data number then
          (data.words kind group).clearBit (freePosition kind data number).toNat
        else
          data.words kind group := by
    rw [← isGroup]
    rfl
  by_cases inBitmap : 0 ≤ freePosition kind data number
  · obtain ⟨bit, isBit⟩ := Int.eq_ofNat_of_zero_le inBitmap
    rw [if_pos inBitmap, isBit, Int.toNat_natCast] at words
    rw [words] at changed countsAfter atMost
    have clears :
        bit < data.sb.perGroup kind ∧ data.bit kind group bit = true := by
      refine Classical.byContradiction fun not => changed ?_
      refine Bitmap.clearBits_congr fun index inGroup => ?_
      rw [Bitmap.bit_clearBit (by decide)]
      split
      next same =>
        subst same
        exact ((Bool.not_eq_true _).mp fun isSet => not ⟨inGroup, isSet⟩).symm
      · rfl
    have more := Bitmap.clearBits_clearBit (by decide) clears.1 clears.2
    refine ⟨bit, isBit, clears.1, clears.2, ?_, ?_⟩
    · bv_omega
    · bv_omega
  · rw [if_neg inBitmap] at words
    exact absurd (by rw [words]) changed

theorem release_iff {number : BitVec 32} {io : BitmapIo} {below : Word}
    (called : kind.release data number io below = some call) :
    Atomic data call ∧ Counted call.data ↔
      CountsTrue data (.release kind number io below) := by
  obtain ⟨inside, released⟩ := release_released called
  cases released with
  | unread readFails =>
    refine ⟨fun _ readOk => ?_,
      fun _ => counted.unchanged none (some Errno.EIO)⟩
    rw [readFails] at readOk
    cases readOk
  | unset readOk unset =>
    refine ⟨fun _ _ finds => ?_, fun _ => counted.unchanged none none⟩
    rw [unset] at finds
    cases finds
  | counted readOk finds =>
    cases writeOk : io.writeOk with
    | false =>
      constructor
      · rintro ⟨atomic, -⟩
        exact absurd (atomic.failed (by simp)) (count_ne rfl)
      · intro keeps
        have writes := (keeps readOk finds).1
        rw [writeOk] at writes
        cases writes
    | true =>
      constructor
      · rintro ⟨-, after⟩ - -
        exact ⟨writeOk, counted.clears_of_counted inside after⟩
      · intro keeps
        obtain ⟨-, bit, position, inGroup, isSet, groupRoom, sbRoom⟩ :=
          keeps readOk finds
        have words : freedWords kind data number =
              (data.words kind (groupOf kind data number)).clearBit bit := by
          unfold freePosition at position
          unfold freedWords clearBit
          rw [position, if_pos (Int.natCast_nonneg _), Int.toNat_natCast]
        obtain ⟨after, oneTaken⟩ :=
          counted.given inside inGroup isSet groupRoom sbRoom
        rw [words]
        exact ⟨⟨fun failed => absurd rfl failed,
          fun _ => .inr ⟨kind, _, bit, .inr oneTaken⟩⟩, after⟩

theorem step_iff {op : BitmapOp} (called : op.call data = some call) :
    Atomic data call ∧ Counted call.data ↔ CountsTrue data op := by
  cases op with
  | alloc kind group io =>
    exact counted.alloc_iff called
  | release kind number io below =>
    exact counted.release_iff called

end Counted

/--
In every run whose calls all meet the condition the counters stay true, and the
next call is atomic and keeps them true exactly where it meets the condition.
-/
theorem bitmapCalls_atomic {data last : Ext2Data} {ops : List BitmapOp}
    (counted : Counted data)
    (ran : Run (Guarded CountsTrue BitmapStep) data ops last) :
    Counted last ∧
      ∀ op call, op.call last = some call →
        (Atomic last call ∧ Counted call.data ↔ CountsTrue last op) := by
  have countedLast : Counted last := by
    refine ran.invariant (fun _ data => Counted data) counted ?_
    rintro past source op target counted ⟨keeps, call, called, rfl⟩
    exact ((counted.step_iff called).mpr keeps).2
  exact ⟨countedLast, fun op call called => countedLast.step_iff called⟩

/-- A group of eight free blocks and eight free inodes. -/
def freshGroup : Ext2Data where
  sb :=
    { sFirstDataBlock := 1
      sBlocksPerGroup := 8
      sInodesPerGroup := 8
      sFreeBlocksCount := 8
      sFreeInodesCount := 8 }
  groupsCount := 1
  blkSize := 1024
  groups := fun _ =>
    { bgBlockBitmap := 3
      bgInodeBitmap := 4
      bgFreeBlocksCount := 8
      bgFreeInodesCount := 8 }
  disk := fun _ _ => 0

theorem freshGroup_counted : Counted freshGroup := by
  refine ⟨⟨fun kind => ?_, fun {kind other group index} inside also same => ?_⟩,
    fun kind => ?_, fun kind group inside => ?_, fun kind => ?_⟩
  · cases kind <;> decide
  · have isFirst : group = 0 := Nat.lt_one_iff.mp inside
    have alsoFirst : index = 0 := Nat.lt_one_iff.mp also
    refine ⟨?_, alsoFirst.trans isFirst.symm⟩
    cases kind <;> cases other <;> first | rfl | cases same
  · cases kind <;> decide
  · obtain rfl : group = 0 := Nat.lt_one_iff.mp inside
    cases kind <;> rfl
  · cases kind <;> rfl

/-- A block is taken and its counters stay true. -/
theorem takenBlock_counted :
    Counted (freshGroup.taken .block 0 0) := by
  have step :
      Guarded CountsTrue BitmapStep freshGroup (.alloc .block 0 ⟨true, true⟩)
        (freshGroup.taken .block 0 0) :=
    ⟨fun _ _ _ _ => rfl,
      { data := freshGroup.taken .block 0 0, number := some 1, err := none },
      rfl, rfl⟩
  exact (bitmapCalls_atomic freshGroup_counted (.single step)).1

/-- A bitmap that cannot be written leaves its counters changed. -/
theorem blockAlloc_not_atomic :
    ¬ ∀ (data : Ext2Data) (op : BitmapOp) (call : BitmapCall),
        Counted data → op.call data = some call →
          Atomic data call ∧ Counted call.data := by
  intro atomic
  have unchanged :=
    (atomic freshGroup (.alloc .block 0 ⟨true, false⟩)
      { data := freshGroup.count .block 0 (-1) (-1)
        number := some 1
        err := some Errno.EIO }
      freshGroup_counted rfl).1.failed (by simp)
  have counters :=
    congrArg (fun data => (data.groups 0).bgFreeBlocksCount) unchanged
  exact absurd counters (by decide)

end Idylla.Ext2
