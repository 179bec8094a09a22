import Idylla.Mm.PhysAttempts

namespace Idylla.Mm

open Idylla.Lib

/-!
# The bits that the calls of `phys.c` reach

`phys_free` and `phys_reserve` cut their range off where the bitmap ends, and a
range whose end wraps is not touched at all.  `phys_alloc` counts free frames
and asks nowhere whether the bitmap has so many.
-/

/-- The calls that the rest of the kernel makes. -/
inductive PhysCall where
  | free (start len : BitVec 32)
  | reserve (start len : BitVec 32)
  | alloc (len flags : BitVec 32)

namespace FrameBitmap

variable {bitmap after : FrameBitmap} {len : Nat} {starts : List Nat}

/-- A call that returns. -/
inductive PhysStep : FrameBitmap → PhysCall → FrameBitmap → Prop where
  | free {bitmap after : FrameBitmap} {start len : BitVec 32}
      (ended : bitmap.physFree start len = some after) :
      PhysStep bitmap (.free start len) after
  | reserve {bitmap after : FrameBitmap} {start len : BitVec 32}
      (ended : bitmap.physReserve start len = some after) :
      PhysStep bitmap (.reserve start len) after
  | alloc {bitmap after : FrameBitmap} {rounds page : Nat}
      {len flags : BitVec 32}
      (positive : 0 < len.toNat)
      (ended : bitmap.physAlloc rounds len flags = some (.returns after page)) :
      PhysStep bitmap (.alloc len flags) after

/-- A call does not test, set or clear a bit that the bitmap does not have. -/
def InBounds (bitmap : FrameBitmap) : PhysCall → Prop
  | .free start len => bitmap.physFree start len ≠ none
  | .reserve start len => bitmap.physReserve start len ≠ none
  | .alloc len flags =>
    ∀ rounds, bitmap.physAlloc rounds len flags ≠ some .outside

/-- No free frame but the first has the address 0 in a `paddr_t`. -/
def NoHiddenPage (bitmap : FrameBitmap) : Prop :=
  ∀ frame, bitmap.Free frame → frame * PAGE_SIZE % 2 ^ 32 = 0 → frame = 0

/-- No search of a call comes to the end of the bitmap in a free run. -/
def Contained (bitmap : FrameBitmap) : PhysCall → Prop
  | .free _ _ => True
  | .reserve _ _ => True
  | .alloc len flags =>
    (∀ start ∈ zoneStarts flags,
      ¬ bitmap.Escapes len.toNat (start / PAGE_SIZE)) ∧
    (bitmap.Free (bitmap.items - 1) → bitmap.NoHiddenPage)

theorem wrote_nothing (value : Bool) (first : Nat) (bitmap : FrameBitmap) :
    Wrote value first 0 bitmap bitmap := by
  refine ⟨rfl, fun frame => ?_⟩
  rw [if_neg (by omega)]

theorem physFree_wrote (bitmap : FrameBitmap) (start len : BitVec 32) :
    ∃ after, bitmap.physFree start len = some after ∧
      Wrote false (start.toNat / PAGE_SIZE)
        (if start.toNat / PAGE_SIZE + len.toNat < 2 ^ 32 then
          min len.toNat (bitmap.items - start.toNat / PAGE_SIZE)
        else 0)
        bitmap after := by
  unfold physFree
  dsimp only
  generalize start.toNat / PAGE_SIZE = frame
  by_cases known : bitmap.items ≤ frame
  · rw [if_pos known]
    refine ⟨bitmap, rfl, ?_⟩
    rw [Nat.sub_eq_zero_of_le known, Nat.min_zero, ite_self]
    exact wrote_nothing _ _ _
  · rw [if_neg known]
    have count :
        (frame + if bitmap.items ≤ (frame + len.toNat) % 2 ^ 32 then
            bitmap.items - frame
          else len.toNat) % 2 ^ 32 - frame =
          if frame + len.toNat < 2 ^ 32 then
            min len.toNat (bitmap.items - frame)
          else 0 := by
      split <;> split <;> omega
    rw [count]
    refine overFrames_wrote clearFrame_wrote ?_
    split <;> omega

theorem physReserve_wrote (bitmap : FrameBitmap) (start len : BitVec 32) :
    ∃ after, bitmap.physReserve start len = some after ∧
      Wrote true (start.toNat / PAGE_SIZE)
        (min (len.toNat / PAGE_SIZE) (bitmap.items - start.toNat / PAGE_SIZE))
        bitmap after := by
  have pagesBound : len.toNat / PAGE_SIZE < 2 ^ 20 :=
    Nat.div_lt_of_lt_mul len.isLt
  have frameBound : start.toNat / PAGE_SIZE < 2 ^ 20 :=
    Nat.div_lt_of_lt_mul start.isLt
  unfold physReserve
  dsimp only
  generalize start.toNat / PAGE_SIZE = frame at frameBound ⊢
  generalize len.toNat / PAGE_SIZE = pages at pagesBound ⊢
  by_cases known : bitmap.items ≤ frame
  · rw [if_pos known]
    refine ⟨bitmap, rfl, ?_⟩
    rw [Nat.sub_eq_zero_of_le known, Nat.min_zero]
    exact wrote_nothing _ _ _
  · rw [if_neg known]
    have count :
        (frame + if bitmap.items ≤ (frame + pages) % 2 ^ 32 then
            bitmap.items - frame
          else pages) % 2 ^ 32 - frame =
          min pages (bitmap.items - frame) := by
      split <;> omega
    rw [count]
    refine overFrames_wrote setFrame_wrote ?_
    omega

theorem Wrote.free_taken {first count frame : Nat}
    (wrote : Wrote true first count bitmap after) :
    after.Free frame ↔
      bitmap.Free frame ∧ ¬ (first ≤ frame ∧ frame < first + count) := by
  unfold Free
  rw [wrote.items, wrote.bit]
  split
  next inside => simp [inside]
  next outside => exact ⟨fun isFree => ⟨isFree, outside⟩, And.left⟩

theorem physAllocFrom_of_last {rounds : Nat} (positive : 0 < len)
    (inUse : ¬ bitmap.Free (bitmap.items - 1)) :
    physAllocFrom rounds len starts bitmap ≠ some .outside := by
  induction starts generalizing bitmap with
  | nil =>
    intro ended
    cases ended
  | cons start others ih =>
    rw [physAllocFrom]
    cases search : bitmap.allocFrames rounds start len with
    | none =>
      intro ended
      cases ended
    | some result =>
      have searched := allocLoop_ended positive search
      cases result with
      | outside =>
        cases searched with
        | outside escapes =>
          exact absurd escapes.atEnd inUse
      | returns after page =>
        have stillInUse : ¬ after.Free (after.items - 1) := by
          cases searched with
          | zero | nothing =>
            exact inUse
          | found _ _ wrote _ =>
            rw [wrote.items, wrote.free_taken]
            exact fun isFree => inUse isFree.1
        dsimp only
        split
        · exact ih stillInUse
        · intro ended
          cases ended

theorem physAllocFrom_contained {rounds : Nat} (positive : 0 < len)
    (aligned :
      ∀ start ∈ starts, start / PAGE_SIZE / 32 * 32 = start / PAGE_SIZE)
    (stays : ∀ start ∈ starts, ¬ bitmap.Escapes len (start / PAGE_SIZE))
    (noHidden : bitmap.NoHiddenPage) :
    physAllocFrom rounds len starts bitmap ≠ some .outside := by
  induction starts with
  | nil =>
    intro ended
    cases ended
  | cons start others ih =>
    have rest :=
      ih (fun other isOther => aligned other (List.mem_cons_of_mem _ isOther))
        (fun other isOther => stays other (List.mem_cons_of_mem _ isOther))
    rw [physAllocFrom]
    cases search : bitmap.allocFrames rounds start len with
    | none =>
      intro ended
      cases ended
    | some result =>
      have searched := allocLoop_ended positive search
      rw [aligned start List.mem_cons_self] at searched
      cases searched with
      | zero =>
        exact rest
      | nothing =>
        exact rest
      | @found first _ isFirst notZero _ _ =>
        have isFree := isFirst.isFree.head positive
        dsimp only
        rw [if_neg]
        · intro ended
          cases ended
        · intro isZero
          obtain rfl := noHidden first isFree isZero
          exact notZero (Nat.le_zero.mp isFirst.behind) isFree
      | outside escapes =>
        exact absurd escapes (stays start List.mem_cons_self)

theorem Escapes.of_le {base later : Nat} (escapes : bitmap.Escapes len base)
    (behind : base ≤ later) (inside : later < bitmap.items) :
    bitmap.Escapes len later where
  notZero := fun isZero => escapes.notZero (by omega)
  noRun := fun first above => escapes.noRun first (by omega)
  behind := inside
  atEnd := escapes.atEnd
  noStop := fun frame above => escapes.noStop frame (by omega)

theorem Escapes.allocLoop {i : Nat} (positive : 0 < len)
    (escapes : bitmap.Escapes len (i / 32 * 32)) :
    ∃ rounds, bitmap.allocLoop len rounds i = some .outside := by
  obtain ⟨rounds, outcome, ended⟩ :=
    @allocLoop_ends bitmap len i positive (.inr
      fun frame later notEnd stops =>
        absurd (escapes.noStop frame later stops) notEnd)
  have searched := allocLoop_ended positive ended
  cases searched with
  | zero isZero isFree =>
    exact absurd isFree (escapes.notZero isZero)
  | nothing _ ends =>
    exact absurd (.inr ends) escapes.not_searches
  | found isFirst =>
    exact absurd isFirst.isFree (escapes.noRun _ isFirst.behind)
  | outside =>
    exact ⟨rounds, ended⟩

theorem allocLoop_behind {i : Nat} (positive : 0 < len)
    (some : 0 < bitmap.items) (behind : bitmap.items ≤ i / 32 * 32) :
    ∃ rounds, bitmap.allocLoop len rounds i = .some (.returns bitmap 0) := by
  obtain ⟨rounds, outcome, ended⟩ :=
    @allocLoop_ends bitmap len i positive (.inr
      fun frame later notEnd stops => by have := stops.1.1; omega)
  have searched := allocLoop_ended positive ended
  cases searched with
  | zero isZero isFree =>
    omega
  | nothing _ ends =>
    exact ⟨rounds, ended⟩
  | found isFirst =>
    have := (isFirst.isFree.head positive).1
    have := isFirst.behind
    omega
  | outside escapes =>
    have := escapes.behind
    omega

/-- A call with a search that escapes leaves the bitmap. -/
theorem physAllocFrom_outside {start : Nat} (positive : 0 < len)
    (aligned :
      ∀ start ∈ starts, start / PAGE_SIZE / 32 * 32 = start / PAGE_SIZE)
    (descending : starts.Pairwise fun first second => second ≤ first)
    (isStart : start ∈ starts)
    (escapes : bitmap.Escapes len (start / PAGE_SIZE)) :
    ∃ rounds, physAllocFrom rounds len starts bitmap = some .outside := by
  induction starts with
  | nil =>
    cases isStart
  | cons first others ih =>
    obtain ⟨below, restDescending⟩ := List.pairwise_cons.mp descending
    have isAligned := aligned first List.mem_cons_self
    have atMost : start / PAGE_SIZE ≤ first / PAGE_SIZE := by
      refine Nat.div_le_div_right ?_
      obtain rfl | isOther := List.mem_cons.mp isStart
      · exact Nat.le_refl _
      · exact below start isOther
    by_cases inside : first / PAGE_SIZE < bitmap.items
    · have escapesFirst := escapes.of_le atMost inside
      rw [← isAligned] at escapesFirst
      obtain ⟨rounds, ended⟩ := escapesFirst.allocLoop positive
      refine ⟨rounds, ?_⟩
      rw [physAllocFrom, allocFrames, ended]
    · have isOther : start ∈ others := by
        obtain rfl | isOther := List.mem_cons.mp isStart
        · exact absurd escapes.behind inside
        · exact isOther
      obtain ⟨rounds, ended⟩ :=
        @allocLoop_behind bitmap len (first / PAGE_SIZE) positive
          (Nat.lt_of_le_of_lt (Nat.zero_le _) escapes.behind) (by omega)
      obtain ⟨further, rest⟩ :=
        ih (fun other isOther => aligned other (List.mem_cons_of_mem _ isOther))
          restDescending isOther
      refine ⟨rounds + further, ?_⟩
      have again := allocLoop_more ended further
      have restAgain := physAllocFrom_more rest rounds
      rw [Nat.add_comm] at restAgain
      rw [physAllocFrom, allocFrames, again]
      exact restAgain

theorem zoneStarts_descending (flags : BitVec 32) :
    (zoneStarts flags).Pairwise fun first second => second ≤ first := by
  unfold zoneStarts
  split <;> split <;> split <;> split <;> decide

variable {call : PhysCall}

theorem Contained.inBounds
    (positive : ∀ len flags, call = .alloc len flags → 0 < len.toNat)
    (contained : bitmap.Contained call) : bitmap.InBounds call := by
  cases call with
  | free start len =>
    obtain ⟨after, ended, -⟩ := bitmap.physFree_wrote start len
    intro outside
    rw [ended] at outside
    cases outside
  | reserve start len =>
    obtain ⟨after, ended, -⟩ := bitmap.physReserve_wrote start len
    intro outside
    rw [ended] at outside
    cases outside
  | alloc len flags =>
    intro rounds
    by_cases atEnd : bitmap.Free (bitmap.items - 1)
    · exact physAllocFrom_contained (positive len flags rfl)
        (fun start => @zoneStarts_aligned start flags) contained.1
        (contained.2 atEnd)
    · exact physAllocFrom_of_last (positive len flags rfl) atEnd

theorem InBounds.contained
    (positive : ∀ len flags, call = .alloc len flags → 0 < len.toNat)
    (addressed : bitmap.Addressed) (inBounds : bitmap.InBounds call) :
    bitmap.Contained call := by
  cases call with
  | free start len =>
    trivial
  | reserve start len =>
    trivial
  | alloc len flags =>
    refine ⟨fun start isStart escapes => ?_, fun _ frame isFree isZero => ?_⟩
    · obtain ⟨rounds, ended⟩ :=
        physAllocFrom_outside (positive len flags rfl)
          (fun start => @zoneStarts_aligned start flags)
          (zoneStarts_descending flags) isStart escapes
      exact inBounds rounds ended
    · rw [Nat.mod_eq_of_lt (addressed frame isFree)] at isZero
      unfold PAGE_SIZE at isZero
      omega

theorem items_physAllocFrom {rounds page : Nat} (positive : 0 < len)
    (ended :
      physAllocFrom rounds len starts bitmap = some (.returns after page)) :
    after.items = bitmap.items := by
  induction starts generalizing bitmap with
  | nil =>
    cases ended
    rfl
  | cons start others ih =>
    rw [physAllocFrom] at ended
    cases search : bitmap.allocFrames rounds start len with
    | none =>
      rw [search] at ended
      cases ended
    | some result =>
      rw [search] at ended
      have searched := allocLoop_ended positive search
      cases result with
      | outside =>
        cases ended
      | returns middle page =>
        have same : middle.items = bitmap.items := by
          cases searched with
          | zero =>
            rfl
          | nothing =>
            rfl
          | found _ _ wrote _ =>
            exact wrote.items
        dsimp only at ended
        split at ended
        · exact (ih ended).trans same
        · cases ended
          exact same

theorem PhysStep.items (step : PhysStep bitmap call after) :
    after.items = bitmap.items := by
  cases step with
  | @free _ start len ended =>
    obtain ⟨cleared, isCleared, wrote⟩ := bitmap.physFree_wrote start len
    rw [isCleared] at ended
    cases ended
    exact wrote.items
  | @reserve _ start len ended =>
    obtain ⟨marked, isMarked, wrote⟩ := bitmap.physReserve_wrote start len
    rw [isMarked] at ended
    cases ended
    exact wrote.items
  | alloc positive ended =>
    exact items_physAllocFrom positive ended

/--
In whatever state calls leave the bitmap that `phys_init` has made, the next
call stays inside of it if it is contained, and within 4 GiB only then.
-/
theorem physRun_inBounds
    {memory : Bitmap 32} {frames : BitVec 32} {calls : List PhysCall}
    {call : PhysCall} (run : Run PhysStep (physInit memory frames) calls bitmap)
    (positive : ∀ len flags, call = .alloc len flags → 0 < len.toNat) :
    (bitmap.Contained call → bitmap.InBounds call) ∧
      (frames.toNat ≤ 2 ^ 20 → bitmap.InBounds call →
        bitmap.Contained call) := by
  refine ⟨fun contained => contained.inBounds positive,
    fun small inBounds => ?_⟩
  have sameItems : bitmap.items = (physInit memory frames).items :=
    run.invariant (fun _ state => state.items = (physInit memory frames).items)
      rfl fun same step => step.items.trans same
  refine inBounds.contained positive (addressed_of_items ?_)
  rw [sameItems]
  unfold physInit roundUp
  dsimp only
  split <;> omega

theorem physRun_lastFree :
    ∃ bitmap,
      Run PhysStep (physInit (fun _ => 0) 32) [.free 0x1F000 1] bitmap ∧
        bitmap.physAlloc 1 2 PHYS_ZONE_DMA = some .outside :=
  ⟨_, .single (.free rfl), rfl⟩

/-- `phys_alloc` of two frames then tests the bit behind the last one. -/
theorem physRun_lastFree_outside :
    ¬ ∀ (memory : Bitmap 32) (frames : BitVec 32) (calls : List PhysCall)
        (bitmap : FrameBitmap) (len flags : BitVec 32),
      Run PhysStep (physInit memory frames) calls bitmap →
        0 < len.toNat → bitmap.InBounds (.alloc len flags) := by
  intro inBounds
  obtain ⟨bitmap, run, outside⟩ := physRun_lastFree
  exact inBounds _ _ _ _ 2 PHYS_ZONE_DMA run (by decide) 1 outside

/-- One frame is handed out without a look behind the last one. -/
theorem physRun_inBounds_lastFree :
    ∃ bitmap,
      Run PhysStep (physInit (fun _ => 0) 32) [.free 0x1F000 1] bitmap ∧
        (bitmap.Contained (.alloc 1 PHYS_ZONE_DMA) →
          bitmap.InBounds (.alloc 1 PHYS_ZONE_DMA)) := by
  obtain ⟨bitmap, run, -⟩ := physRun_lastFree
  refine ⟨bitmap, run, (physRun_inBounds run ?_).1⟩
  intro len flags isAlloc
  cases isAlloc
  decide

end FrameBitmap

end Idylla.Mm
