import Idylla.Mm.PhysBounds
import Idylla.Mm.PhysZones

namespace Idylla.Mm

open Idylla.Lib

/-!
# Frames that are handed out one by one

The calls that nearly all of the kernel makes, of one frame, always end.  The
frames that are out are the ones whose bits `phys_alloc` has set and `phys_free`
has not cleared since; the words of the bitmap follow the set of free frames
that `Phys` keeps.
-/

namespace FrameBitmap

variable {bitmap after : FrameBitmap} {page : Nat} {starts : List Nat}

/-- The bitmap as the set of its free frames. -/
def view (bitmap : FrameBitmap) (address : Nat) : PhysBitmap where
  address := address
  items := bitmap.items
  free := fun frame => decide (bitmap.Free frame)

theorem view_physInit (memory : Bitmap 32) {frames : BitVec 32} (address : Nat)
    (fits : roundUp frames.toNat 32 < 2 ^ 32) :
    (physInit memory frames).view address =
      Mm.physInit address frames.toNat := by
  unfold view Mm.physInit
  congr 1
  · exact Nat.mod_eq_of_lt fits
  · funext frame
    refine decide_eq_false fun isFree => ?_
    have size := (physInit memory frames).size_mul
    have isSet : (physInit memory frames).words.bit frame = true := by
      refine Bitmap.bit_of_allOnes (by decide) (if_pos ?_)
      have inside := isFree.1
      unfold FrameBitmap.size physInit at size
      unfold physInit at inside
      dsimp only at size inside
      omega
    rw [isFree.2] at isSet
    cases isSet

theorem Wrote.free_given {first count frame : Nat}
    (wrote : Wrote false first count bitmap after) :
    after.Free frame ↔
      bitmap.Free frame ∨
        frame < bitmap.items ∧ first ≤ frame ∧ frame < first + count := by
  unfold Free
  rw [wrote.items, wrote.bit]
  split
  next inside =>
    simp only [and_true, inside]
    exact ⟨.inr, fun either => either.elim And.left id⟩
  next outside =>
    exact ⟨.inl, fun either => either.resolve_right fun also => outside also.2⟩

theorem view_eq {address : Nat} {other : PhysBitmap}
    (sameAddress : other.address = address)
    (sameItems : other.items = bitmap.items)
    (sameFree : ∀ frame, other.free frame = true ↔ bitmap.Free frame) :
    bitmap.view address = other := by
  obtain ⟨_, _, free⟩ := other
  cases sameAddress
  cases sameItems
  unfold view
  congr 1
  funext frame
  rw [Bool.eq_iff_iff, decide_eq_true_iff]
  exact (sameFree frame).symm

theorem view_physFree (bitmap : FrameBitmap) {start len : BitVec 32}
    (address : Nat) (fits : start.toNat / PAGE_SIZE + len.toNat < 2 ^ 32) :
    ∃ after, bitmap.physFree start len = some after ∧
      after.view address =
        (bitmap.view address).physFree start.toNat len.toNat := by
  obtain ⟨after, isAfter, wrote⟩ := bitmap.physFree_wrote start len
  refine ⟨after, isAfter, view_eq ?_ ?_ fun frame => ?_⟩
  · rw [PhysBitmap.address_physFree]
    rfl
  · rw [PhysBitmap.items_physFree]
    exact wrote.items.symm
  · rw [PhysBitmap.free_physFree, wrote.free_given, if_pos fits]
    unfold PhysBitmap.InFrames view
    dsimp only
    rw [decide_eq_true_iff]
    refine or_congr_right (and_congr_right fun inside => ?_)
    exact and_congr_right fun above => by omega

theorem view_physReserve (bitmap : FrameBitmap) (start len : BitVec 32)
    (address : Nat) :
    ∃ after, bitmap.physReserve start len = some after ∧
      after.view address =
        (bitmap.view address).physReserve start.toNat len.toNat := by
  obtain ⟨after, isAfter, wrote⟩ := bitmap.physReserve_wrote start len
  refine ⟨after, isAfter, view_eq ?_ ?_ fun frame => ?_⟩
  · rw [PhysBitmap.address_physReserve]
    rfl
  · rw [PhysBitmap.items_physReserve]
    exact wrote.items.symm
  · rw [PhysBitmap.free_physReserve, wrote.free_taken]
    unfold PhysBitmap.InFrames view
    rw [decide_eq_true_iff]
    refine and_congr_right fun isFree => not_congr ?_
    have inside := isFree.1
    constructor
    · rintro ⟨-, above, below⟩
      exact ⟨above, by omega⟩
    · rintro ⟨above, below⟩
      exact ⟨inside, above, by omega⟩

theorem Wrote.view_take {frame address : Nat}
    (wrote : Wrote true frame 1 bitmap after) :
    after.view address = (bitmap.view address).take frame := by
  refine view_eq rfl wrote.items.symm fun other => ?_
  rw [PhysBitmap.free_take, wrote.free_taken]
  unfold view
  rw [decide_eq_true_iff]
  constructor
  · rintro ⟨different, isFree⟩
    exact ⟨isFree, by omega⟩
  · rintro ⟨isFree, outside⟩
    exact ⟨by omega, isFree⟩

/--
The lowest free frame at or above the first of some starts that has any free
frame above it.
-/
def LowestFree (bitmap : FrameBitmap) : List Nat → Nat → Prop
  | [], _ => False
  | start :: others, frame =>
    FirstFree bitmap.Free (start / PAGE_SIZE) frame ∨
      (∀ other, start / PAGE_SIZE ≤ other → ¬ bitmap.Free other) ∧
        bitmap.LowestFree others frame

theorem LowestFree.isFree {frame : Nat}
    (lowest : bitmap.LowestFree starts frame) : bitmap.Free frame := by
  induction starts with
  | nil =>
    cases lowest
  | cons start others ih =>
    obtain first | ⟨-, later⟩ := lowest
    · exact first.isFree
    · exact ih later

/-- What a call for one frame does: nothing is free, or it takes a frame. -/
def TakesOne (bitmap : FrameBitmap) (starts : List Nat) (after : FrameBitmap)
    (page : Nat) : Prop :=
  page = 0 ∧ after = bitmap ∧
      (∀ start ∈ starts, ∀ frame, start / PAGE_SIZE ≤ frame →
        ¬ bitmap.Free frame) ∨
    ∃ frame, bitmap.LowestFree starts frame ∧ frame ≠ 0 ∧
      page = frame * PAGE_SIZE ∧ Wrote true frame 1 bitmap after

theorem searchable_one (bitmap : FrameBitmap) (starts : List Nat) :
    bitmap.Searchable 1 starts := by
  induction starts with
  | nil =>
    trivial
  | cons start others ih =>
    refine ⟨.inr fun frame later stops => ?_, .inr ih⟩
    refine ⟨frame - 1, Nat.le_sub_one_of_lt later, ?_, freeRun_one.mpr stops.1⟩
    exact Nat.le_of_eq (Nat.sub_add_cancel (Nat.one_le_of_lt later))

theorem Attempted.takesOne (reserved : ¬ bitmap.Free 0)
    (attempted : Attempted bitmap 1 starts (.returns after page)) :
    bitmap.TakesOne starts after page := by
  generalize isOutcome : PhysOutcome.returns after page = outcome at attempted
  induction attempted with
  | failed =>
    cases isOutcome
    refine .inl ⟨rfl, rfl, fun start isStart => ?_⟩
    cases isStart
  | @found start first others marked isFirst notZero wrote ends =>
    cases isOutcome
    have isFree := freeRun_one.mp isFirst.isFree
    have lowest : FirstFree bitmap.Free (start / PAGE_SIZE) first :=
      ⟨isFirst.behind, isFree, fun other above otherFree =>
        isFirst.least other above (freeRun_one.mpr otherFree)⟩
    refine .inr ⟨first, .inl lowest, ?_, rfl, wrote⟩
    rintro rfl
    exact reserved isFree
  | outside =>
    cases isOutcome
  | @next start others outcome missed searches _ ih =>
    have noneFree (frame : Nat) (above : start / PAGE_SIZE ≤ frame) :
        ¬ bitmap.Free frame := fun isFree =>
      missed ⟨fun _ => reserved, frame, above, freeRun_one.mpr isFree⟩
    obtain ⟨isZero, same, rest⟩ | ⟨frame, lowest, taken⟩ := ih isOutcome
    · refine .inl ⟨isZero, same, fun other isOther => ?_⟩
      obtain rfl | isRest := List.mem_cons.mp isOther
      · exact noneFree
      · exact rest other isRest
    · exact .inr ⟨frame, .inr ⟨noneFree, lowest⟩, taken⟩

theorem physAlloc_takesOne {rounds : Nat} {flags : BitVec 32}
    (addressed : bitmap.Addressed) (reserved : ¬ bitmap.Free 0)
    (ended : bitmap.physAlloc rounds 1 flags = some (.returns after page)) :
    bitmap.TakesOne (zoneStarts flags) after page :=
  (physAllocFrom_attempted addressed (by decide)
    (fun start => @zoneStarts_aligned start flags) ended).takesOne reserved

theorem physAlloc_one (addressed : bitmap.Addressed) (flags : BitVec 32) :
    ∃ rounds after page,
      bitmap.physAlloc rounds 1 flags = some (.returns after page) :=
  physAllocFrom_ends addressed (by decide)
    (fun start => @zoneStarts_aligned start flags)
    (bitmap.searchable_one (zoneStarts flags))

theorem zero_mem_zoneStarts (flags : BitVec 32) : 0 ∈ zoneStarts flags := by
  unfold zoneStarts
  simp

theorem physFree_one {frame : Nat} (inside : frame < bitmap.items)
    (address : frame * PAGE_SIZE < 2 ^ 32) :
    ∃ after,
      bitmap.physFree (BitVec.ofNat 32 (frame * PAGE_SIZE)) 1 = some after ∧
        Wrote false frame 1 bitmap after := by
  obtain ⟨after, ended, wrote⟩ :=
    bitmap.physFree_wrote (BitVec.ofNat 32 (frame * PAGE_SIZE)) 1
  refine ⟨after, ended, ?_⟩
  have number :
      (BitVec.ofNat 32 (frame * PAGE_SIZE)).toNat / PAGE_SIZE = frame := by
    rw [BitVec.toNat_ofNat, Nat.mod_eq_of_lt address]
    exact Nat.mul_div_cancel frame (by decide)
  have one : (1 : BitVec 32).toNat = 1 := rfl
  have small : frame + 1 < 2 ^ 32 := by
    unfold PAGE_SIZE at address
    omega
  rw [number, one, if_pos small,
    Nat.min_eq_left (show 1 ≤ bitmap.items - frame by omega)] at wrote
  exact wrote

/-- The bitmap with the frames that are out. -/
structure Client where
  bitmap : FrameBitmap
  held : List Nat

/-- The calls for one frame, with the page that is returned. -/
inductive FrameCall where
  | alloc (flags : BitVec 32) (page : Nat)
  | free (frame : Nat)

/-- `phys_alloc(1, flags)`, and `phys_free` of a frame that is out. -/
inductive ClientStep : Client → FrameCall → Client → Prop where
  | alloc {bitmap after : FrameBitmap} {held : List Nat} {rounds page : Nat}
      {flags : BitVec 32}
      (ended : bitmap.physAlloc rounds 1 flags = some (.returns after page)) :
      ClientStep ⟨bitmap, held⟩ (.alloc flags page)
        ⟨after, if page = 0 then held else page / PAGE_SIZE :: held⟩
  | free {bitmap after : FrameBitmap} {held : List Nat} {frame : Nat}
      (isHeld : frame ∈ held)
      (ended :
        bitmap.physFree (BitVec.ofNat 32 (frame * PAGE_SIZE)) 1 = some after) :
      ClientStep ⟨bitmap, held⟩ (.free frame) ⟨after, held.erase frame⟩

/-- The frames that are out are those that were free and are not any more. -/
structure Outstanding (initial : FrameBitmap) (client : Client) : Prop where
  items : client.bitmap.items = initial.items
  once : client.held.Nodup
  fromFree : ∀ frame ∈ client.held, initial.Free frame
  free_iff : ∀ frame,
    client.bitmap.Free frame ↔ initial.Free frame ∧ frame ∉ client.held

section Runs

variable {initial : FrameBitmap} {client next : Client} {call : FrameCall}
  (addressed : initial.Addressed) (reserved : ¬ initial.Free 0)
include addressed

theorem Outstanding.stillAddressed (outstanding : Outstanding initial client) :
    client.bitmap.Addressed :=
  fun frame isFree => addressed frame ((outstanding.free_iff frame).mp isFree).1

theorem Outstanding.physFree {frame : Nat}
    (outstanding : Outstanding initial client) (isHeld : frame ∈ client.held) :
    ∃ after,
      client.bitmap.physFree (BitVec.ofNat 32 (frame * PAGE_SIZE)) 1 =
          some after ∧
        Wrote false frame 1 client.bitmap after := by
  have wasFree := outstanding.fromFree frame isHeld
  refine physFree_one ?_ (addressed frame wasFree)
  rw [outstanding.items]
  exact wasFree.1

include reserved

theorem Outstanding.takesOne {rounds : Nat} {flags : BitVec 32}
    (outstanding : Outstanding initial client)
    (ended :
      client.bitmap.physAlloc rounds 1 flags = some (.returns after page)) :
    client.bitmap.TakesOne (zoneStarts flags) after page :=
  physAlloc_takesOne (outstanding.stillAddressed addressed)
    (fun isFree => reserved ((outstanding.free_iff 0).mp isFree).1) ended

/-- A call keeps the record of the frames that are out. -/
theorem ClientStep.outstanding (step : ClientStep client call next)
    (outstanding : Outstanding initial client) : Outstanding initial next := by
  cases step with
  | @alloc bitmap after held rounds page flags ended =>
    obtain ⟨isZero, rfl, -⟩ | ⟨frame, lowest, notZero, rfl, wrote⟩ :=
      outstanding.takesOne addressed reserved ended
    · rw [if_pos isZero]
      exact outstanding
    · have isFree := (outstanding.free_iff frame).mp lowest.isFree
      have someFrame : frame * PAGE_SIZE ≠ 0 := by
        unfold PAGE_SIZE
        omega
      rw [if_neg someFrame, Nat.mul_div_cancel frame (by decide)]
      refine ⟨wrote.items.trans outstanding.items,
        List.nodup_cons.mpr ⟨isFree.2, outstanding.once⟩,
        fun other isHeld => ?_, fun other => ?_⟩
      · obtain rfl | wasHeld := List.mem_cons.mp isHeld
        · exact isFree.1
        · exact outstanding.fromFree other wasHeld
      · rw [wrote.free_taken, outstanding.free_iff, List.mem_cons, not_or,
          and_assoc]
        refine and_congr_right fun _ => ?_
        rw [and_comm]
        exact and_congr_left fun _ => by omega
  | @free bitmap after held frame isHeld ended =>
    obtain ⟨cleared, isCleared, wrote⟩ := outstanding.physFree addressed isHeld
    rw [isCleared] at ended
    cases ended
    have wasFree := outstanding.fromFree frame isHeld
    refine ⟨wrote.items.trans outstanding.items, outstanding.once.erase _,
      fun other isOther =>
        outstanding.fromFree other (List.mem_of_mem_erase isOther),
      fun other => ?_⟩
    rw [wrote.free_given, outstanding.free_iff, outstanding.items,
      outstanding.once.mem_erase_iff]
    constructor
    · rintro (⟨isFree, notHeld⟩ | ⟨inside, above, below⟩)
      · exact ⟨isFree, fun both => notHeld both.2⟩
      · obtain rfl : other = frame := by omega
        exact ⟨wasFree, fun both => both.1 rfl⟩
    · rintro ⟨isFree, notLeft⟩
      by_cases same : other = frame
      · exact .inr ⟨isFree.1, by omega, by omega⟩
      · exact .inl ⟨isFree, fun wasHeld => notLeft ⟨same, wasHeld⟩⟩

theorem run_outstanding {calls : List FrameCall}
    (run : Run ClientStep ⟨initial, []⟩ calls client) :
    Outstanding initial client := by
  refine run.invariant (fun _ state => Outstanding initial state) ?_ ?_
  · exact ⟨rfl, List.nodup_nil,
      fun frame isHeld => absurd isHeld List.not_mem_nil,
      fun frame => ⟨fun isFree => ⟨isFree, List.not_mem_nil⟩, And.left⟩⟩
  · intro _ source label target holds step
    exact step.outstanding addressed reserved holds

/--
In every run from a bitmap in which frame 0 is reserved, the frames that are out
are recorded without duplicates, `phys_alloc` returns nothing only where nothing
is free and else the lowest frame of the first zone with a free frame above its
start, which is not out, and `phys_free` clears the bit of its frame alone.
-/
theorem clientRun_outstanding {calls : List FrameCall}
    (run : Run ClientStep ⟨initial, []⟩ calls client) :
    Outstanding initial client ∧
    (∀ flags,
      (∃ rounds after page,
        client.bitmap.physAlloc rounds 1 flags = some (.returns after page)) ∧
      ∀ rounds after page,
        client.bitmap.physAlloc rounds 1 flags = some (.returns after page) →
        page = 0 ∧ after = client.bitmap ∧
            (∀ frame, ¬ client.bitmap.Free frame) ∨
          ∃ frame, client.bitmap.LowestFree (zoneStarts flags) frame ∧
            page = frame * PAGE_SIZE ∧ page ≠ 0 ∧ frame ∉ client.held ∧
            Wrote true frame 1 client.bitmap after) ∧
    ∀ frame ∈ client.held, ∃ after,
      client.bitmap.physFree (BitVec.ofNat 32 (frame * PAGE_SIZE)) 1 =
          some after ∧
        Wrote false frame 1 client.bitmap after := by
  have outstanding := run_outstanding addressed reserved run
  refine ⟨outstanding, fun flags => ⟨?_, ?_⟩, fun frame isHeld =>
    outstanding.physFree addressed isHeld⟩
  · exact physAlloc_one (outstanding.stillAddressed addressed) flags
  · intro rounds after page ended
    obtain ⟨isZero, same, noneFree⟩ | ⟨frame, lowest, notZero, isPage, wrote⟩ :=
      outstanding.takesOne addressed reserved ended
    · exact .inl ⟨isZero, same, fun frame =>
        noneFree 0 (zero_mem_zoneStarts flags) frame (Nat.zero_le _)⟩
    · refine .inr ⟨frame, lowest, isPage, ?_,
        ((outstanding.free_iff frame).mp lowest.isFree).2, wrote⟩
      rw [isPage]
      unfold PAGE_SIZE
      omega

end Runs

/-- A run that takes frame 5 and gives it back. -/
theorem clientRun_outstanding_oneFree :
    ∃ client, Run ClientStep ⟨oneFree, []⟩
        [.alloc PHYS_ZONE_DMA 0x5000, .free 5] client ∧
      Outstanding oneFree client := by
  have ended : oneFree.physAlloc 1 1 PHYS_ZONE_DMA =
        some (.returns { oneFree with words := oneFree.words.setBit 5 }
          0x5000) := by
    change physAllocFrom 1 1 [0] oneFree = _
    rw [physAllocFrom,
      @allocFrames_one oneFree 5 0 (by decide) (by decide) (by decide)]
    rfl
  obtain ⟨cleared, isCleared, -⟩ :=
    @physFree_one { oneFree with words := oneFree.words.setBit 5 } 5
      (by decide) (by decide)
  have run : Run ClientStep ⟨oneFree, []⟩
        [.alloc PHYS_ZONE_DMA 0x5000, .free 5] ⟨cleared, [].erase 5⟩ :=
    .cons (.alloc ended) (.single (.free List.mem_cons_self isCleared))
  exact ⟨_, run,
    (clientRun_outstanding (addressed_of_items (by decide)) (by decide)
      run).1⟩

/-- The calls that change the bitmap; `phys_alloc` is asked for one frame. -/
inductive PhysCall where
  | free (start len : BitVec 32)
  | reserve (start len : BitVec 32)
  | alloc (flags : BitVec 32) (page : Nat)

/-- The calls on the words; a range that is freed does not wrap around. -/
inductive WordStep : FrameBitmap → PhysCall → FrameBitmap → Prop where
  | free {bitmap after : FrameBitmap} {start len : BitVec 32}
      (fits : start.toNat / PAGE_SIZE + len.toNat < 2 ^ 32)
      (ended : bitmap.physFree start len = some after) :
      WordStep bitmap (.free start len) after
  | reserve {bitmap after : FrameBitmap} {start len : BitVec 32}
      (ended : bitmap.physReserve start len = some after) :
      WordStep bitmap (.reserve start len) after
  | alloc {bitmap after : FrameBitmap} {rounds page : Nat} {flags : BitVec 32}
      (reserved : ¬ bitmap.Free 0)
      (ended : bitmap.physAlloc rounds 1 flags = some (.returns after page)) :
      WordStep bitmap (.alloc flags page) after

/-- The same calls on the set of free frames. -/
inductive SetStep : PhysBitmap → PhysCall → PhysBitmap → Prop where
  | free (set : PhysBitmap) (start len : BitVec 32) :
      SetStep set (.free start len) (set.physFree start.toNat len.toNat)
  | reserve (set : PhysBitmap) (start len : BitVec 32) :
      SetStep set (.reserve start len) (set.physReserve start.toNat len.toNat)
  | refuse {set : PhysBitmap} (flags : BitVec 32)
      (noneFree : ∀ frame, set.free frame = false) :
      SetStep set (.alloc flags 0) set
  | take {set : PhysBitmap} {flags : BitVec 32} {start frame : Nat}
      (isStart : start ∈ zoneStarts flags)
      (lowest : FirstFree (set.free · = true) (start / PAGE_SIZE) frame) :
      SetStep set (.alloc flags (frame * PAGE_SIZE)) (set.take frame)

theorem LowestFree.first {frame : Nat}
    (lowest : bitmap.LowestFree starts frame) :
    ∃ start ∈ starts, FirstFree bitmap.Free (start / PAGE_SIZE) frame := by
  induction starts with
  | nil =>
    cases lowest
  | cons start others ih =>
    obtain first | ⟨-, later⟩ := lowest
    · exact ⟨start, List.mem_cons_self, first⟩
    · obtain ⟨other, isOther, first⟩ := ih later
      exact ⟨other, List.mem_cons_of_mem _ isOther, first⟩

theorem WordStep.view {call : PhysCall} (step : WordStep bitmap call after)
    (small : bitmap.items ≤ 2 ^ 20) (address : Nat) :
    after.items = bitmap.items ∧
      SetStep (bitmap.view address) call (after.view address) := by
  cases step with
  | @free _ start len fits ended =>
    obtain ⟨last, isLast, isView⟩ := bitmap.view_physFree address fits
    obtain rfl := Option.some.inj (ended.symm.trans isLast)
    have items := congrArg PhysBitmap.items isView
    rw [PhysBitmap.items_physFree] at items
    exact ⟨items, isView ▸ .free _ start len⟩
  | @reserve _ start len ended =>
    obtain ⟨last, isLast, isView⟩ := bitmap.view_physReserve start len address
    obtain rfl := Option.some.inj (ended.symm.trans isLast)
    have items := congrArg PhysBitmap.items isView
    rw [PhysBitmap.items_physReserve] at items
    exact ⟨items, isView ▸ .reserve _ start len⟩
  | @alloc _ rounds page flags reserved ended =>
    obtain ⟨rfl, rfl, noneFree⟩ | ⟨frame, lowest, -, rfl, wrote⟩ :=
      physAlloc_takesOne (addressed_of_items small) reserved ended
    · refine ⟨rfl, .refuse flags fun frame => decide_eq_false ?_⟩
      exact noneFree 0 (zero_mem_zoneStarts flags) frame (Nat.zero_le _)
    · obtain ⟨start, isStart, first⟩ := lowest.first
      refine ⟨wrote.items, wrote.view_take ▸ .take isStart ?_⟩
      exact ⟨first.behind, decide_eq_true first.isFree,
        fun other behind isFree =>
          first.least other behind (of_decide_eq_true isFree)⟩

end FrameBitmap

end Idylla.Mm
