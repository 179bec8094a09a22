import Idylla.Mm.PhysAttempts

namespace Idylla.Mm

open Idylla.Lib

/-!
# The zones of `phys_alloc`

Whoever asks for low memory or for memory that DMA can reach uses the page
without a look at its address.  The flags choose where the searches start, and
nothing says where they end.
-/

namespace FrameBitmap

variable {bitmap after : FrameBitmap} {len page : Nat} {starts : List Nat}

/-- The pages lie wholly in the zone that the flags ask for. -/
def InZone (flags : BitVec 32) (len page : Nat) : Prop :=
  flags &&& PHYS_ZONE_HIGH ≠ PHYS_ZONE_HIGH →
    page + len * PAGE_SIZE ≤ LOWMEM_SIZE ∧
      (flags &&& PHYS_ZONE_NORMAL ≠ PHYS_ZONE_NORMAL →
        page + len * PAGE_SIZE ≤ DMA_AREA_SIZE)

/--
The first start that has enough free frames in a row above it has so many below
a limit.
-/
def RoomBelow (bitmap : FrameBitmap) (len limit : Nat) : List Nat → Prop
  | [] => False
  | start :: others =>
    bitmap.Reaches len (start / PAGE_SIZE) ∧
        HasRun bitmap.Free len (start / PAGE_SIZE) (limit / PAGE_SIZE) ∨
      ¬ bitmap.Reaches len (start / PAGE_SIZE) ∧
        bitmap.RoomBelow len limit others

/-- The zone that the flags ask for has room where the call searches first. -/
def ZoneHasRoom (bitmap : FrameBitmap) (len flags : BitVec 32) : Prop :=
  flags &&& PHYS_ZONE_HIGH ≠ PHYS_ZONE_HIGH →
    bitmap.RoomBelow len.toNat LOWMEM_SIZE (zoneStarts flags) ∧
      (flags &&& PHYS_ZONE_NORMAL ≠ PHYS_ZONE_NORMAL →
        bitmap.RoomBelow len.toNat DMA_AREA_SIZE (zoneStarts flags))

theorem Attempted.below_iff {limit : Nat}
    (attempted : Attempted bitmap len starts (.returns after page))
    (someFrame : page ≠ 0) :
    page + len * PAGE_SIZE ≤ limit ↔ bitmap.RoomBelow len limit starts := by
  generalize isOutcome : PhysOutcome.returns after page = outcome at attempted
  induction attempted with
  | failed =>
    cases isOutcome
    exact absurd rfl someFrame
  | @found start first others marked isFirst notZero wrote ends =>
    cases isOutcome
    have reaches : bitmap.Reaches len (start / PAGE_SIZE) :=
      ⟨notZero, first, isFirst.behind, isFirst.isFree⟩
    rw [RoomBelow, ← Nat.add_mul]
    constructor
    · intro below
      refine .inl ⟨reaches, first, isFirst.behind, ?_, isFirst.isFree⟩
      exact (Nat.le_div_iff_mul_le (by decide)).mpr below
    · rintro (⟨-, other, above, below, isRun⟩ | ⟨missed, -⟩)
      · have least := isFirst.least other above isRun
        refine (Nat.le_div_iff_mul_le (by decide)).mp ?_
        omega
      · exact absurd reaches missed
  | outside =>
    cases isOutcome
  | next missed _ _ ih =>
    rw [ih isOutcome, RoomBelow]
    constructor
    · intro room
      exact .inr ⟨missed, room⟩
    · rintro (⟨reaches, -⟩ | ⟨-, room⟩)
      · exact absurd reaches missed
      · exact room

/--
A page that `phys_alloc` returns lies in the zone that was asked for exactly
when the zone has room.
-/
theorem physAlloc_inZone_iff {rounds : Nat} {len flags : BitVec 32}
    (addressed : bitmap.Addressed) (positive : 0 < len.toNat)
    (ended : bitmap.physAlloc rounds len flags = some (.returns after page))
    (someFrame : page ≠ 0) :
    InZone flags len.toNat page ↔ bitmap.ZoneHasRoom len flags := by
  have attempted :=
    physAllocFrom_attempted addressed positive
      (fun start => @zoneStarts_aligned start flags) ended
  have below := fun limit =>
    @Attempted.below_iff _ _ _ _ _ limit attempted someFrame
  unfold InZone ZoneHasRoom
  rw [below, below]

/-- A bitmap of a little more than 16 MiB of which only frame 4096 is free. -/
def dmaFull : FrameBitmap where
  words := Memory.set (fun _ => BitVec.allOnes 32) 128 0xFFFFFFFE
  items := 4128
  whole := rfl
  bounded := by decide

theorem allocFrames_one {frame start : Nat}
    (found : bitmap.findFirstZero (start / PAGE_SIZE) = frame)
    (notZero : frame ≠ 0) (isFree : bitmap.Free frame) :
    bitmap.allocFrames 1 start 1 =
      some (.returns { bitmap with words := bitmap.words.setBit frame }
        (frame * PAGE_SIZE % 2 ^ 32)) := by
  have counted : bitmap.countDown 1 frame = .enough := by
    rw [countDown, testFrame, if_pos isFree.1, isFree.2]
    rfl
  have round : bitmap.allocRound 1 (start / PAGE_SIZE) =
        .inl (.returns { bitmap with words := bitmap.words.setBit frame }
          (frame * PAGE_SIZE % 2 ^ 32)) := by
    unfold allocRound
    rw [found]
    rw [if_neg notZero, counted, overFrames, setFrame, if_pos isFree.1]
    rfl
  rw [allocFrames, allocLoop, round]

theorem physAlloc_dmaFull :
    dmaFull.physAlloc 1 1 PHYS_ZONE_DMA =
      some (.returns { dmaFull with words := dmaFull.words.setBit 4096 }
        0x01000000) := by
  change physAllocFrom 1 1 [0] dmaFull = _
  rw [physAllocFrom,
    @allocFrames_one dmaFull 4096 0 (by decide +kernel) (by decide)
      (by decide +kernel)]
  rfl

/-- A page for DMA lies where DMA does not reach. -/
theorem physAlloc_dmaFull_above :
    ¬ ∀ after page,
      dmaFull.physAlloc 1 1 PHYS_ZONE_DMA = some (.returns after page) →
        page ≠ 0 → InZone PHYS_ZONE_DMA 1 page := by
  intro inZone
  have isIn := inZone _ _ physAlloc_dmaFull (by decide)
  have below := (isIn (by decide)).2 (by decide)
  revert below
  decide

/-- The page lies there because there is no room below. -/
theorem physAlloc_inZone_iff_dmaFull :
    InZone PHYS_ZONE_DMA (1 : BitVec 32).toNat 0x01000000 ↔
      dmaFull.ZoneHasRoom 1 PHYS_ZONE_DMA :=
  physAlloc_inZone_iff (addressed_of_items (by decide)) (by decide)
    physAlloc_dmaFull (by decide)

end FrameBitmap

end Idylla.Mm
