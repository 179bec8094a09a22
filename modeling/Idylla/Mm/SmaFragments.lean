import Idylla.Lib.FreeRuns
import Idylla.Mm.SmaFixed
import Idylla.Mm.VmMmapBounds

namespace Idylla.Mm

open Idylla.Lib

/-!
# Freeing blocks again

`sma_free` moves a whole block to the free list and does not join it with its
free neighbours, since that part of the source is compiled out.  It finds the
block by an address that it compares with the computed end, which is zero for a
block at the top of the address space.
-/

variable {w : Nat} {Data : Type} {area next : SmaArea w Data}
  {block : SmaBlock w Data}

/-- A call that returns: `sma_alloc`, or `sma_free` of a whole used block. -/
inductive SmaMove :
    SmaArea w Data → SmaCall w → SmaArea w Data → Prop where
  | refused {area : SmaArea w Data} {addr size : BitVec w} {flags : BitVec 32}
      (result : smaAlloc area addr size flags = none) :
      SmaMove area (.alloc addr size flags) area
  | alloc {area next : SmaArea w Data} {block : SmaBlock w Data}
      {addr size : BitVec w}
      {flags : BitVec 32}
      (result : smaAlloc area addr size flags = some (block, next)) :
      SmaMove area (.alloc addr size flags) next
  | free {area next : SmaArea w Data} {block : SmaBlock w Data}
      {freed : Option (SmaBlock w Data)}
      (member : block ∈ area.usedList)
      (result : smaFree area block.start block.size = some (next, freed)) :
      SmaMove area (.free block.start block.size) next

/-- An allocation asks for memory and does not carve past the end of a block. -/
def AllocatesInBlock (area : SmaArea w Data) : SmaCall w → Prop
  | .alloc addr size flags => size ≠ 0 ∧ ¬ Overruns area addr size flags
  | .free _ _ => True

variable {call : SmaCall w}

theorem SmaMove.sound (step : SmaMove area call next) (sound : Sound area)
    (inBlock : AllocatesInBlock area call) : Sound next := by
  cases step with
  | refused result =>
    exact sound
  | alloc result =>
    exact (smaAlloc_partition_iff sound inBlock.1 result).1 inBlock.2
  | free member result =>
    exact sound.smaFree result

theorem smaFree_cases {start size : BitVec w} {freed : Option (SmaBlock w Data)}
    (result : smaFree area start size = some (next, freed)) :
    next = area ∨
      ∃ passed moved rest,
        area.usedList = passed ++ moved :: rest ∧
          moved.start = start ∧ moved.size = size ∧
          next =
            { area with
              usedList := passed ++ rest
              freeList :=
                smaListAdd
                  { moved with flags := moved.flags &&& ~~~smaFlagsUsed }
                  area.freeList } := by
  unfold smaFree at result
  cases isFound : firstFound (fun block => block.hits start) area.usedList with
  | none =>
    rw [isFound] at result
    cases result
  | some found =>
    rw [isFound] at result
    dsimp only at result
    by_cases whole : found.item.start = start ∧ found.item.size = size
    · rw [if_pos whole] at result
      cases result
      exact .inr ⟨found.passed, found.item, found.rest,
        (firstFound_some isFound).1, whole.1, whole.2, rfl⟩
    · rw [if_neg whole] at result
      cases result
      exact .inl rfl

/-- A freed block does not touch a free one. -/
def KeepsApart (area : SmaArea w Data) : SmaCall w → Prop
  | .alloc addr size flags => AllocatesInBlock area (.alloc addr size flags)
  | .free start size =>
    ∀ other ∈ area.freeList,
      other.ends ≠ start.toNat ∧ start.toNat + size.toNat ≠ other.start.toNat

/-- The address is in the area and in no used block. -/
def SmaArea.Unused (area : SmaArea w Data) (address : Nat) : Prop :=
  area.Covers address ∧ ∀ used ∈ area.usedList, ¬ used.Covers address

theorem KeepsApart.allocatesInBlock (keeps : KeepsApart area call) :
    AllocatesInBlock area call := by
  cases call with
  | alloc addr size flags =>
    exact keeps
  | free start size =>
    trivial

theorem SmaMove.separated (step : SmaMove area call next) (sound : Sound area)
    (areaNonempty : area.size ≠ 0) (separated : Separated area)
    (keeps : KeepsApart area call) : Separated next := by
  cases step with
  | refused result =>
    exact separated
  | @alloc _ _ addr size flags result =>
    obtain ⟨found, isFound, carved⟩ := Option.map_eq_some_iff.mp result
    have after :=
      separated.carve sound areaNonempty (smaFind_split isFound) keeps.1
        (room_of_not_overruns isFound keeps.2)
    rw [carved] at after
    exact after
  | free _ result =>
    obtain rfl | ⟨passed, moved, rest, split, start, size, rfl⟩ :=
      smaFree_cases result
    · exact separated
    · have movedMember : moved ∈ area.usedList ++ area.freeList := by
        rw [split]
        simp
      have nonempty : moved.size.toNat ≠ 0 := by
        intro isEmpty
        exact areaNonempty
          (sound.nonempty moved movedMember (BitVec.eq_of_toNat_eq isEmpty))
      rw [← start, ← size] at keeps
      intro first firstMember second secondMember
      obtain rfl | firstOld := mem_smaListAdd.mp firstMember <;>
        obtain rfl | secondOld := mem_smaListAdd.mp secondMember
      · unfold SmaBlock.ends
        dsimp only
        omega
      · exact (keeps second secondOld).2
      · exact (keeps first firstOld).1
      · exact separated first firstOld second secondOld

theorem SmaMove.areaSize (step : SmaMove area call next) :
    next.size = area.size := by
  cases step with
  | refused result =>
    rfl
  | @alloc _ _ addr size flags result =>
    obtain ⟨found, -, carved⟩ := Option.map_eq_some_iff.mp result
    have same := (smaCarve_carved area found addr size).areaSize
    rw [carved] at same
    exact same
  | free _ result =>
    obtain rfl | ⟨passed, moved, rest, -, -, -, rfl⟩ := smaFree_cases result
    · rfl
    · rfl

theorem Separated.contains {first len : Nat}
    (separated : Separated area) (sound : Sound area) (positive : 0 < len)
    (unused : FreeRun area.Unused first len) :
    ∃ free ∈ area.freeList,
      free.start.toNat ≤ first ∧ first + len ≤ free.ends := by
  have holder (address : Nat) (isUnused : area.Unused address) :
      ∃ free ∈ area.freeList, free.Covers address := by
    obtain ⟨piece, member, covers⟩ := (sound.tiles.exact address).mpr isUnused.1
    obtain inUsed | inFree := List.mem_append.mp member
    · exact absurd covers (isUnused.2 piece inUsed)
    · exact ⟨piece, inFree, covers⟩
  obtain ⟨free, member, covers⟩ := holder first (unused.head positive)
  refine ⟨free, member, covers.1, ?_⟩
  apply Nat.le_of_not_lt
  intro short
  have behind := covers.2
  obtain ⟨other, otherMember, otherCovers⟩ :=
    holder free.ends (unused _ (Nat.le_of_lt behind) short)
  by_cases touches : free.ends = other.start.toNat
  · exact separated free member other otherMember touches
  · have last : free.Covers (free.ends - 1) := by
      unfold SmaBlock.Covers at covers ⊢
      omega
    have otherLast : other.Covers (free.ends - 1) := by
      unfold SmaBlock.Covers at otherCovers ⊢
      omega
    have same :=
      sound.covers_unique (List.mem_append_right _ member)
        (List.mem_append_right _ otherMember) last otherLast
    rw [← same] at otherCovers
    exact Nat.lt_irrefl _ otherCovers.2

/--
In every run whose frees do not leave free blocks that touch, a request without
an address is refused only where so many unused addresses in a row do not exist.
-/
theorem smaAlloc_refused_of_run
    {start size need : BitVec w} {flags : BitVec 32} {past : List (SmaCall w)}
    (fits : (pageRoundDown start).toNat + (pageRoundUp size).toNat ≤ 2 ^ w)
    (run :
      Run (Guarded KeepsApart SmaMove) (smaAreaCreate start size) past area)
    (notFixed : flags &&& smaAllocFixed = 0)
    (refused : smaAlloc area 0 need flags = none) :
    ¬ ∃ first len, 0 < len ∧ need.toNat ≤ len ∧
      FreeRun area.Unused first len := by
  rintro ⟨first, len, positive, large, unused⟩
  have holds : Sound area ∧ (area.size ≠ 0 → Separated area) := by
    refine run.invariant
      (fun _ state => Sound state ∧ (state.size ≠ 0 → Separated state)) ?_ ?_
    · refine ⟨smaAreaCreate_sound fits, fun areaNonempty => ?_⟩
      have nonempty : (pageRoundUp size).toNat ≠ 0 := fun isEmpty =>
        areaNonempty (BitVec.eq_of_toNat_eq isEmpty)
      intro first isFirst second isSecond
      rw [List.mem_singleton.mp isFirst, List.mem_singleton.mp isSecond]
      unfold SmaBlock.ends
      dsimp only
      omega
    · intro _ source label target holds step
      refine ⟨step.2.sound holds.1 step.1.allocatesInBlock,
        fun areaNonempty => ?_⟩
      rw [step.2.areaSize] at areaNonempty
      exact step.2.separated holds.1 areaNonempty (holds.2 areaNonempty) step.1
  obtain ⟨sound, separated⟩ := holds
  have areaNonempty : area.size ≠ 0 := by
    intro isEmpty
    have inside := (unused.head positive).1
    unfold SmaArea.Covers at inside
    rw [isEmpty] at inside
    exact absurd inside.2 (Nat.not_lt.mpr inside.1)
  obtain ⟨free, member, behind, room⟩ :=
    (separated areaNonempty).contains sound positive unused
  have noFirstFit : smaFirstFit area need flags = none := by
    have nothing := Option.map_eq_none_iff.mp refused
    exact nothing
  unfold smaFirstFit at noFirstFit
  rw [if_neg (not_not_intro notFixed)] at noFirstFit
  have small := firstFound_eq_none_iff.mp noFirstFit free member
  rw [decide_eq_false_iff_not, BitVec.le_def] at small
  unfold SmaBlock.ends at room
  omega

/-- A half of the area of sixteen pages. -/
def halfBlock (start : BitVec 32) (flags : BitVec 32) : SmaBlock 32 Unit where
  flags := flags
  start := start
  size := 0x8000
  dataptr := none

/-- The area of sixteen pages in two halves. -/
def halvedArea (usedList freeList : List (SmaBlock 32 Unit)) :
    SmaArea 32 Unit where
  usedList := usedList
  freeList := freeList
  start := 0x1000
  size := 0x10000

/-- The area of which the lower half is used. -/
def lowerUsed : SmaArea 32 Unit :=
  halvedArea [halfBlock 0x1000 smaFlagsUsed] [halfBlock 0x9000 0]

/-- The area of which both halves are free. -/
def bothFree : SmaArea 32 Unit :=
  halvedArea [] [halfBlock 0x1000 0, halfBlock 0x9000 0]

theorem bothFree_run :
    Run SmaMove smallArea [.alloc 0 0x8000 0, .free 0x1000 0x8000] bothFree :=
  .cons (@SmaMove.alloc 32 Unit smallArea lowerUsed
      (halfBlock 0x1000 smaFlagsUsed) 0 0x8000 0 (by decide))
    (.single (@SmaMove.free 32 Unit lowerUsed bothFree
      (halfBlock 0x1000 smaFlagsUsed) (some (halfBlock 0x1000 0))
      (by decide) (by decide)))

/-- The whole area is unused, and a request for it is refused. -/
theorem bothFree_refused :
    ¬ ∀ (past : List (SmaCall 32)) (area : SmaArea 32 Unit) (need : BitVec 32),
      Run SmaMove smallArea past area → smaAlloc area 0 need 0 = none →
        ¬ ∃ first len, 0 < len ∧ need.toNat ≤ len ∧
          FreeRun area.Unused first len := by
  intro onlyIfFull
  refine onlyIfFull _ _ 0x10000 bothFree_run (by decide)
    ⟨0x1000, 0x10000, by decide, by decide, fun address above below => ?_⟩
  exact ⟨⟨above, below⟩, fun used isUsed => by cases isUsed⟩

/-- With the lower half used there is no room for nine pages. -/
theorem smaAlloc_refused_lowerUsed :
    ¬ ∃ first len, 0 < len ∧ (0x9000 : BitVec 32).toNat ≤ len ∧
      FreeRun lowerUsed.Unused first len := by
  have keeps : KeepsApart smallArea (.alloc 0 0x8000 0) :=
    ⟨by decide, fun overruns => overruns.1 rfl⟩
  have step : SmaMove smallArea (.alloc 0 0x8000 0) lowerUsed :=
    @SmaMove.alloc 32 Unit smallArea lowerUsed
      (halfBlock 0x1000 smaFlagsUsed) 0 0x8000 0 (by decide)
  exact @smaAlloc_refused_of_run 32 Unit lowerUsed 0x1000 0x10000 0x9000 0 _
    (by decide) (.single ⟨keeps, step⟩) rfl (by decide)

end Idylla.Mm
