import Idylla.Mm.SmaPartition

namespace Idylla.Mm

open Idylla.Lib

/-!
# Allocation at a fixed address

With `SMA_ALLOC_FIXED` only the free block around the address is looked at.  It
is left whole, cut at one end, or cut at both, and in each case the pieces that
stay free are what the new block leaves of it.
-/

variable {w : Nat} {Data : Type} {area : SmaArea w Data}

variable {addr size : BitVec w}

namespace Partition

theorem ends_lt {block : SmaBlock w Data} (partition : Partition area)
    (below : area.start.toNat + area.size.toNat < 2 ^ w)
    (member : block ∈ area.usedList ++ area.freeList) : block.ends < 2 ^ w := by
  by_cases isEmpty : block.size = 0
  · have bound := block.start.isLt
    simp [SmaBlock.ends, isEmpty, bound]
  · have inside := partition.within member isEmpty
    omega

theorem firstFound_hits {block : SmaBlock w Data} {addr : BitVec w}
    (partition : Partition area)
    (below : area.start.toNat + area.size.toNat < 2 ^ w)
    (member : block ∈ area.freeList) (inside : block.Covers addr.toNat) :
    ∃ found,
      firstFound (fun block => block.hits addr) area.freeList = some found ∧
        found.item = block := by
  have hit : block.hits addr = true :=
    (SmaBlock.hits_iff_covers (Nat.le_of_lt (partition.ends_lt below
      (List.mem_append_right _ member)))).mpr
      ⟨inside, partition.ends_lt below (List.mem_append_right _ member)⟩
  cases isFirst : firstFound (fun block => block.hits addr) area.freeList with
  | none =>
    have missed := firstFound_eq_none_iff.mp isFirst block member
    rw [hit] at missed
    cases missed
  | some found =>
    refine ⟨found, rfl, ?_⟩
    have itemMember :=
      List.mem_append_right area.usedList (firstFound_mem isFirst)
    have itemHit := (firstFound_some isFirst).2.1
    rw [SmaBlock.hits_iff_covers
      (Nat.le_of_lt (partition.ends_lt below itemMember))] at itemHit
    exact partition.covers_unique itemMember
      (List.mem_append_right _ member) itemHit.1 inside

end Partition

variable {flags : BitVec 32}

end Idylla.Mm
