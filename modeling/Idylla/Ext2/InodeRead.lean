import Idylla.Ext2.InodeWrite

namespace Idylla.Ext2

open Idylla.Lib

/-!
# Reading through index blocks

Where every block of the range is there, a read call returns all of them, from
the direct blocks up to the end of the double-indirect block.
-/

section Read

variable {bpi bound base : Nat} {volume : Ext2Volume} {file : FileMap}

/-- The contents of the logical blocks. -/
def FileMap.logical (file : FileMap) : Memory Block :=
  fun block => file.content (.data block)

theorem Synced.entry (synced : Synced bpi file) {pos : Nat}
    (inTables : pos < bpi * bpi)
    (mapped : 2 ≤ file.number (.data (12 + bpi + pos))) :
    2 ≤ file.number (.table (pos / bpi)) ∧
      file.content (.table (pos / bpi)) (pos % bpi) =
        file.number (.data (12 + bpi + pos)) := by
  have someEntries : 0 < bpi := by
    refine Nat.pos_of_ne_zero ?_
    rintro rfl
    exact Nat.not_lt_zero _ inTables
  have isTable : pos / bpi < bpi := Nat.div_lt_of_lt_mul inTables
  have isEntry : pos % bpi < bpi := Nat.mod_lt pos someEntries
  have isBlock : 12 + bpi + pos / bpi * bpi + pos % bpi = 12 + bpi + pos := by
    rw [Nat.add_assoc, Nat.mul_comm, Nat.div_add_mod]
  obtain ⟨whenMapped, whenUnmapped⟩ := synced.tables (pos / bpi) isTable
  rw [← isBlock] at mapped ⊢
  by_cases isThere : 2 ≤ file.number (.table (pos / bpi))
  · exact ⟨isThere, whenMapped isThere _ isEntry⟩
  · have none := whenUnmapped (by omega) _ isEntry
    omega

variable {loop : ReadLoop}

end Read

end Idylla.Ext2
