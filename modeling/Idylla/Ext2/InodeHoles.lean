import Idylla.Ext2.InodeSafe
import Mathlib.Algebra.Group.Int.Defs

namespace Idylla.Ext2

open Idylla.Lib

/-!
# Reading an inode with holes

A read call ends at the first hole of its range.  Behind a hole among the
direct blocks it goes on with the single-indirect block, if there is one, at a
negative index.
-/

section Indexed

variable (bpi : Nat) (volume : Ext2Volume)

/-- A word of an array of so many words; nothing outside it. -/
def subscript (table : Block) (words : Nat) (idx : Int) : Option Nat :=
  if 0 ≤ idx ∧ idx < words then some (table idx.toNat) else none

/-- The variables of a loop that reads blocks; `idx` is an `int`. -/
structure IndexedLoop where
  target : Memory Block
  idx : Int
  ptr : Nat
  blocks : Nat

/-- The loops that read blocks through an array of so many words. -/
def readIndexed
    (words : Nat) (bound : Int) (table : Block) (target : Memory Block)
    (idx : Int) (ptr : Nat) : Nat → Option IndexedLoop
  | 0 => some ⟨target, idx, ptr, 0⟩
  | blocks + 1 =>
    if idx < bound then
      match subscript table words idx with
      | none => none
      | some number =>
        if number < 2 then
          some ⟨target, idx, ptr, blocks + 1⟩
        else
          readIndexed words bound table
            (target.set ptr (volume.blocks number)) (idx + 1) (ptr + 1)
            blocks
    else
      some ⟨target, idx, ptr, blocks + 1⟩

/--
The loop over the double-indirect block, of at most so many turns, and the
buffer and the return value of the call; nothing for the endless loop behind
it.
-/
def readTablesIndexed
    (indirectBuf : Block) : Nat → IndexedLoop → Option (Memory Block × Nat)
  | 0, loop =>
    if 0 < loop.blocks then none else some (loop.target, loop.ptr)
  | turns + 1, loop =>
    if loop.idx < bpi * bpi ∧ 0 < loop.blocks then
      match subscript indirectBuf bpi (loop.idx / bpi) with
      | none => none
      | some number =>
        if number < 2 then
          some (loop.target, loop.ptr)
        else
          match
            readIndexed volume bpi bpi (volume.blocks number) loop.target
              (loop.idx % bpi) loop.ptr loop.blocks with
          | none => none
          | some inner =>
            -- A hole in `indirect_buf2` ends the call.
            if inner.idx < bpi ∧ 0 < inner.blocks then
              some (inner.target, inner.ptr)
            else
              readTablesIndexed indirectBuf turns
                { inner with idx := loop.idx + (inner.ptr - loop.ptr) }
    else if 0 < loop.blocks then
      none
    else
      some (loop.target, loop.ptr)

/-- The second level; `indirect_idx` counts from the single-indirect block. -/
def readDoubleIndexed (iBlock : Block)
    (single : IndexedLoop) : Option (Memory Block × Nat) :=
  let indirectIdx := single.idx - bpi
  if 0 ≤ indirectIdx ∧ indirectIdx < bpi * bpi then
    match subscript iBlock 15 13 with
    | none => none
    | some number =>
      if number < 2 then
        some (single.target, single.ptr)
      else
        readTablesIndexed bpi volume (volume.blocks number) bpi
          { single with idx := indirectIdx }
  else
    some (single.target, single.ptr)

/-- The blocks behind the direct ones. -/
def readIndirectIndexed (iBlock : Block)
    (direct : IndexedLoop) : Option (Memory Block × Nat) :=
  let indirectIdx := direct.idx - 12
  if indirectIdx < bpi then
    match subscript iBlock 15 12 with
    | none => none
    | some number =>
      if number < 2 then
        some (direct.target, direct.ptr)
      else
        match
          readIndexed volume bpi bpi (volume.blocks number) direct.target
            indirectIdx direct.ptr direct.blocks with
        | none => none
        | some single => readDoubleIndexed bpi volume iBlock single
  else
    readDoubleIndexed bpi volume iBlock { direct with idx := indirectIdx }

/--
`inode_rw_content` with `EXT2_RW_READ` and its subscripts: the buffer and the
return value; nothing for a subscript outside an array or an endless loop.
-/
def inodeReadIndexed (iBlock : Block) (target : Memory Block)
    (blocks start : Nat) : Option (Memory Block × Nat) :=
  match readIndexed volume 15 12 iBlock target start 0 blocks with
  | none => none
  | some direct =>
    if 0 < direct.blocks then
      readIndirectIndexed bpi volume iBlock direct
    else
      some (direct.target, direct.ptr)

end Indexed

/-- How many logical blocks from one on are mapped, at most so many. -/
def FileMap.mappedCount (file : FileMap) (start : Nat) : Nat → Nat
  | 0 => 0
  | blocks + 1 =>
    if 2 ≤ file.number (.data start) then
      file.mappedCount (start + 1) blocks + 1
    else
      0

/--
A read call keeps to its arrays, returns the number of consecutive mapped
blocks and delivers their contents.
-/
def ReadsMapped (bpi : Nat) (volume : Ext2Volume) (iBlock : Block)
    (blocks start : Nat) : Prop :=
  let file := onDevice bpi volume.blocks iBlock
  let count := file.mappedCount start blocks
  ∀ target,
    inodeReadIndexed bpi volume iBlock target blocks start =
      some (target.copy 0 file.logical start count, count)

namespace FileMap

variable {file : FileMap} {start blocks first : Nat}

theorem mappedCount_succ :
    file.mappedCount start (blocks + 1) =
      if 2 ≤ file.number (.data start) then
        file.mappedCount (start + 1) blocks + 1
      else 0 := rfl

theorem mappedCount_le (file : FileMap) (start blocks : Nat) :
    file.mappedCount start blocks ≤ blocks := by
  induction blocks generalizing start with
  | zero =>
    exact Nat.le_refl 0
  | succ blocks ih =>
    rw [mappedCount_succ]
    have inRest := ih (start + 1)
    split <;> omega

theorem mapped_of_lt_mappedCount {block : Nat} (lower : start ≤ block)
    (upper : block < start + file.mappedCount start blocks) :
    2 ≤ file.number (.data block) := by
  induction blocks generalizing start with
  | zero =>
    exact absurd upper (Nat.not_lt.mpr lower)
  | succ blocks ih =>
    rw [mappedCount_succ] at upper
    split at upper
    next mapped =>
      by_cases isFirst : block = start
      · rw [isFirst]
        exact mapped
      · exact @ih (start + 1) (by omega) (by omega)
    next unmapped => omega

theorem mappedCount_split (within : first ≤ blocks) :
    file.mappedCount start blocks =
      if file.mappedCount start first = first then
        first + file.mappedCount (start + first) (blocks - first)
      else
        file.mappedCount start first := by
  induction first generalizing start blocks with
  | zero =>
    exact (Nat.zero_add _).symm
  | succ first ih =>
    obtain ⟨more, rfl⟩ : ∃ more, blocks = more + 1 := ⟨blocks - 1, by omega⟩
    rw [mappedCount_succ, mappedCount_succ]
    by_cases mapped : 2 ≤ file.number (.data start)
    · have rest := @ih (start + 1) more (by omega)
      rw [if_pos mapped, if_pos mapped, rest]
      have isNext : start + 1 + first = start + (first + 1) := by omega
      have isRest : more + 1 - (first + 1) = more - first := by omega
      rw [isNext, isRest]
      split <;> split <;> omega
    · rw [if_neg mapped, if_neg mapped, if_neg (Nat.succ_ne_zero _).symm]

theorem mappedCount_of_hole (unmapped : file.number (.data start) < 2)
    (blocks : Nat) : file.mappedCount start blocks = 0 := by
  cases blocks with
  | zero =>
    rfl
  | succ blocks =>
    exact if_neg (Nat.not_le.mpr unmapped)

theorem hole_of_mappedCount_lt
    (short : file.mappedCount start blocks < blocks) :
    file.number (.data (start + file.mappedCount start blocks)) < 2 := by
  induction blocks generalizing start with
  | zero =>
    omega
  | succ blocks ih =>
    rw [mappedCount_succ] at short ⊢
    split at short
    next mapped =>
      have isHole := @ih (start + 1) (by omega)
      rw [if_pos mapped]
      rwa [Nat.add_assoc, Nat.add_comm 1] at isHole
    next unmapped =>
      rw [if_neg unmapped]
      exact Nat.not_le.mp unmapped

end FileMap

section Read

variable {bpi base words bound : Nat} {volume : Ext2Volume} {iBlock : Block}
  {target : Memory Block}

theorem subscript_eq {table : Block} {pos : Nat} (inside : pos < words) :
    subscript table words pos = some (table pos) :=
  if_pos ⟨Int.natCast_nonneg pos, Int.ofNat_lt.mpr inside⟩

theorem readIndexed_eq {table : Block} (inWords : bound ≤ words)
    (shows :
      ∀ other < bound,
        table other = numberAt bpi volume.blocks iBlock (.data (base + other)))
    (target : Memory Block) (pos ptr blocks : Nat) :
    let file := onDevice bpi volume.blocks iBlock
    let count := file.mappedCount (base + pos) (min blocks (bound - pos))
    readIndexed volume words bound table target pos ptr blocks =
      some
        ⟨target.copy ptr file.logical (base + pos) count,
          (pos + count : Nat), ptr + count, blocks - count⟩ := by
  intro file
  induction blocks generalizing target pos ptr with
  | zero =>
    simp [readIndexed, FileMap.mappedCount]
  | succ blocks ih =>
    intro count
    by_cases inBound : pos < bound
    · have isEntry : table pos = file.number (.data (base + pos)) :=
        shows pos inBound
      have isMin : min (blocks + 1) (bound - pos) =
            min blocks (bound - (pos + 1)) + 1 := by
        omega
      have inCast : (pos : Int) < bound := Int.ofNat_lt.mpr inBound
      have isSubscript : subscript table words pos = some (table pos) :=
        subscript_eq (Nat.lt_of_lt_of_le inBound inWords)
      rw [readIndexed, if_pos inCast, isSubscript]
      by_cases mapped : 2 ≤ table pos
      · have isCount : count =
              file.mappedCount (base + (pos + 1))
                (min blocks (bound - (pos + 1))) + 1 := by
          show file.mappedCount _ (min (blocks + 1) (bound - pos)) = _
          rw [isMin, FileMap.mappedCount_succ, if_pos (isEntry ▸ mapped)]
          rfl
        have isRest :=
          ih (target.set ptr (volume.blocks (table pos))) (pos + 1) (ptr + 1)
        have isContent :
            volume.blocks (table pos) = file.logical (base + pos) := by
          rw [isEntry]
          rfl
        have isCast : ((pos : Int) + 1) = (pos + 1 : Nat) := rfl
        simp only [isCast] at isRest ⊢
        rw [if_neg (Nat.not_lt.mpr mapped), isRest, isContent, isCount,
          ← Nat.add_assoc base pos 1, Memory.copy_succ]
        congr 2 <;> omega
      · have isCount : count = 0 := by
          show file.mappedCount _ (min (blocks + 1) (bound - pos)) = _
          rw [isMin, FileMap.mappedCount_succ, if_neg (isEntry ▸ mapped)]
        simp only [if_pos (Nat.not_le.mp mapped)]
        rw [isCount, Memory.copy_zero]
        rfl
    · have isCount : count = 0 := by
        show file.mappedCount _ (min (blocks + 1) (bound - pos)) = _
        rw [show bound - pos = 0 by omega, Nat.min_zero]
        rfl
      have outside : ¬ (pos : Int) < bound := by omega
      rw [readIndexed, if_neg outside, isCount, Memory.copy_zero]
      rfl

/--
The rest of a call, from one logical block on: it delivers the mapped blocks
behind what has been read.
-/
def RestRead (file : FileMap) (target : Memory Block) (ptr start blocks : Nat)
    (result : Option (Memory Block × Nat)) : Prop :=
  let count := file.mappedCount start blocks
  result = some (target.copy ptr file.logical start count, ptr + count)

namespace RestRead

variable {file : FileMap} {ptr start blocks first : Nat}

theorem finish (isEnd : 0 < blocks → file.number (.data start) < 2) :
    RestRead file target ptr start blocks (some (target, ptr)) := by
  have none : file.mappedCount start blocks = 0 := by
    cases blocks with
    | zero =>
      rfl
    | succ blocks =>
      exact FileMap.mappedCount_of_hole (isEnd (Nat.succ_pos _)) _
  unfold RestRead
  dsimp only
  rw [none, Memory.copy_zero]
  rfl

theorem level {result : Option (Memory Block × Nat)} (within : first ≤ blocks)
    (rest :
      let count := file.mappedCount start first
      RestRead file (target.copy ptr file.logical start count) (ptr + count)
        (start + count) (blocks - count) result) :
    RestRead file target ptr start blocks result := by
  have whole := @FileMap.mappedCount_split file start _ _ within
  have front := FileMap.mappedCount_le file start first
  unfold RestRead at rest ⊢
  dsimp only at rest ⊢
  by_cases full : file.mappedCount start first = first
  · rw [full] at rest
    rw [rest, whole, if_pos full, Memory.copy_copy_adjacent, Nat.add_assoc]
  · have isHole :=
      FileMap.hole_of_mappedCount_lt (Nat.lt_of_le_of_ne front full)
    rw [FileMap.mappedCount_of_hole isHole] at rest
    rw [rest, whole, if_neg full, Memory.copy_zero, Nat.add_zero]

end RestRead

/-- The loop over the double-indirect block. -/
theorem readTablesIndexed_rest {turns pos ptr blocks : Nat}
    (isDouble : 2 ≤ iBlock 13) (inRange : pos + blocks ≤ bpi * bpi)
    (enough : 0 < blocks → bpi ≤ turns + pos / bpi) :
    RestRead (onDevice bpi volume.blocks iBlock) target ptr (12 + bpi + pos)
      blocks
      (readTablesIndexed bpi volume (volume.blocks (iBlock 13)) turns
        ⟨target, pos, ptr, blocks⟩) := by
  induction turns generalizing target pos ptr blocks with
  | zero =>
    have isDone : blocks = 0 := by
      refine Nat.eq_zero_of_not_pos fun remains => ?_
      have isTable : pos / bpi < bpi := Nat.div_lt_of_lt_mul (by omega)
      omega
    rw [isDone]
    exact .finish fun remains => absurd remains (Nat.lt_irrefl 0)
  | succ turns ih =>
    by_cases remains : 0 < blocks
    · have inTables : pos < bpi * bpi := by omega
      have isTable : pos / bpi < bpi := Nat.div_lt_of_lt_mul inTables
      have someEntries : 0 < bpi := Nat.zero_lt_of_lt isTable
      have isEntry : pos % bpi < bpi := Nat.mod_lt _ someEntries
      have isPos : pos / bpi * bpi + pos % bpi = pos := Nat.div_add_mod' pos bpi
      have isNumber (entry : Nat) (inside : entry < bpi) :
          numberAt bpi volume.blocks iBlock
              (.data (12 + bpi + pos / bpi * bpi + entry)) =
            entryAt volume.blocks (volume.blocks (iBlock 13) (pos / bpi))
              entry := by
        rw [numberAt_table isTable inside, entryAt_of_mapped isDouble]
      have isSubscript : subscript (volume.blocks (iBlock 13)) bpi (pos / bpi) =
            some (volume.blocks (iBlock 13) (pos / bpi)) :=
        subscript_eq isTable
      have inLoop : (pos : Int) < bpi * bpi ∧ 0 < blocks :=
        ⟨by exact_mod_cast inTables, remains⟩
      have isStart :
          12 + bpi + pos / bpi * bpi + pos % bpi = 12 + bpi + pos := by
        omega
      rw [readTablesIndexed, if_pos inLoop]
      simp only [isSubscript]
      by_cases isThere : 2 ≤ volume.blocks (iBlock 13) (pos / bpi)
      · let file := onDevice bpi volume.blocks iBlock
        let first := min blocks (bpi - pos % bpi)
        let count := file.mappedCount (12 + bpi + pos) first
        have isInner : readIndexed volume bpi bpi
                (volume.blocks (volume.blocks (iBlock 13) (pos / bpi)))
                target (pos % bpi : Nat) ptr blocks =
              some
                ⟨target.copy ptr file.logical (12 + bpi + pos) count,
                  (pos % bpi + count : Nat), ptr + count,
                  blocks - count⟩ := by
          have isLevel :=
            readIndexed_eq (Nat.le_refl bpi)
              (fun other inside =>
                ((isNumber other inside).trans
                  (entryAt_of_mapped isThere other)).symm)
              target (pos % bpi) ptr blocks
          dsimp only at isLevel
          rwa [isStart] at isLevel
        have inFirst : count ≤ first :=
          FileMap.mappedCount_le file (12 + bpi + pos) first
        rw [if_neg (Nat.not_lt.mpr isThere)]
        refine .level (Nat.min_le_left _ (bpi - pos % bpi)) ?_
        show RestRead file (target.copy ptr file.logical _ count)
          (ptr + count) (12 + bpi + pos + count) (blocks - count) _
        have isRemainder : (pos : Int) % bpi = (pos % bpi : Nat) := rfl
        rw [isRemainder, isInner]
        dsimp only
        by_cases atHole : pos % bpi + count < bpi ∧ 0 < blocks - count
        · have isHole :=
            FileMap.hole_of_mappedCount_lt (show count < first by omega)
          have stops :
              ((pos % bpi + count : Nat) : Int) < bpi ∧ 0 < blocks - count :=
            ⟨Int.ofNat_lt.mpr atHole.1, atHole.2⟩
          rw [if_pos stops]
          exact .finish fun _ => isHole
        · have goesOn :
              ¬ (((pos % bpi + count : Nat) : Int) < bpi ∧
                0 < blocks - count) :=
            fun both => atHole ⟨Int.ofNat_lt.mp both.1, both.2⟩
          have isNext : (pos : Int) + (((ptr + count : Nat) : Int) - ptr) =
                (pos + count : Nat) := by
            omega
          have nextEnough :
              0 < blocks - count → bpi ≤ turns + (pos + count) / bpi := by
            intro isMore
            have isTableEnd : pos + count = (pos / bpi + 1) * bpi := by
              rw [Nat.succ_mul]
              omega
            rw [isTableEnd, Nat.mul_div_cancel _ someEntries]
            omega
          rw [if_neg goesOn, isNext, Nat.add_assoc (12 + bpi)]
          exact ih (by omega) nextEnough
      · have isHole : (onDevice bpi volume.blocks iBlock).number
              (.data (12 + bpi + pos)) < 2 := by
          have isZero := isNumber _ isEntry
          rw [isStart, entryAt_of_unmapped (Nat.not_le.mp isThere)] at isZero
          exact Nat.lt_of_le_of_lt (Nat.le_of_eq isZero) (by decide)
        rw [if_pos (Nat.not_le.mp isThere)]
        exact .finish fun _ => isHole
    · have notMore : ¬ ((pos : Int) < bpi * bpi ∧ 0 < blocks) :=
        fun both => remains both.2
      rw [readTablesIndexed, if_neg notMore, if_neg remains]
      exact .finish fun more => absurd more remains

theorem readTablesIndexed_done (indirectBuf : Block) (turns : Nat) (idx : Int)
    (ptr : Nat) :
    readTablesIndexed bpi volume indirectBuf turns ⟨target, idx, ptr, 0⟩ =
      some (target, ptr) := by
  cases turns <;> simp [readTablesIndexed]

/-- The second level, behind the single-indirect block or at a hole of it. -/
theorem readDoubleIndexed_rest {pos ptr blocks : Nat}
    (atHole :
      0 < blocks → pos < bpi →
        numberAt bpi volume.blocks iBlock (.data (12 + pos)) < 2)
    (inRange : 0 < blocks → pos + blocks ≤ bpi + bpi * bpi) :
    RestRead (onDevice bpi volume.blocks iBlock) target ptr (12 + pos) blocks
      (readDoubleIndexed bpi volume iBlock ⟨target, pos, ptr, blocks⟩) := by
  unfold readDoubleIndexed
  dsimp only
  by_cases remains : 0 < blocks
  · by_cases isBehind : bpi ≤ pos
    · obtain ⟨behind, rfl⟩ : ∃ behind, pos = bpi + behind :=
        ⟨pos - bpi, by omega⟩
      have inTables : behind < bpi * bpi := by omega
      have isIndex : ((bpi + behind : Nat) : Int) - bpi = behind := by omega
      have inLevel : (0 : Int) ≤ behind ∧ (behind : Int) < bpi * bpi :=
        ⟨Int.natCast_nonneg behind, by exact_mod_cast inTables⟩
      rw [isIndex, if_pos inLevel, ← Nat.add_assoc]
      show RestRead _ _ _ _ _ (if iBlock 13 < 2 then _ else _)
      by_cases isDouble : 2 ≤ iBlock 13
      · rw [if_neg (Nat.not_lt.mpr isDouble)]
        exact readTablesIndexed_rest isDouble (by omega)
          fun _ => Nat.le_add_right bpi _
      · have isTable : behind / bpi < bpi := Nat.div_lt_of_lt_mul inTables
        have isEntry : behind % bpi < bpi :=
          Nat.mod_lt _ (Nat.zero_lt_of_lt isTable)
        have isNumber :=
          @numberAt_table bpi volume.blocks iBlock _ _ isTable isEntry
        have isPlace : 12 + bpi + behind / bpi * bpi + behind % bpi =
              12 + bpi + behind := by
          rw [Nat.add_assoc, Nat.div_add_mod']
        rw [entryAt_of_unmapped (Nat.not_le.mp isDouble),
          entryAt_of_unmapped (by decide), isPlace] at isNumber
        rw [if_pos (Nat.not_le.mp isDouble)]
        exact .finish fun _ =>
          Nat.lt_of_le_of_lt (Nat.le_of_eq isNumber) (by decide)
    · have inSingle : ¬ (0 ≤ (pos : Int) - bpi ∧
          (pos : Int) - bpi < bpi * bpi) := by
        omega
      rw [if_neg inSingle]
      exact .finish fun _ => atHole remains (Nat.not_le.mp isBehind)
  · have isDone : blocks = 0 := Nat.eq_zero_of_not_pos remains
    subst isDone
    have ends :
        RestRead (onDevice bpi volume.blocks iBlock) target ptr (12 + pos) 0
          (some (target, ptr)) :=
      .finish fun more => absurd more remains
    split
    · show RestRead _ _ _ _ _ (if iBlock 13 < 2 then _ else _)
      split
      · exact ends
      · rw [readTablesIndexed_done]
        exact ends
    · exact ends

/-- The first level and the second, behind the direct blocks. -/
theorem readIndirectIndexed_rest {pos ptr blocks : Nat}
    (inRange : 0 < blocks → pos + blocks ≤ bpi + bpi * bpi) :
    RestRead (onDevice bpi volume.blocks iBlock) target ptr (12 + pos) blocks
      (readIndirectIndexed bpi volume iBlock
        ⟨target, (12 + pos : Nat), ptr, blocks⟩) := by
  have isIndex : ((12 + pos : Nat) : Int) - 12 = pos := by omega
  unfold readIndirectIndexed
  rw [isIndex]
  have isSubscript : subscript iBlock 15 12 = some (iBlock 12) := rfl
  by_cases inSingle : pos < bpi
  · have isNumber (entry : Nat) (inside : entry < bpi) :
        numberAt bpi volume.blocks iBlock (.data (12 + entry)) =
          entryAt volume.blocks (iBlock 12) entry :=
      numberAt_single inside
    rw [if_pos (Int.ofNat_lt.mpr inSingle), isSubscript]
    dsimp only
    by_cases hasSingle : 2 ≤ iBlock 12
    · let file := onDevice bpi volume.blocks iBlock
      let first := min blocks (bpi - pos)
      let count := file.mappedCount (12 + pos) first
      have isLevel :
          readIndexed volume bpi bpi (volume.blocks (iBlock 12)) target pos
              ptr blocks =
            some
              ⟨target.copy ptr file.logical (12 + pos) count,
                (pos + count : Nat), ptr + count, blocks - count⟩ :=
        readIndexed_eq (Nat.le_refl bpi)
          (fun other inside =>
            ((isNumber other inside).trans
              (entryAt_of_mapped hasSingle other)).symm)
          target pos ptr blocks
      rw [if_neg (Nat.not_lt.mpr hasSingle), isLevel]
      refine .level (Nat.min_le_left _ (bpi - pos)) ?_
      show RestRead file (target.copy ptr file.logical _ count) (ptr + count)
        (12 + pos + count) (blocks - count) _
      rw [Nat.add_assoc]
      refine readDoubleIndexed_rest (fun isMore inTable => ?_)
        (fun isMore => ?_)
      · rw [← Nat.add_assoc]
        exact FileMap.hole_of_mappedCount_lt (show count < first by omega)
      · omega
    · rw [if_pos (Nat.not_le.mp hasSingle)]
      refine .finish fun _ => ?_
      have isZero := isNumber pos inSingle
      rw [entryAt_of_unmapped (Nat.not_le.mp hasSingle)] at isZero
      exact Nat.lt_of_le_of_lt (Nat.le_of_eq isZero) (by decide)
  · rw [if_neg (fun below => inSingle (Int.ofNat_lt.mp below))]
    exact readDoubleIndexed_rest (fun _ below => absurd below inSingle) inRange

theorem readIndirectIndexed_hole {block ptr blocks : Nat}
    (isDirect : block < 12) (remains : 0 < blocks) :
    readIndirectIndexed bpi volume iBlock ⟨target, block, ptr, blocks⟩ =
      if iBlock 12 < 2 then some (target, ptr) else none := by
  obtain ⟨left, rfl⟩ : ∃ left, blocks = left + 1 := ⟨blocks - 1, by omega⟩
  have inBound : (block : Int) - 12 < bpi := by omega
  have outside :
      subscript (volume.blocks (iBlock 12)) bpi ((block : Int) - 12) = none :=
    if_neg (by omega)
  have isSubscript : subscript iBlock 15 12 = some (iBlock 12) := rfl
  unfold readIndirectIndexed
  rw [if_pos inBound, isSubscript]
  dsimp only
  rw [readIndexed, if_pos inBound, outside]

theorem direct_eq
    (bpi : Nat) (volume : Ext2Volume) (iBlock : Block) (target : Memory Block)
    (start blocks : Nat) :
    let file := onDevice bpi volume.blocks iBlock
    let count := file.mappedCount start (min blocks (12 - start))
    readIndexed volume 15 12 iBlock target start 0 blocks =
      some
        ⟨target.copy 0 file.logical start count, (start + count : Nat),
          count, blocks - count⟩ := by
  have isLevel :=
    @readIndexed_eq bpi 0 15 12 volume iBlock iBlock (by decide)
      (fun other isDirect => by
        rw [Nat.zero_add]
        exact (if_pos isDirect).symm)
      target start 0 blocks
  dsimp only at isLevel ⊢
  rw [Nat.zero_add, Nat.zero_add] at isLevel
  exact isLevel

theorem inodeReadIndexed_negative {start blocks block : Nat}
    (lower : start ≤ block) (upper : block < start + blocks)
    (isDirect : block < 12) (isHole : iBlock block < 2)
    (hasSingle : 2 ≤ iBlock 12) :
    inodeReadIndexed bpi volume iBlock target blocks start = none := by
  let file := onDevice bpi volume.blocks iBlock
  let count := file.mappedCount start (min blocks (12 - start))
  have stops : start + count ≤ block := by
    refine Nat.not_lt.mp fun counted => ?_
    have mapped : 2 ≤ numberAt bpi volume.blocks iBlock (.data block) :=
      FileMap.mapped_of_lt_mappedCount lower counted
    rw [numberAt, if_pos isDirect] at mapped
    omega
  have remains : 0 < blocks - count := by omega
  unfold inodeReadIndexed
  rw [direct_eq bpi]
  show (if 0 < blocks - count then _ else _) = none
  rw [if_pos remains]
  exact
    (readIndirectIndexed_hole (Nat.lt_of_le_of_lt stops isDirect)
      remains).trans (if_neg (Nat.not_lt.mpr hasSingle))

theorem readIndexed_eq_readEntries {table : Block} (inWords : bound ≤ words)
    (pos ptr blocks : Nat) :
    let loop := readEntries volume bound table target pos ptr blocks
    readIndexed volume words bound table target pos ptr blocks =
      some ⟨loop.target, loop.pos, loop.ptr, loop.blocks⟩ := by
  induction blocks generalizing target pos ptr with
  | zero =>
    rfl
  | succ blocks ih =>
    rw [readIndexed, readEntries]
    by_cases inBound : pos < bound
    · have isSubscript : subscript table words pos = some (table pos) :=
        subscript_eq (Nat.lt_of_lt_of_le inBound inWords)
      rw [if_pos (Int.ofNat_lt.mpr inBound), isSubscript]
      by_cases mapped : 2 ≤ table pos
      · rw [if_pos ⟨inBound, mapped⟩]
        dsimp only
        rw [if_neg (Nat.not_lt.mpr mapped)]
        exact ih (pos + 1) (ptr + 1)
      · rw [if_neg fun both => mapped both.2]
        exact if_pos (Nat.not_le.mp mapped)
    · rw [if_neg fun below => inBound (Int.ofNat_lt.mp below),
        if_neg fun both => inBound both.1]

theorem ptr_le_readEntries (table : Block) (target : Memory Block)
    (pos ptr blocks : Nat) :
    ptr ≤ (readEntries volume bound table target pos ptr blocks).ptr := by
  induction blocks generalizing target pos ptr with
  | zero =>
    exact Nat.le_refl ptr
  | succ blocks ih =>
    rw [readEntries]
    split
    · exact Nat.le_trans (Nat.le_succ ptr) (ih _ _ _)
    · exact Nat.le_refl ptr

theorem readTablesIndexed_eq_readTables (indirectBuf : Block) (turns : Nat)
    (loop : ReadLoop) :
    readTablesIndexed bpi volume indirectBuf turns
        ⟨loop.target, loop.pos, loop.ptr, loop.blocks⟩ =
      (readTables bpi volume indirectBuf turns loop).map
        fun last => (last.target, last.ptr) := by
  induction turns generalizing loop with
  | zero =>
    rw [readTablesIndexed, readTables]
    split <;> rfl
  | succ turns ih =>
    rw [readTablesIndexed, readTables]
    by_cases inLoop : loop.pos < bpi * bpi ∧ 0 < loop.blocks
    · have inCast : (loop.pos : Int) < bpi * bpi ∧ 0 < loop.blocks :=
        ⟨by exact_mod_cast inLoop.1, inLoop.2⟩
      have isSubscript : subscript indirectBuf bpi (loop.pos / bpi) =
            some (indirectBuf (loop.pos / bpi)) :=
        subscript_eq (Nat.div_lt_of_lt_mul inLoop.1)
      rw [if_pos inLoop, if_pos inCast, isSubscript]
      dsimp only
      by_cases isHole : indirectBuf (loop.pos / bpi) < 2
      · rw [if_pos isHole, if_pos isHole]
        rfl
      · have isRemainder :
            (loop.pos : Int) % bpi = (loop.pos % bpi : Nat) := rfl
        rw [if_neg isHole, if_neg isHole, isRemainder,
          readIndexed_eq_readEntries (Nat.le_refl bpi)]
        dsimp only
        let inner :=
          readEntries volume bpi
            (volume.blocks (indirectBuf (loop.pos / bpi))) loop.target
            (loop.pos % bpi) loop.ptr loop.blocks
        by_cases atHole : inner.AtHole bpi
        · rw [if_pos atHole, if_pos ⟨Int.ofNat_lt.mpr atHole.1, atHole.2⟩]
          rfl
        · have goesOn : ¬ ((inner.pos : Int) < bpi ∧ 0 < inner.blocks) :=
            fun both => atHole ⟨Int.ofNat_lt.mp both.1, both.2⟩
          have isForward : loop.ptr ≤ inner.ptr := ptr_le_readEntries _ _ _ _ _
          have isNext : (loop.pos : Int) + ((inner.ptr : Int) - loop.ptr) =
                (loop.pos + (inner.ptr - loop.ptr) : Nat) := by
            omega
          rw [if_neg atHole, if_neg goesOn, isNext]
          exact ih { inner with pos := loop.pos + (inner.ptr - loop.ptr) }
    · have notInCast : ¬ ((loop.pos : Int) < bpi * bpi ∧ 0 < loop.blocks) :=
        fun both => inLoop ⟨by exact_mod_cast both.1, both.2⟩
      rw [if_neg inLoop, if_neg notInCast]
      split <;> rfl

theorem readDoubleIndexed_eq_readDouble (loop : ReadLoop) :
    readDoubleIndexed bpi volume iBlock
        ⟨loop.target, loop.pos, loop.ptr, loop.blocks⟩ =
      (readDouble bpi volume iBlock loop).map
        fun last => (last.target, last.ptr) := by
  have isSubscript : subscript iBlock 15 13 = some (iBlock 13) := rfl
  unfold readDoubleIndexed readDouble
  by_cases inLevel : bpi ≤ loop.pos ∧ loop.pos - bpi < bpi * bpi
  · obtain ⟨isBehind, inTables⟩ := inLevel
    have isIndex : (loop.pos : Int) - bpi = (loop.pos - bpi : Nat) := by omega
    have inCast : (0 : Int) ≤ (loop.pos - bpi : Nat) ∧
        ((loop.pos - bpi : Nat) : Int) < bpi * bpi :=
      ⟨Int.natCast_nonneg _, by exact_mod_cast inTables⟩
    have inLevel : bpi ≤ loop.pos ∧ loop.pos - bpi < bpi * bpi :=
      ⟨isBehind, inTables⟩
    rw [isIndex, if_pos inCast, if_pos inLevel, isSubscript]
    dsimp only
    by_cases isHole : iBlock 13 < 2
    · rw [if_pos isHole, if_pos isHole]
      rfl
    · rw [if_neg isHole, if_neg isHole]
      exact readTablesIndexed_eq_readTables _ _
        { loop with pos := loop.pos - bpi }
  · have notInCast : ¬ (0 ≤ (loop.pos : Int) - bpi ∧
        (loop.pos : Int) - bpi < bpi * bpi) := by
      rintro ⟨isBehind, inTables⟩
      have isIndex : (loop.pos : Int) - bpi = (loop.pos - bpi : Nat) := by
        omega
      rw [isIndex] at inTables
      exact inLevel ⟨by omega, by exact_mod_cast inTables⟩
    rw [if_neg inLevel, if_neg notInCast]
    rfl

/-- The call with its subscripts is the call on the blocks of the inode. -/
theorem inodeReadIndexed_eq_inodeReadContent (someEntries : 0 < bpi)
    (start blocks : Nat) :
    inodeReadIndexed bpi volume iBlock target blocks start =
      inodeReadContent bpi volume iBlock target blocks start := by
  unfold inodeReadIndexed inodeReadContent
  let direct := readEntries volume 12 iBlock target start 0 blocks
  have isDirect : readIndexed volume 15 12 iBlock target start 0 blocks =
        some ⟨direct.target, direct.pos, direct.ptr, direct.blocks⟩ :=
    readIndexed_eq_readEntries (by decide) start 0 blocks
  rw [isDirect]
  dsimp only
  by_cases remains : 0 < direct.blocks
  · rw [if_pos remains, if_pos remains]
    by_cases isBehind : 12 ≤ direct.pos
    · have notHole : ¬ direct.AtHole 12 := fun hole => by
        have inDirect := hole.1
        omega
      have isIndex : (direct.pos : Int) - 12 = (direct.pos - 12 : Nat) := by
        omega
      have isSubscript : subscript iBlock 15 12 = some (iBlock 12) := rfl
      unfold readIndirectIndexed
      rw [isIndex]
      by_cases inSingle : direct.pos - 12 < bpi
      · rw [if_pos (Int.ofNat_lt.mpr inSingle), isSubscript]
        dsimp only
        by_cases isHole : iBlock 12 < 2
        · rw [if_pos isHole, if_pos ⟨isHole, inSingle⟩]
          rfl
        · rw [if_neg isHole, if_neg fun both => isHole both.1,
            if_neg notHole, if_pos inSingle,
            readIndexed_eq_readEntries (Nat.le_refl bpi)]
          exact readDoubleIndexed_eq_readDouble _
      · rw [if_neg fun below => inSingle (Int.ofNat_lt.mp below),
          if_neg fun both => inSingle both.2, if_neg notHole,
          if_neg inSingle]
        exact readDoubleIndexed_eq_readDouble
          { direct with pos := direct.pos - 12 }
    · have isDirectHole : direct.AtHole 12 := ⟨Nat.not_le.mp isBehind, remains⟩
      have inSingle : direct.pos - 12 < bpi := by omega
      rw [readIndirectIndexed_hole isDirectHole.1 remains]
      by_cases isHole : iBlock 12 < 2
      · rw [if_pos isHole, if_pos ⟨isHole, inSingle⟩]
        rfl
      · rw [if_neg isHole, if_neg fun both => isHole both.1,
          if_pos isDirectHole]
        rfl
  · rw [if_neg remains, if_neg remains]
    rfl

end Read

/-- The call delivers the mapped blocks where no hole is passed over. -/
theorem readsMapped_of_noHole
    {bpi : Nat} {volume : Ext2Volume} {iBlock : Block} {blocks start : Nat}
    (inRange : start + blocks ≤ 12 + bpi + bpi * bpi)
    (noHole :
      2 ≤ iBlock 12 →
        ∀ block, start ≤ block → block < start + blocks → block < 12 →
          2 ≤ iBlock block) : ReadsMapped bpi volume iBlock blocks start := by
  intro target
  let file := onDevice bpi volume.blocks iBlock
  let first := min blocks (12 - start)
  let count := file.mappedCount start first
  have whole : RestRead file target 0 start blocks
        (inodeReadIndexed bpi volume iBlock target blocks start) := by
    refine .level (Nat.min_le_left _ (12 - start)) ?_
    show RestRead file (target.copy 0 file.logical _ count) (0 + count)
      (start + count) (blocks - count) _
    unfold inodeReadIndexed
    rw [direct_eq bpi, Nat.zero_add]
    show RestRead _ _ _ _ _ (if 0 < blocks - count then _ else _)
    by_cases remains : 0 < blocks - count
    · rw [if_pos remains]
      by_cases isBehind : 12 ≤ start + count
      · obtain ⟨pos, isPos⟩ : ∃ pos, start + count = 12 + pos :=
          ⟨start + count - 12, by omega⟩
        rw [isPos]
        exact readIndirectIndexed_rest (by omega)
      · have isHole : file.number (.data (start + count)) < 2 :=
          FileMap.hole_of_mappedCount_lt (show count < first by omega)
        have isDirect : file.number (.data (start + count)) =
            iBlock (start + count) :=
          if_pos (Nat.not_le.mp isBehind)
        have noSingle : iBlock 12 < 2 := by
          refine Nat.not_le.mp fun hasSingle => ?_
          have mapped := noHole hasSingle (start + count) (by omega)
            (by omega) (Nat.not_le.mp isBehind)
          omega
        rw [readIndirectIndexed_hole (Nat.not_le.mp isBehind) remains,
          if_pos noSingle]
        exact .finish fun _ => isHole
    · rw [if_neg remains]
      exact .finish fun isMore => absurd isMore remains
  simpa only [RestRead, Nat.zero_add] using whole

/--
A read call below the triple-indirect range keeps to its arrays and delivers
the mapped blocks from its start on exactly if no direct block of its range is
a hole while there is a single-indirect block.
-/
theorem inodeRead_readsMapped_iff
    {bpi : Nat} {volume : Ext2Volume} {iBlock : Block} {blocks start : Nat}
    (inRange : start + blocks ≤ 12 + bpi + bpi * bpi) :
    ReadsMapped bpi volume iBlock blocks start ↔
      (2 ≤ iBlock 12 →
        ∀ block, start ≤ block → block < start + blocks → block < 12 →
          2 ≤ iBlock block) := by
  constructor
  · intro reads hasSingle block lower upper isDirect
    refine Nat.not_lt.mp fun isHole => ?_
    have isRead := reads fun _ => zeroBlock
    rw [inodeReadIndexed_negative lower upper isDirect isHole hasSingle]
      at isRead
    cases isRead
  · exact readsMapped_of_noHole inRange

/-- A sparse inode: the first block is a hole, the thirteenth is there. -/
def sparseInode : Block :=
  fun index => if index = 12 then 2 else 0

/-- Reading behind the direct blocks of a sparse inode. -/
theorem sparseInode_readsMapped :
    ReadsMapped 256 zeroVolume sparseInode 1 12 :=
  (inodeRead_readsMapped_iff (by decide)).mpr
    fun _ _ lower _ isDirect => absurd isDirect (Nat.not_lt.mpr lower)

/-- Reading the first block of a sparse inode. -/
theorem firstHole_not_readsMapped :
    ¬ ReadsMapped 256 zeroVolume sparseInode 1 0 := by
  intro reads
  have isRead := reads fun _ => zeroBlock
  cases isRead

end Idylla.Ext2
