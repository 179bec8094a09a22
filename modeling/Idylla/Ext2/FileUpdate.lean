import Idylla.Ext2.File

namespace Idylla.Ext2

open Idylla.Lib

/-!
# Writing a file updates an array of bytes

The three parts of a transfer are treated alike: each one moves the next bytes
of the range and leaves `start` at the block behind them.  That last point is
what `ext2_write` gets wrong between its whole blocks and its tail.
-/

/-- The head ends at a block boundary or at the end of the range. -/
def headBytes (blockSize offset len : Nat) : Nat :=
  if offset % blockSize = 0 then 0
  else min (blockSize - offset % blockSize) len

theorem block_lt {start limit : Nat} (blockSize position : Nat)
    (starts : start * blockSize ≤ position)
    (inside : position < limit * blockSize) : start < limit :=
  Nat.lt_of_mul_lt_mul_right (Nat.lt_of_le_of_lt starts inside)

theorem roundDown_eq (number unit : Nat) :
    roundDown number unit = number / unit * unit := by
  have parts := Nat.div_add_mod' number unit
  unfold roundDown
  omega

theorem uint32_of_lt {number : Nat} (small : number < 2 ^ 32) :
    uint32 number = number :=
  Nat.mod_eq_of_lt small

theorem int32_eq_iff (number : Nat) :
    int32 number = number ↔ number < 2 ^ 31 := by
  unfold int32
  rw [BitVec.toInt_eq_toNat_cond, BitVec.toNat_ofNat]
  split <;> omega

/--
What a transfer keeps between its parts: `done` and `left` add up to the whole
range, and `start` is the block of the next byte.
-/
structure OnTrack
    (blockSize offset len done left start : Nat) : Prop where
  total : done + left = len
  atBlock : 0 < left → start * blockSize = offset + done

/-- Where a range that can be transferred lies. -/
structure Addressable (blockSize offset len : Nat) : Prop where
  positive : 0 < blockSize
  inBlocks : offset + len ≤ 2 ^ 32 * blockSize
  short : len < 2 ^ 31

section Tracks

variable {blockSize offset len done left start : Nat}

theorem Addressable.uint32
    (addressable : Addressable blockSize offset len) (done : Nat)
    (starts : start * blockSize ≤ offset + done) (pending : done < len) :
    uint32 start = start := by
  have inBlocks := addressable.inBlocks
  apply uint32_of_lt
  exact block_lt _ _ starts (by omega)

theorem OnTrack.noHead (addressable : Addressable blockSize offset len)
    (aligned : offset % blockSize = 0) :
    OnTrack blockSize offset len 0 len (Ext2.uint32 (offset / blockSize)) := by
  have parts := Nat.div_add_mod' offset blockSize
  refine ⟨by omega, fun pending => ?_⟩
  rw [addressable.uint32 0 (by omega) pending]
  omega

theorem OnTrack.afterHead (addressable : Addressable blockSize offset len)
    (pending : 0 < len) :
    Ext2.uint32 (offset / blockSize) = offset / blockSize ∧
      OnTrack blockSize offset len (min (blockSize - offset % blockSize) len)
        (len - min (blockSize - offset % blockSize) len)
        (Ext2.uint32 (offset / blockSize + 1)) := by
  have parts := Nat.div_add_mod' offset blockSize
  have remainder := Nat.mod_lt offset addressable.positive
  have next : (offset / blockSize + 1) * blockSize =
        offset / blockSize * blockSize + blockSize :=
    Nat.succ_mul _ _
  refine ⟨addressable.uint32 0 (by omega) pending, by omega, fun pending => ?_⟩
  rw [addressable.uint32 (min (blockSize - offset % blockSize) len)
    (by omega) (by omega)]
  omega

theorem OnTrack.run (onTrack : OnTrack blockSize offset len done left start)
    (addressable : Addressable blockSize offset len)
    (whole : blockSize ≤ left) :
    Ext2.uint32 (left / blockSize) = left / blockSize ∧
      (start + left / blockSize) * blockSize =
        offset + done + left / blockSize * blockSize ∧
      OnTrack blockSize offset len (done + left / blockSize * blockSize)
        (left - left / blockSize * blockSize)
        (Ext2.uint32 (start + left / blockSize)) := by
  have positive := addressable.positive
  have short := addressable.short
  have total := onTrack.total
  have starts := onTrack.atBlock (by omega)
  have parts := Nat.div_add_mod' left blockSize
  have few : left / blockSize ≤ left := Nat.div_le_self _ _
  have stop := Nat.add_mul start (left / blockSize) blockSize
  refine ⟨uint32_of_lt (by omega), by omega, by omega, fun pending => ?_⟩
  rw [addressable.uint32 (done + left / blockSize * blockSize)
    (by omega) (by omega)]
  omega

end Tracks

section Reading

variable {blockSize offset len : Nat} {content : Content}
  {tmpbuf buf : Memory UInt8} {cursor : Cursor}

/-- The first `done` bytes of a range have been delivered. -/
def Delivered (content : Content) (offset : Nat)
    (buf : Memory UInt8) (done : Nat) : Prop :=
  ∀ index < done, buf index = content.bytes (offset + index)

theorem contentRead_one {start : Nat} (mapped : start < content.mapped) :
    contentRead blockSize content tmpbuf 0 1 start =
      (tmpbuf.copy 0 content.bytes (start * blockSize) blockSize, 1) := by
  have one : min 1 (content.mapped - start) = 1 := by
    omega
  simp [contentRead, one]

theorem Delivered.fromBlock {done : Nat}
    (delivered : Delivered content offset buf done)
    (tmpbuf : Memory UInt8) (blockSize start target bytes : Nat)
    (mapped : start < content.mapped) (inBlock : target + bytes ≤ blockSize)
    (position : start * blockSize + target = offset + done) :
    Delivered content offset
      (buf.copy done
        (contentRead blockSize content tmpbuf 0 1 start).1 target bytes)
      (done + bytes) := by
  intro index bound
  rw [contentRead_one mapped]
  by_cases old : index < done
  · rw [Memory.copy_outside (.inl old)]
    exact delivered index old
  · rw [Memory.copy_inside (by omega) (by omega)]
    dsimp only
    rw [Memory.copy_inside (by omega) (by omega)]
    congr 1
    omega

theorem readHead_onTrack
    (buf tmpbuf : Memory UInt8) (addressable : Addressable blockSize offset len)
    (mapped : offset + len ≤ content.mapped * blockSize) (pending : 0 < len) :
    let result :=
      readHead blockSize content offset buf (.first blockSize len offset tmpbuf)
    OnTrack blockSize offset len result.2.done result.2.left result.2.start ∧
      Delivered content offset result.1 result.2.done := by
  unfold readHead
  by_cases aligned : offset % blockSize = 0
  · simp only [aligned, ne_eq, not_true_eq_false, ↓reduceIte, Cursor.first]
    exact ⟨.noHead addressable aligned, fun _ bound => by omega⟩
  · have parts := Nat.div_add_mod' offset blockSize
    have remainder := Nat.mod_lt offset addressable.positive
    obtain ⟨inFile, onTrack⟩ := OnTrack.afterHead addressable pending
    simp only [aligned, ne_eq, not_false_eq_true, ↓reduceIte,
      Cursor.first, inFile, Nat.zero_add]
    refine ⟨onTrack, ?_⟩
    have nothing : Delivered content offset buf 0 := fun _ bound => by omega
    have delivered :=
      nothing.fromBlock tmpbuf blockSize (offset / blockSize)
        (offset % blockSize)
        (min (blockSize - offset % blockSize) len)
        (block_lt blockSize offset (by omega) (by omega))
        (by omega) (by omega)
    rwa [Nat.zero_add] at delivered

theorem readRun_onTrack (addressable : Addressable blockSize offset len)
    (mapped : offset + len ≤ content.mapped * blockSize)
    (onTrack :
      OnTrack blockSize offset len cursor.done cursor.left cursor.start)
    (delivered : Delivered content offset buf cursor.done) :
    let result := readRun blockSize content buf cursor
    OnTrack blockSize offset len result.2.done result.2.left result.2.start ∧
      Delivered content offset result.1 result.2.done ∧
      result.2.left < blockSize := by
  unfold readRun
  by_cases whole : blockSize ≤ cursor.left
  · have positive := addressable.positive
    have total := onTrack.total
    have starts := onTrack.atBlock (by omega)
    have parts := Nat.div_add_mod' cursor.left blockSize
    have remainder := Nat.mod_lt cursor.left positive
    obtain ⟨few, stop, after⟩ := onTrack.run addressable whole
    have inFile : cursor.start + cursor.left / blockSize ≤ content.mapped :=
      Nat.le_of_mul_le_mul_right (c := blockSize) (by omega) positive
    have count : min (cursor.left / blockSize) (content.mapped - cursor.start) =
          cursor.left / blockSize := by
      omega
    simp only [whole, ↓reduceIte, roundDown_eq, few,
      Nat.mul_div_cancel _ positive, contentRead, count]
    refine ⟨after, ?_, by omega⟩
    intro index bound
    by_cases old : index < cursor.done
    · rw [Memory.copy_outside (.inl old)]
      exact delivered index old
    · rw [Memory.copy_inside (by omega) (by omega)]
      congr 1
      omega
  · simp only [whole, ↓reduceIte]
    exact ⟨onTrack, delivered, by omega⟩

theorem readTail_delivers (mapped : offset + len ≤ content.mapped * blockSize)
    (onTrack :
      OnTrack blockSize offset len cursor.done cursor.left cursor.start)
    (delivered : Delivered content offset buf cursor.done)
    (rest : cursor.left < blockSize) :
    let result := readTail blockSize content buf cursor
    result.2.left = 0 ∧ Delivered content offset result.1 len := by
  have total := onTrack.total
  unfold readTail
  by_cases pending : 0 < cursor.left
  · simp only [pending, ↓reduceIte, true_and]
    have starts := onTrack.atBlock pending
    have all :=
      delivered.fromBlock cursor.tmpbuf blockSize cursor.start 0 cursor.left
        (block_lt blockSize (offset + cursor.done) (by omega) (by omega))
        (by omega) (by omega)
    rwa [total] at all
  · simp only [pending, ↓reduceIte]
    have all : cursor.done = len := by
      omega
    exact ⟨by omega, by rwa [← all]⟩

theorem ext2Read_delivers
    (vnode : Ext2Vnode) (tmpbuf target : Memory UInt8) (offset len : Nat)
    (addressable : Addressable vnode.blockSize offset len)
    (mapped : offset + len ≤ vnode.content.mapped * vnode.blockSize)
    (inFile : offset + len ≤ vnode.size) (pending : 0 < len) :
    let result := ext2Read vnode tmpbuf target len offset
    result.2 = len ∧ Delivered vnode.content offset result.1 len := by
  have length : readLength vnode len offset = some len := by
    unfold readLength
    by_cases atEnd : vnode.size ≤ offset + len
    · rw [if_pos atEnd, if_neg (by omega), Option.some.injEq]
      omega
    · rw [if_neg atEnd]
  simp only [ext2Read, length]
  obtain ⟨headOnTrack, headDelivered⟩ :=
    readHead_onTrack target tmpbuf addressable mapped pending
  obtain ⟨runOnTrack, runDelivered, rest⟩ :=
    readRun_onTrack addressable mapped headOnTrack headDelivered
  obtain ⟨finished, delivered⟩ :=
    readTail_delivers mapped runOnTrack runDelivered rest
  refine ⟨?_, delivered⟩
  rw [finished, Nat.sub_zero]
  exact (int32_eq_iff len).mpr addressable.short

end Reading

/--
The first `done` bytes of a range have been written: they are in the content,
and all other bytes of the old blocks are still there.
-/
structure Stored
    (blockSize : Nat) (before : Content) (buf : Memory UInt8)
    (offset : Nat) (content : Content) (done : Nat) : Prop where
  keeps : before.mapped ≤ content.mapped
  reaches : 0 < done → offset + done ≤ content.mapped * blockSize
  written : ∀ position, offset ≤ position → position < offset + done →
      content.bytes position = buf (position - offset)
  kept : ∀ position, position < before.mapped * blockSize →
      position < offset ∨ offset + done ≤ position →
      content.bytes position = before.bytes position

section Writing

variable {blockSize offset len : Nat} {content before : Content}
  {buf source : Memory UInt8} {cursor : Cursor}
  {sourceAt blocks start position : Nat}

theorem contentWrite_inside (lower : start * blockSize ≤ position)
    (upper : position < start * blockSize + blocks * blockSize) :
    (contentWrite blockSize content source sourceAt blocks start).bytes
        position =
      source (sourceAt + (position - start * blockSize)) :=
  Memory.copy_inside lower upper

theorem contentWrite_outside (existing : position < content.mapped * blockSize)
    (outside :
      position < start * blockSize ∨
        start * blockSize + blocks * blockSize ≤ position) :
    (contentWrite blockSize content source sourceAt blocks start).bytes
        position =
      content.bytes position := by
  simp only [contentWrite, Memory.fill]
  rw [Memory.copy_outside outside, Memory.copy_outside (.inl existing)]

theorem patchBlock_old {target bytes index : Nat}
    (existing : cursor.start < content.mapped) (inBlock : index < blockSize)
    (outside : index < target ∨ target + bytes ≤ index) :
    (patchBlock blockSize content buf cursor target bytes).2 index =
      content.bytes (cursor.start * blockSize + index) := by
  simp only [patchBlock, contentRead_one existing, Nat.one_ne_zero, ↓reduceIte]
  rw [Memory.copy_outside outside,
    Memory.copy_inside (Nat.zero_le _) (by omega)]
  rfl

theorem Stored.patch {done : Nat}
    (stored : Stored blockSize before buf offset content done)
    (cursor : Cursor) (target bytes : Nat) (doneSoFar : cursor.done = done)
    (inBlock : target + bytes ≤ blockSize)
    (position : cursor.start * blockSize + target = offset + done) :
    Stored blockSize before buf offset
      (patchBlock blockSize content buf cursor target bytes).1
      (done + bytes) := by
  have asWrite : (patchBlock blockSize content buf cursor target bytes).1 =
        contentWrite blockSize content
          (patchBlock blockSize content buf cursor target bytes).2 0 1
          cursor.start :=
    rfl
  have grows := Nat.mul_le_mul_right blockSize stored.keeps
  -- an old byte is either outside the block or put back unchanged
  have oldByte : ∀ place, place < content.mapped * blockSize →
        place < offset + cursor.done ∨ offset + cursor.done + bytes ≤ place →
        (patchBlock blockSize content buf cursor target bytes).1.bytes place =
          content.bytes place := by
    intro place existing outside
    rw [asWrite]
    by_cases inside : cursor.start * blockSize ≤ place ∧
          place < cursor.start * blockSize + 1 * blockSize
    · rw [contentWrite_inside inside.1 inside.2,
        patchBlock_old (block_lt _ _ inside.1 existing) (by omega) (by omega)]
      congr 1
      omega
    · exact contentWrite_outside existing (by omega)
  refine ⟨?_, ?_, ?_, ?_⟩
  · have keeps := stored.keeps
    rw [asWrite]
    simp only [contentWrite]
    omega
  · rw [asWrite]
    have enough : (cursor.start + 1) * blockSize ≤
          max content.mapped (cursor.start + 1) * blockSize :=
      Nat.mul_le_mul_right blockSize (Nat.le_max_right _ _)
    have next :
        (cursor.start + 1) * blockSize = cursor.start * blockSize + blockSize :=
      Nat.succ_mul _ _
    simp only [contentWrite]
    omega
  · intro place lower upper
    by_cases new : offset + cursor.done ≤ place
    · rw [asWrite, contentWrite_inside (by omega) (by omega)]
      simp only [patchBlock]
      rw [Memory.copy_inside (by omega) (by omega)]
      congr 1
      omega
    · have reaches := stored.reaches (by omega)
      rw [oldByte place (by omega) (by omega)]
      exact stored.written place lower (by omega)
  · intro place existing outside
    rw [oldByte place (by omega) (by omega)]
    exact stored.kept place existing (by omega)

theorem Stored.run {blocks done start : Nat}
    (stored : Stored blockSize before buf offset content done)
    (position : start * blockSize = offset + done) :
    Stored blockSize before buf offset
      (contentWrite blockSize content buf done blocks start)
      (done + blocks * blockSize) := by
  have grows := Nat.mul_le_mul_right blockSize stored.keeps
  refine ⟨?_, ?_, ?_, ?_⟩
  · have keeps := stored.keeps
    simp only [contentWrite]
    omega
  · have enough : (start + blocks) * blockSize ≤
          max content.mapped (start + blocks) * blockSize :=
      Nat.mul_le_mul_right blockSize (Nat.le_max_right _ _)
    have stop := Nat.add_mul start blocks blockSize
    simp only [contentWrite]
    omega
  · intro place lower upper
    by_cases new : offset + done ≤ place
    · rw [contentWrite_inside (by omega) (by omega)]
      congr 1
      omega
    · have reaches := stored.reaches (by omega)
      rw [contentWrite_outside (by omega) (by omega)]
      exact stored.written place lower (by omega)
  · intro place existing outside
    rw [contentWrite_outside (by omega) (by omega)]
    exact stored.kept place existing (by omega)

theorem Stored.nothing :
    Stored blockSize before buf offset before 0 :=
  ⟨Nat.le_refl _, by omega, by omega, fun _ _ _ => rfl⟩

theorem writeHead_onTrack (before : Content) (buf tmpbuf : Memory UInt8)
    (addressable : Addressable blockSize offset len) (pending : 0 < len) :
    let result :=
      writeHead blockSize buf offset before (.first blockSize len offset tmpbuf)
    OnTrack blockSize offset len result.2.done result.2.left result.2.start ∧
      result.2.done = headBytes blockSize offset len ∧
      Stored blockSize before buf offset result.1 result.2.done := by
  unfold writeHead headBytes
  by_cases aligned : offset % blockSize = 0
  · simp only [aligned, ne_eq, not_true_eq_false, ↓reduceIte, Cursor.first]
    exact ⟨.noHead addressable aligned, trivial, .nothing⟩
  · have parts := Nat.div_add_mod' offset blockSize
    have remainder := Nat.mod_lt offset addressable.positive
    obtain ⟨inFile, onTrack⟩ := OnTrack.afterHead addressable pending
    simp only [aligned, ne_eq, not_false_eq_true, ↓reduceIte,
      Cursor.first, inFile, Nat.zero_add]
    refine ⟨onTrack, trivial, ?_⟩
    have stored : Stored blockSize before buf offset before 0 := .nothing
    have patched :=
      stored.patch ⟨len, 0, offset / blockSize, tmpbuf⟩ (offset % blockSize)
        (min (blockSize - offset % blockSize) len)
        rfl (by omega) (by omega)
    rwa [Nat.zero_add] at patched

theorem mod_of_block {rest stop : Nat} (start : Nat)
    (position : start * blockSize + rest = stop) (short : rest < blockSize) :
    stop % blockSize = rest := by
  rw [← position, Nat.add_comm, Nat.add_mul_mod_self_right]
  exact Nat.mod_eq_of_lt short

theorem writeRun_stored (addressable : Addressable blockSize offset len)
    (onTrack :
      OnTrack blockSize offset len cursor.done cursor.left cursor.start)
    (stored : Stored blockSize before buf offset content cursor.done)
    (whole : blockSize ≤ cursor.left) :
    let result := writeRun blockSize buf content cursor
    result.2.done + result.2.left = len ∧
      result.2.left = (offset + len) % blockSize ∧
      result.2.start = cursor.start ∧
      Stored blockSize before buf offset result.1 result.2.done := by
  have positive := addressable.positive
  have total := onTrack.total
  have starts := onTrack.atBlock (by omega)
  have parts := Nat.div_add_mod' cursor.left blockSize
  have remainder := Nat.mod_lt cursor.left positive
  obtain ⟨few, stop, _⟩ := onTrack.run addressable whole
  have rest :
      (cursor.left - cursor.left / blockSize * blockSize) / blockSize = 0 :=
    Nat.div_eq_of_lt (by omega)
  unfold writeRun
  simp only [whole, ↓reduceIte, roundDown_eq, few, rest, Nat.add_zero]
  refine ⟨by omega, ?_, ?_, stored.run starts⟩
  · symm
    exact
      mod_of_block (cursor.start + cursor.left / blockSize)
        (by omega) (by omega)
  · exact addressable.uint32 cursor.done (Nat.le_of_eq starts) (by omega)

/-- The range has whole blocks and a tail behind them. -/
def TailAfterRun (blockSize offset len : Nat) : Prop :=
  blockSize ≤ len - headBytes blockSize offset len ∧
    (offset + len) % blockSize ≠ 0

/-- Without a tail behind whole blocks, the whole range is stored. -/
theorem writeContent_stored (before : Content) (buf tmpbuf : Memory UInt8)
    (addressable : Addressable blockSize offset len) (pending : 0 < len)
    (noLostTail : ¬ TailAfterRun blockSize offset len) :
    let result :=
      writeContent blockSize buf len offset tmpbuf before
    result.2.left = 0 ∧ Stored blockSize before buf offset result.1 len := by
  obtain ⟨onTrack, headDone, stored⟩ :=
    writeHead_onTrack before buf tmpbuf addressable pending
  unfold writeContent
  generalize writeHead blockSize buf offset before
    (.first blockSize len offset tmpbuf) = head at *
  have total := onTrack.total
  by_cases whole : blockSize ≤ head.2.left
  · obtain ⟨runTotal, runLeft, _, runStored⟩ :=
      writeRun_stored addressable onTrack stored whole
    have noTail : (offset + len) % blockSize = 0 := by
      apply Classical.byContradiction
      intro someTail
      exact noLostTail ⟨by omega, someTail⟩
    have notPending :
        ¬ (0 < (writeRun blockSize buf head.1 head.2).2.left ∧
          (offset + len) % blockSize ≠ 0) := by
      omega
    simp only [writeTail, notPending, ↓reduceIte]
    refine ⟨by omega, ?_⟩
    have all : (writeRun blockSize buf head.1 head.2).2.done = len := by
      omega
    rwa [all] at runStored
  · simp only [writeRun, whole, ↓reduceIte, writeTail]
    by_cases rest : 0 < head.2.left
    · have starts := onTrack.atBlock rest
      have remainder : (offset + len) % blockSize = head.2.left :=
        mod_of_block head.2.start (by omega) (by omega)
      have someTail : 0 < head.2.left ∧ (offset + len) % blockSize ≠ 0 := by
        omega
      simp only [someTail, and_self, ne_eq, not_false_eq_true,
        ↓reduceIte, true_and]
      have patched :=
        stored.patch head.2 0 head.2.left rfl (by omega) (by omega)
      rwa [total] at patched
    · have all : head.2.done = len := by
        omega
      simp only [rest, false_and, ↓reduceIte]
      refine ⟨by omega, ?_⟩
      rwa [all] at stored

end Writing

/-- A file all of whose bytes are in existing, addressable blocks. -/
structure WellFormed (vnode : Ext2Vnode) : Prop where
  covered : vnode.size ≤ vnode.content.mapped * vnode.blockSize
  addressable : vnode.content.mapped ≤ 2 ^ 32

/--
`ext2_write` of a range followed by `ext2_read` is an update of the array of
bytes.  A single `ext2_read` returns its length in an `int`.
-/
def UpdatesBytes (blockSize offset len : Nat) : Prop :=
  ∀ (vnode : Ext2Vnode) (tmpbuf buf : Memory UInt8),
    vnode.blockSize = blockSize →
    WellFormed vnode →
    (ext2Write vnode tmpbuf buf len offset).2 = len →
    (ext2Write vnode tmpbuf buf len offset).1.size =
        max vnode.size (offset + len) ∧
      ∀ (freshbuf target : Memory UInt8) (readLen readOffset : Nat),
        readOffset + readLen ≤ max vnode.size (offset + len) →
        readLen < 2 ^ 31 →
        let read :=
          ext2Read (ext2Write vnode tmpbuf buf len offset).1 freshbuf
            target readLen readOffset
        read.2 = readLen ∧
          ∀ index < readLen,
            (offset ≤ readOffset + index → readOffset + index < offset + len →
                read.1 index = buf (readOffset + index - offset)) ∧
              (readOffset + index < vnode.size →
                readOffset + index < offset ∨
                  offset + len ≤ readOffset + index →
                read.1 index = vnode.content.bytes (readOffset + index))

section Update

variable {blockSize offset len : Nat}

/-- The three parts of `ext2_write` leave nothing behind. -/
theorem writeContent_left {content : Content} {tmpbuf buf : Memory UInt8}
    (positive : 0 < blockSize) :
    (writeContent blockSize buf len offset tmpbuf content).2.left = 0 := by
  have parts := Nat.div_add_mod' offset blockSize
  have remainder := Nat.mod_lt offset positive
  have next : (offset / blockSize + 1) * blockSize =
        offset / blockSize * blockSize + blockSize :=
    Nat.succ_mul _ _
  have headLeft :
      (writeHead blockSize buf offset content
          (.first blockSize len offset tmpbuf)).2.left =
        len - headBytes blockSize offset len := by
    unfold writeHead headBytes
    by_cases aligned : offset % blockSize = 0
    · simp [aligned, Cursor.first]
    · simp [aligned, Cursor.first]
  -- the rest behind the head starts at a block
  have atBlock : 0 < len - headBytes blockSize offset len →
        ∃ start,
          start * blockSize = offset + headBytes blockSize offset len := by
    unfold headBytes
    intro pending
    by_cases aligned : offset % blockSize = 0
    · rw [if_pos aligned] at pending ⊢
      exact ⟨offset / blockSize, by omega⟩
    · rw [if_neg aligned] at pending ⊢
      exact ⟨offset / blockSize + 1, by omega⟩
  unfold writeContent
  generalize writeHead blockSize buf offset content
    (.first blockSize len offset tmpbuf) = head at *
  have runLeft : (writeRun blockSize buf head.1 head.2).2.left =
        head.2.left % blockSize := by
    have leftParts := Nat.div_add_mod' head.2.left blockSize
    unfold writeRun
    by_cases whole : blockSize ≤ head.2.left
    · simp only [whole, ↓reduceIte, roundDown_eq]
      omega
    · simp only [whole, ↓reduceIte]
      exact (Nat.mod_eq_of_lt (by omega)).symm
  simp only [writeTail, runLeft]
  by_cases rest : 0 < head.2.left % blockSize
  · have leftSome : head.2.left ≠ 0 := by
      intro none
      simp [none] at rest
    obtain ⟨start, starts⟩ := atBlock (by omega)
    have remainder : (offset + len) % blockSize = head.2.left % blockSize := by
      have stop : offset + len = head.2.left + start * blockSize := by
        omega
      rw [stop, Nat.add_mul_mod_self_right]
    rw [if_pos ⟨rest, by omega⟩]
  · rw [if_neg (by omega)]
    simp only [runLeft]
    omega

theorem ext2Write_returns {vnode : Ext2Vnode} {tmpbuf buf : Memory UInt8}
    (positive : 0 < vnode.blockSize) :
    (ext2Write vnode tmpbuf buf len offset).2 = int32 len := by
  simp only [ext2Write, writeContent_left positive, Nat.sub_zero]

theorem ext2Read_empty {vnode : Ext2Vnode} {tmpbuf target : Memory UInt8}
    (positive : 0 < vnode.blockSize) (inFile : offset ≤ vnode.size) :
    (ext2Read vnode tmpbuf target 0 offset).2 = 0 := by
  have length : readLength vnode 0 offset = some 0 := by
    unfold readLength
    by_cases atEnd : vnode.size ≤ offset + 0
    · rw [if_pos atEnd, if_neg (by omega), Option.some.injEq]
      omega
    · rw [if_neg atEnd]
  have noBlocks : ¬ vnode.blockSize ≤ 0 := by
    omega
  simp only [ext2Read, length, readHead]
  split <;> simp [Cursor.first, readRun, readTail, noBlocks, int32]

theorem updatesBytes_of_addressable
    (addressable : Addressable blockSize offset len) (pending : 0 < len)
    (noLostTail : ¬ TailAfterRun blockSize offset len) :
    UpdatesBytes blockSize offset len := by
  rintro vnode tmpbuf buf rfl wellFormed _
  have positive := addressable.positive
  have inBlocks := addressable.inBlocks
  obtain ⟨finished, stored⟩ :=
    writeContent_stored vnode.content buf tmpbuf addressable pending noLostTail
  have size : (ext2Write vnode tmpbuf buf len offset).1.size =
        max vnode.size (offset + len) := by
    have returned := (int32_eq_iff len).mpr addressable.short
    simp only [ext2Write, finished, Nat.sub_zero, returned]
    omega
  refine ⟨size, ?_⟩
  intro freshbuf target readLen readOffset inFile short
  have grows := Nat.mul_le_mul_right vnode.blockSize stored.keeps
  have limit := Nat.mul_le_mul_right vnode.blockSize wellFormed.addressable
  have covered := wellFormed.covered
  have reaches := stored.reaches pending
  by_cases empty : readLen = 0
  · subst empty
    refine ⟨ext2Read_empty positive ?_, by omega⟩
    omega
  · obtain ⟨returned, delivered⟩ :=
      ext2Read_delivers (ext2Write vnode tmpbuf buf len offset).1
        freshbuf target readOffset readLen
        ⟨positive, by simp only [ext2Write]; omega, short⟩
        (by simp only [ext2Write]; omega)
        (by rw [size]; exact inFile) (by omega)
    refine ⟨returned, fun index bound => ⟨?_, ?_⟩⟩
    · intro lower upper
      rw [delivered index bound]
      exact stored.written _ lower upper
    · intro inOld outside
      rw [delivered index bound]
      exact stored.kept _ (by omega) outside

/-- A file of whole blocks of zeros. -/
def zeroFile (blockSize blocks : Nat) : Ext2Vnode where
  content := { bytes := fun _ => 0, mapped := blocks }
  size := blocks * blockSize
  blockSize := blockSize

theorem zeroFile_wellFormed {blocks : Nat} (few : blocks ≤ 2 ^ 32) :
    WellFormed (zeroFile blockSize blocks) :=
  ⟨Nat.le_refl _, few⟩

theorem ext2Read_alias
    (vnode : Ext2Vnode) (tmpbuf target : Memory UInt8) (len first second : Nat)
    (firstLength : readLength vnode len first = some len)
    (secondLength : readLength vnode len second = some len)
    (sameBlock :
      uint32 (first / vnode.blockSize) = uint32 (second / vnode.blockSize))
    (sameByte : first % vnode.blockSize = second % vnode.blockSize) :
    ext2Read vnode tmpbuf target len first =
      ext2Read vnode tmpbuf target len second := by
  simp only [ext2Read, firstLength, secondLength, Cursor.first,
    sameBlock, readHead, sameByte]

/-- A range that leaves the 32-bit block numbers overwrites low blocks. -/
theorem inBlocks_of_updatesBytes (positive : 0 < blockSize) (pending : 0 < len)
    (short : len < 2 ^ 31) (updates : UpdatesBytes blockSize offset len) :
    offset + len ≤ 2 ^ 32 * blockSize := by
  apply Classical.byContradiction
  intro beyond
  obtain ⟨size, reads⟩ :=
    updates (zeroFile blockSize (2 ^ 32)) (fun _ => 0) (fun _ => 1) rfl
      (zeroFile_wellFormed (Nat.le_refl _))
      (by
        rw [ext2Write_returns positive]
        exact (int32_eq_iff len).mpr short)
  -- the last byte of the range and the byte it is taken for
  have aliasParts := Nat.div_add_mod' (offset + len - 1) (2 ^ 32 * blockSize)
  have aliasLt :=
    Nat.mod_lt (offset + len - 1) (by omega : 0 < 2 ^ 32 * blockSize)
  have wraps : 1 ≤ (offset + len - 1) / (2 ^ 32 * blockSize) :=
    (Nat.one_le_div_iff (by omega)).mpr (by omega)
  have far : 2 ^ 32 * blockSize ≤
        (offset + len - 1) / (2 ^ 32 * blockSize) * (2 ^ 32 * blockSize) :=
    Nat.le_mul_of_pos_left _ wraps
  generalize (offset + len - 1) / (2 ^ 32 * blockSize) = times at *
  generalize (offset + len - 1) % (2 ^ 32 * blockSize) = aliased at *
  have asBlocks : offset + len - 1 = aliased + times * 2 ^ 32 * blockSize := by
    rw [Nat.mul_assoc]
    omega
  have fullSize : (zeroFile blockSize (2 ^ 32)).size = 2 ^ 32 * blockSize := rfl
  obtain ⟨_, lastByte⟩ :=
    reads (fun _ => 0) (fun _ => 0) 1 (offset + len - 1) (by omega) (by omega)
  obtain ⟨_, aliasByte⟩ :=
    reads (fun _ => 0) (fun _ => 0) 1 aliased (by omega) (by omega)
  have last := (lastByte 0 (by omega)).1 (by omega) (by omega)
  have old := (aliasByte 0 (by omega)).2 (by omega) (by omega)
  have sameRead :=
    ext2Read_alias
      (ext2Write (zeroFile blockSize (2 ^ 32)) (fun _ => 0)
        (fun _ => 1) len offset).1
      (fun _ => 0) (fun _ => 0) 1 (offset + len - 1) aliased
      (by
        unfold readLength
        rw [size, fullSize]
        split <;> simp <;> omega)
      (by
        unfold readLength
        split <;> simp <;> omega)
      (by
        simp only [ext2Write, zeroFile, uint32, asBlocks]
        rw [Nat.add_mul_div_right _ _ positive, Nat.add_mul_mod_self_right])
      (by
        simp only [ext2Write, zeroFile, asBlocks]
        rw [Nat.add_mul_mod_self_right])
  rw [sameRead, old] at last
  simp [zeroFile] at last

theorem writeContent_loses_tail (content : Content) (tmpbuf buf : Memory UInt8)
    (addressable : Addressable blockSize offset len)
    (wholeBlocks : blockSize ≤ len - headBytes blockSize offset len)
    (someTail : (offset + len) % blockSize ≠ 0)
    (existing : offset + len ≤ content.mapped * blockSize) :
    (writeContent blockSize buf len offset tmpbuf content).1.bytes
          (offset + len - 1) =
        content.bytes (offset + len - 1) ∧
      content.mapped ≤
        (writeContent blockSize buf len offset tmpbuf content).1.mapped := by
  have positive := addressable.positive
  obtain ⟨onTrack, headDone, stored⟩ :=
    writeHead_onTrack content buf tmpbuf addressable (by omega)
  unfold writeContent
  dsimp only
  generalize writeHead blockSize buf offset content
    (.first blockSize len offset tmpbuf) = head at *
  have total := onTrack.total
  have starts := onTrack.atBlock (by omega)
  obtain ⟨runTotal, runLeft, runStart, runStored⟩ :=
    writeRun_stored addressable onTrack stored (by omega)
  generalize writeRun blockSize buf head.1 head.2 = run at *
  have pending : 0 < run.2.left ∧ (offset + len) % blockSize ≠ 0 := by
    omega
  have next :
      (head.2.start + 1) * blockSize = head.2.start * blockSize + blockSize :=
    Nat.succ_mul _ _
  -- the tail goes to the first whole block, which ends before the range
  have behind : offset + len ≠ (head.2.start + 1) * blockSize := by
    intro atBoundary
    rw [atBoundary, Nat.mul_mod_left] at someTail
    exact someTail rfl
  have grows := Nat.mul_le_mul_right blockSize runStored.keeps
  rw [writeTail, if_pos pending]
  simp only [patchBlock, runStart]
  constructor
  · rw [contentWrite_outside (by omega) (by omega)]
    exact runStored.kept _ (by omega) (by omega)
  · have keeps := runStored.keeps
    simp only [contentWrite]
    omega

/-- Behind whole blocks the tail of the range is not stored in its place. -/
theorem noLostTail_of_updatesBytes
    (blocks : Nat) (addressable : Addressable blockSize offset len)
    (few : blocks ≤ 2 ^ 32) (inBlocks : offset + len ≤ blocks * blockSize)
    (pending : 0 < len) (updates : UpdatesBytes blockSize offset len) :
    ¬ TailAfterRun blockSize offset len := by
  rintro ⟨wholeBlocks, someTail⟩
  have positive := addressable.positive
  have limit := addressable.inBlocks
  obtain ⟨size, reads⟩ :=
    updates (zeroFile blockSize blocks) (fun _ => 0) (fun _ => 1) rfl
      (zeroFile_wellFormed few)
      (by
        rw [ext2Write_returns positive]
        exact (int32_eq_iff len).mpr addressable.short)
  obtain ⟨_, lastByte⟩ :=
    reads (fun _ => 0) (fun _ => 0) 1 (offset + len - 1) (by omega) (by omega)
  have last := (lastByte 0 (by omega)).1 (by omega) (by omega)
  obtain ⟨kept, mapped⟩ :=
    writeContent_loses_tail (zeroFile blockSize blocks).content
      (fun _ => 0) (fun _ => 1) addressable wholeBlocks someTail
      inBlocks
  have grows := Nat.mul_le_mul_right blockSize mapped
  obtain ⟨_, delivered⟩ :=
    ext2Read_delivers
      (ext2Write (zeroFile blockSize blocks) (fun _ => 0)
        (fun _ => 1) len offset).1
      (fun _ => 0) (fun _ => 0) (offset + len - 1) 1
      ⟨positive, by simp only [ext2Write, zeroFile]; omega, by omega⟩
      (by
        simp only [ext2Write, zeroFile] at grows ⊢
        omega)
      (by omega) (by omega)
  rw [delivered 0 (by omega)] at last
  simp only [ext2Write, Nat.add_zero] at last
  rw [show (zeroFile blockSize blocks).blockSize = blockSize from rfl,
    kept] at last
  simp [zeroFile] at last

end Update

/--
`ext2_write` updates an array of bytes exactly when its length does not fit
into the return value, or the range lies in addressable blocks and has no tail
behind whole blocks.
-/
theorem ext2Write_updatesBytes_iff {blockSize offset len : Nat}
    (positive : 0 < blockSize) (pending : 0 < len) :
    UpdatesBytes blockSize offset len ↔
      2 ^ 31 ≤ len ∨
        (offset + len ≤ 2 ^ 32 * blockSize ∧
          ¬ TailAfterRun blockSize offset len) := by
  constructor
  · intro updates
    by_cases short : len < 2 ^ 31
    · right
      have inBlocks := inBlocks_of_updatesBytes positive pending short updates
      exact ⟨inBlocks,
        noLostTail_of_updatesBytes (2 ^ 32)
          ⟨positive, inBlocks, short⟩ (Nat.le_refl _) inBlocks pending
          updates⟩
    · exact .inl (by omega)
  · rintro (tooLong | ⟨inBlocks, noLostTail⟩)
    · rintro vnode tmpbuf buf rfl _ returned
      rw [ext2Write_returns positive, int32_eq_iff] at returned
      omega
    · by_cases short : len < 2 ^ 31
      · exact
          updatesBytes_of_addressable ⟨positive, inBlocks, short⟩
            pending noLostTail
      · rintro vnode tmpbuf buf rfl _ returned
        rw [ext2Write_returns positive, int32_eq_iff] at returned
        omega

/-- Writing the second half of a block and the block behind it. -/
theorem headAndRun_updatesBytes : UpdatesBytes 1024 512 1536 :=
  (ext2Write_updatesBytes_iff (by decide) (by decide)).mpr
    (.inr ⟨by decide, fun tail => tail.2 (by decide)⟩)

/--
Writing a whole block and one byte into a file of two blocks of zeros loses
the byte.
-/
theorem ext2Write_misplaces_tail :
    ¬ ∀ blockSize offset len,
      0 < blockSize → 0 < len → UpdatesBytes blockSize offset len := by
  intro updates
  exact
    noLostTail_of_updatesBytes 2 ⟨by decide, by decide, by decide⟩
      (by decide) (by decide) (by decide)
      (updates 1024 0 1025 (by decide) (by decide))
      (by unfold TailAfterRun headBytes; decide)

end Idylla.Ext2
