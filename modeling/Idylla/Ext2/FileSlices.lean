import Idylla.Ext2.FileUpdate

namespace Idylla.Ext2

open Idylla.Lib

/-!
# Reading slices of a file

`ext2_read` delivers a slice of the file and leaves the rest of the caller's
buffer alone.  The version of it under `#if 0` reads all blocks into one
buffer first; it counts the blocks from the length alone.
-/

/-- `ROUND_UP` -/
def roundUp (number unit : Nat) : Nat :=
  if number % unit ≠ 0 then number + (unit - number % unit) else number

/-- `ext2_read`; nothing where `offset + len` leaves a `loff_t`. -/
def ext2ReadCall (vnode : Ext2Vnode) (tmpbuf buf : Memory UInt8)
    (len offset : Nat) : Option (Memory UInt8 × Int) :=
  if 2 ^ 63 ≤ offset + len then none
  else some (ext2Read vnode tmpbuf buf len offset)

/--
`ext2_read` under `#if 0`; `tmpbuf` is the memory from the buffer on that
`kalloc` hands out, with the bytes behind it.
-/
def ext2ReadSingle (vnode : Ext2Vnode) (tmpbuf buf : Memory UInt8)
    (len offset : Nat) : Option (Memory UInt8 × Int) :=
  if 2 ^ 63 ≤ offset + len then none
  else
    match readLength vnode len offset with
    | none => some (buf, 0)
    | some len =>
      let start := uint32 (offset / vnode.blockSize)
      let count := uint32 (roundUp len vnode.blockSize) / vnode.blockSize
      let blocks :=
        (contentRead vnode.blockSize vnode.content tmpbuf 0 count start).1
      some (buf.copy 0 blocks (offset % vnode.blockSize) len, int32 len)

/-- How many bytes of the file a range has. -/
def sliceLength (vnode : Ext2Vnode) (len offset : Nat) : Nat :=
  min len (vnode.size - offset)

/--
The call returns the length of the slice, delivers its bytes and leaves the
others alone, and the version with a single buffer does the same.
-/
def ReadsSlice (vnode : Ext2Vnode) (len offset : Nat) : Prop :=
  ∀ tmpbuf buf heap : Memory UInt8, ∃ target returned,
    ext2ReadCall vnode tmpbuf buf len offset = some (target, returned) ∧
      returned = sliceLength vnode len offset ∧
      (∀ index < sliceLength vnode len offset,
        target index = vnode.content.bytes (offset + index)) ∧
      (∀ index, sliceLength vnode len offset ≤ index →
        target index = buf index) ∧
      ext2ReadSingle vnode heap buf len offset = some (target, returned)

section Slices

variable {blockSize offset len : Nat} {content : Content} {buf : Memory UInt8}
  {cursor : Cursor}

theorem int32_lt (number : Nat) : int32 number < 2 ^ 31 := by
  unfold int32
  rw [BitVec.toInt_eq_toNat_cond]
  split <;> omega

theorem ext2Read_lt (vnode : Ext2Vnode) (tmpbuf buf : Memory UInt8)
    (len offset : Nat) : (ext2Read vnode tmpbuf buf len offset).2 < 2 ^ 31 := by
  unfold ext2Read
  split
  · show (0 : Int) < 2 ^ 31
    decide
  · exact int32_lt _

variable {index : Nat}

theorem readHead_keeps
    (behind : (readHead blockSize content offset buf cursor).2.done ≤ index) :
    (readHead blockSize content offset buf cursor).1 index = buf index := by
  unfold readHead at behind ⊢
  split at behind
  next head =>
    rw [if_pos head]
    exact Memory.copy_outside (.inr behind)
  next noHead => rw [if_neg noHead]

theorem readRun_keeps
    (behind : (readRun blockSize content buf cursor).2.done ≤ index) :
    (readRun blockSize content buf cursor).1 index = buf index := by
  unfold readRun at behind ⊢
  split at behind
  next whole =>
    rw [if_pos whole]
    refine Memory.copy_outside (.inr ?_)
    have few :
        min (uint32 (cursor.left / blockSize)) (content.mapped - cursor.start) ≤
          cursor.left / blockSize :=
      Nat.le_trans (Nat.min_le_left _ _) (Nat.mod_le _ _)
    have inRun := Nat.mul_le_mul_right blockSize few
    rw [← roundDown_eq] at inRun
    have isBehind : cursor.done + roundDown cursor.left blockSize ≤ index :=
      behind
    omega
  next noRun => rw [if_neg noRun]

theorem readTail_keeps (behind : cursor.done + cursor.left ≤ index) :
    (readTail blockSize content buf cursor).1 index = buf index := by
  unfold readTail
  split
  · exact Memory.copy_outside (.inr behind)
  · rfl

theorem readLength_eq (vnode : Ext2Vnode) (len offset : Nat) :
    readLength vnode len offset = if vnode.size < offset then none
      else some (sliceLength vnode len offset) := by
  unfold readLength sliceLength
  by_cases atEnd : vnode.size ≤ offset + len
  · rw [if_pos atEnd]
    by_cases behind : vnode.size < offset
    · rw [if_pos behind, if_pos behind]
    · rw [if_neg behind, if_neg behind, Nat.min_eq_right (by omega)]
  · rw [if_neg atEnd, if_neg (by omega), Nat.min_eq_left (by omega)]

theorem ext2Read_nothing (vnode : Ext2Vnode) (tmpbuf buf : Memory UInt8)
    (positive : 0 < vnode.blockSize)
    (nothing : sliceLength vnode len offset = 0) :
    ext2Read vnode tmpbuf buf len offset = (buf, 0) := by
  unfold ext2Read
  rw [readLength_eq, nothing]
  by_cases behind : vnode.size < offset
  · rw [if_pos behind]
  · have noBlocks : ¬ vnode.blockSize ≤ 0 := Nat.not_le.mpr positive
    rw [if_neg behind]
    simp only [readHead, Cursor.first]
    split <;> simp [readRun, readTail, noBlocks, int32]

/-- `ext2_read` delivers a slice and leaves the bytes behind it alone. -/
theorem ext2Read_slice (vnode : Ext2Vnode) (tmpbuf buf : Memory UInt8)
    (positive : 0 < vnode.blockSize) (wellFormed : WellFormed vnode)
    (short : sliceLength vnode len offset < 2 ^ 31) :
    let result := ext2Read vnode tmpbuf buf len offset
    result.2 = sliceLength vnode len offset ∧
      (∀ index < sliceLength vnode len offset,
        result.1 index = vnode.content.bytes (offset + index)) ∧
      ∀ index, sliceLength vnode len offset ≤ index →
        result.1 index = buf index := by
  intro result
  by_cases nothing : sliceLength vnode len offset = 0
  · have isResult : result = (buf, 0) :=
      ext2Read_nothing vnode tmpbuf buf positive nothing
    rw [isResult, nothing]
    exact ⟨rfl, fun _ below => absurd below (Nat.not_lt_zero _), fun _ _ => rfl⟩
  · have isLength := readLength_eq vnode len offset
    have inside : offset + sliceLength vnode len offset ≤ vnode.size := by
      unfold sliceLength at nothing ⊢
      omega
    generalize sliceLength vnode len offset = count at *
    have pending : 0 < count := Nat.pos_of_ne_zero nothing
    have covered := wellFormed.covered
    have limit := Nat.mul_le_mul_right vnode.blockSize wellFormed.addressable
    have addressable : Addressable vnode.blockSize offset count :=
      ⟨positive, by omega, short⟩
    have mapped : offset + count ≤ vnode.content.mapped * vnode.blockSize := by
      omega
    rw [if_neg (by omega)] at isLength
    let head :=
      readHead vnode.blockSize vnode.content offset buf
        (.first vnode.blockSize count offset tmpbuf)
    let run := readRun vnode.blockSize vnode.content head.1 head.2
    let tail := readTail vnode.blockSize vnode.content run.1 run.2
    have isResult : result = (tail.1, int32 (count - tail.2.left)) := by
      show ext2Read vnode tmpbuf buf len offset = _
      unfold ext2Read
      rw [isLength]
    obtain ⟨headOnTrack, headDelivered⟩ :
        OnTrack vnode.blockSize offset count head.2.done head.2.left
            head.2.start ∧
          Delivered vnode.content offset head.1 head.2.done :=
      readHead_onTrack buf tmpbuf addressable mapped pending
    obtain ⟨runOnTrack, runDelivered, rest⟩ :
        OnTrack vnode.blockSize offset count run.2.done run.2.left run.2.start ∧
          Delivered vnode.content offset run.1 run.2.done ∧
          run.2.left < vnode.blockSize :=
      readRun_onTrack addressable mapped headOnTrack headDelivered
    obtain ⟨finished, delivered⟩ :
        tail.2.left = 0 ∧ Delivered vnode.content offset tail.1 count :=
      readTail_delivers mapped runOnTrack runDelivered rest
    rw [isResult]
    refine ⟨?_, delivered, fun index behind => ?_⟩
    · rw [finished, Nat.sub_zero]
      exact (int32_eq_iff count).mpr short
    · have total := runOnTrack.total
      have isTail : tail.1 index = run.1 index := readTail_keeps (by omega)
      have isRun : run.1 index = head.1 index :=
        readRun_keeps (show run.2.done ≤ index by omega)
      have headTotal := headOnTrack.total
      have isHead : head.1 index = buf index :=
        readHead_keeps (show head.2.done ≤ index by omega)
      exact isTail.trans (isRun.trans isHead)

theorem roundUp_spec (number : Nat) (positive : 0 < blockSize) :
    roundUp number blockSize / blockSize * blockSize =
        roundUp number blockSize ∧
      roundUp number blockSize < number + blockSize := by
  have parts := Nat.div_add_mod' number blockSize
  have remainder := Nat.mod_lt number positive
  unfold roundUp
  by_cases aligned : number % blockSize = 0
  · rw [if_neg (fun differs => differs aligned)]
    omega
  · rw [if_pos aligned]
    have isNext : number + (blockSize - number % blockSize) =
          (number / blockSize + 1) * blockSize := by
      rw [Nat.succ_mul]
      omega
    rw [isNext, Nat.mul_div_cancel _ positive]
    omega

theorem contentRead_byte {heap : Memory UInt8} {count start index : Nat}
    (inContent : index < (content.mapped - start) * blockSize) :
    (contentRead blockSize content heap 0 count start).1 index =
      if index < count * blockSize then
        content.bytes (start * blockSize + index)
      else
        heap index := by
  unfold contentRead
  dsimp only
  by_cases inBuffer : index < count * blockSize
  · have both : index < min count (content.mapped - start) * blockSize := by
      rcases Nat.le_total count (content.mapped - start) with few | many
      · rw [Nat.min_eq_left few]
        exact inBuffer
      · rw [Nat.min_eq_right many]
        exact inContent
    rw [if_pos inBuffer, Memory.copy_inside (Nat.zero_le _) (by omega)]
    rfl
  · rw [if_neg inBuffer]
    refine Memory.copy_outside (.inr ?_)
    have few := Nat.mul_le_mul_right blockSize
      (Nat.min_le_left count (content.mapped - start))
    omega

/-- The version with a single buffer, for a slice that is not empty. -/
theorem ext2ReadSingle_byte
    {vnode : Ext2Vnode} {heap : Memory UInt8} {target : Memory UInt8}
    {returned : Int} (positive : 0 < vnode.blockSize)
    (small : vnode.blockSize < 2 ^ 16) (wellFormed : WellFormed vnode)
    (short : sliceLength vnode len offset < 2 ^ 31)
    (inSlice : index < sliceLength vnode len offset)
    (returns :
      ext2ReadSingle vnode heap buf len offset = some (target, returned)) :
    target index =
      if offset % vnode.blockSize + index <
          roundUp (sliceLength vnode len offset) vnode.blockSize then
        vnode.content.bytes (offset + index)
      else
        heap (offset % vnode.blockSize + index) := by
  have inside : offset + sliceLength vnode len offset ≤ vnode.size := by
    unfold sliceLength at inSlice ⊢
    omega
  unfold ext2ReadSingle at returns
  split at returns
  · cases returns
  · rw [readLength_eq, if_neg (by omega)] at returns
    generalize sliceLength vnode len offset = count at *
    cases returns
    have covered := wellFormed.covered
    have limit := Nat.mul_le_mul_right vnode.blockSize wellFormed.addressable
    have parts := Nat.div_add_mod' offset vnode.blockSize
    have isStart :
        uint32 (offset / vnode.blockSize) = offset / vnode.blockSize :=
      uint32_of_lt (block_lt vnode.blockSize offset (by omega) (by omega))
    obtain ⟨isWhole, isNear⟩ := roundUp_spec count positive
    have isCount : uint32 (roundUp count vnode.blockSize) =
          roundUp count vnode.blockSize :=
      uint32_of_lt (by omega)
    have inContent : offset % vnode.blockSize + index <
          (vnode.content.mapped - offset / vnode.blockSize) *
            vnode.blockSize := by
      rw [Nat.sub_mul]
      omega
    rw [Memory.copy_inside (Nat.zero_le _) (by omega), Nat.sub_zero,
      isStart, isCount, contentRead_byte inContent, isWhole]
    congr 2
    omega

theorem ReadsSlice.fits {vnode : Ext2Vnode} (positive : 0 < vnode.blockSize)
    (small : vnode.blockSize < 2 ^ 16) (wellFormed : WellFormed vnode)
    (reads : ReadsSlice vnode len offset) :
    offset + len < 2 ^ 63 ∧ sliceLength vnode len offset < 2 ^ 31 ∧
      (0 < sliceLength vnode len offset →
        offset % vnode.blockSize + sliceLength vnode len offset ≤
          roundUp (sliceLength vnode len offset) vnode.blockSize) := by
  obtain ⟨target, returned, isRead, isLength, -⟩ :=
    reads (fun _ => 0) (fun _ => 0) (fun _ => 0)
  have inRange : offset + len < 2 ^ 63 := by
    unfold ext2ReadCall at isRead
    split at isRead
    · cases isRead
    · omega
  have short : sliceLength vnode len offset < 2 ^ 31 := by
    unfold ext2ReadCall at isRead
    rw [if_neg (Nat.not_le.mpr inRange)] at isRead
    have isReturned := congrArg Prod.snd (Option.some.inj isRead)
    have isInt := ext2Read_lt vnode (fun _ => 0) (fun _ => 0) len offset
    omega
  refine Classical.byContradiction fun behind => ?_
  -- The heap behind the buffer differs from the last byte of the slice.
  let last := sliceLength vnode len offset - 1
  obtain ⟨other, otherReturned, -, -, delivers, -, isSingle⟩ :=
    reads (fun _ => 0) (fun _ => 0)
      (fun _ => vnode.content.bytes (offset + last) + 1)
  have isLast : last < sliceLength vnode len offset := by omega
  have isByte :=
    ext2ReadSingle_byte positive small wellFormed short isLast isSingle
  rw [delivers last isLast, if_neg (by omega)] at isByte
  have isNumber := congrArg UInt8.toNat isByte
  rw [UInt8.toNat_add] at isNumber
  have isOne : (1 : UInt8).toNat = 1 := rfl
  omega

end Slices

/--
`ext2_read` reads slices of a file, and the version with a single buffer does
the same, exactly if the length of the slice fits into an `int`, its end into
a `loff_t`, and the slice lies in as many blocks as its length alone needs.
-/
theorem ext2Read_readsSlice_iff {vnode : Ext2Vnode} {len offset : Nat}
    (positive : 0 < vnode.blockSize) (small : vnode.blockSize < 2 ^ 16)
    (wellFormed : WellFormed vnode) :
    ReadsSlice vnode len offset ↔
      offset + len < 2 ^ 63 ∧ sliceLength vnode len offset < 2 ^ 31 ∧
        (0 < sliceLength vnode len offset →
          offset % vnode.blockSize + sliceLength vnode len offset ≤
            roundUp (sliceLength vnode len offset) vnode.blockSize) := by
  constructor
  · exact ReadsSlice.fits positive small wellFormed
  · rintro ⟨inRange, short, inBlocks⟩ tmpbuf buf heap
    obtain ⟨isLength, delivers, keeps⟩ :=
      ext2Read_slice vnode tmpbuf buf positive wellFormed short
    refine ⟨_, _, if_neg (Nat.not_le.mpr inRange), isLength, delivers, keeps,
      ?_⟩
    have returns : ∃ target,
          ext2ReadSingle vnode heap buf len offset =
              some (target, (sliceLength vnode len offset : Int)) ∧
            ∀ index, sliceLength vnode len offset ≤ index →
              target index = buf index := by
      unfold ext2ReadSingle
      rw [if_neg (Nat.not_le.mpr inRange), readLength_eq]
      by_cases behind : vnode.size < offset
      · have nothing : sliceLength vnode len offset = 0 := by
          unfold sliceLength
          omega
        rw [if_pos behind, nothing]
        exact ⟨buf, rfl, fun _ _ => rfl⟩
      · rw [if_neg behind]
        refine ⟨_, congrArg some (Prod.ext rfl
          ((int32_eq_iff _).mpr short)), fun index isBehind => ?_⟩
        exact Memory.copy_outside (.inr (by omega))
    obtain ⟨target, isSingle, keepsToo⟩ := returns
    rw [isSingle]
    refine congrArg some (Prod.ext (funext fun index => ?_) isLength.symm)
    show target index = (ext2Read vnode tmpbuf buf len offset).1 index
    by_cases inSlice : index < sliceLength vnode len offset
    · rw [ext2ReadSingle_byte positive small wellFormed short inSlice
        isSingle, if_pos (by omega)]
      exact (delivers index inSlice).symm
    · rw [keepsToo index (Nat.not_lt.mp inSlice)]
      exact (keeps index (Nat.not_lt.mp inSlice)).symm

/-- Reading the first hundred bytes of the second block. -/
theorem secondBlock_readsSlice :
    ReadsSlice (zeroFile 1024 2) 100 1024 :=
  (ext2Read_readsSlice_iff (by decide) (by decide)
    (zeroFile_wellFormed (by decide))).mpr
    ⟨by decide, by decide, fun _ => by decide⟩

/--
A hundred bytes around the end of the first block: the version with a single
buffer reads one block only.
-/
theorem aroundBlockEnd_not_readsSlice :
    WellFormed (zeroFile 1024 2) ∧ ¬ ReadsSlice (zeroFile 1024 2) 100 1000 := by
  have wellFormed := @zeroFile_wellFormed 1024 2 (by decide)
  refine ⟨wellFormed, fun reads => ?_⟩
  obtain ⟨-, -, inBlocks⟩ := reads.fits (by decide) (by decide) wellFormed
  revert inBlocks
  decide

end Idylla.Ext2
