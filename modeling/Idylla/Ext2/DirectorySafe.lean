import Idylla.Ext2.DirectoryScans

namespace Idylla.Ext2

open Idylla.Lib

/-!
# Directory calls on arbitrary directories

A call survives a directory exactly when the directory can be loaded, every
record that its loop gets to lies in the buffer, and no record of length zero
holds the loop up.  `ext2_lookup`, `inode_unlink` and `ext2_getdents` stop at a
record of length zero; `inode_link` does not look for one.
-/

section Conditions

variable (kalloc : Kalloc) (bpi : Nat) (heap : Memory Block)

/-- Every record that a search for a name gets to can be compared with it. -/
def SearchFits (buf : KernelBuffer) (size : Nat) (name : CString) : Prop :=
  ∀ pos, Chain (Skips buf.bytes size name) (behind buf.bytes) 0 pos →
    pos < size → RecordFits buf name pos

/-- A directory that `ext2_lookup` survives. -/
def LookupSafe (directory : Directory) (name : CString) : Prop :=
  ∃ buf,
    directory.load kalloc bpi heap (directory.countedBlocks bpi) = .ok buf ∧
      SearchFits buf directory.size.toNat name

/-- A directory that `ext2_getdents` survives from an offset on. -/
def GetdentsSafe (directory : Directory) (len : BitVec 32)
    (offset : Nat) : Prop :=
  ∃ buf,
    directory.load kalloc bpi heap (directory.sizeBlocks bpi) = .ok buf ∧
      ∀ vars,
        Chain (Lists buf.bytes directory.size.toNat len) (listed buf.bytes)
            ⟨offset, 0, []⟩ vars →
          vars.offset < directory.size.toNat → ListFits buf len vars

variable (blockAlloc : Nat → Nat)

/--
A directory that `inode_unlink` survives: a changed buffer has to be written
back as well.
-/
def UnlinkSafe (directory : Directory) (name : CString) : Prop :=
  ∃ buf,
    directory.load kalloc bpi heap (directory.countedBlocks bpi) = .ok buf ∧
      SearchFits buf directory.size.toNat name ∧
      ∀ vars,
        Chain (fun vars => Skips buf.bytes directory.size.toNat name vars.pos)
            (fun vars => ⟨behind buf.bytes vars.pos, some vars.pos⟩)
            (⟨0, none⟩ : UnlinkVars) vars →
          vars.pos < directory.size.toNat →
            entryRecLen buf.bytes vars.pos ≠ 0 →
              HasName buf.bytes name vars.pos →
                ∃ after,
                  directory.store bpi blockAlloc
                      { buf with bytes := unlinkedBytes buf.bytes vars }
                      (directory.countedBlocks bpi) = .ok after

/--
A directory that `inode_link` survives: no record in front of the first one
with room is of length zero, and `inode_unlink` survives the directory with the
entry if the inode cannot be written.
-/
def LinkSafe
    (heapAgain : Memory Block) (directory : Directory) (entry : NewEntry)
    (inode : LinkedInode) : Prop :=
  entry.name.strlen ≤ maxFileName →
    ∃ buf,
      directory.load kalloc bpi heap (directory.sizeBlocks bpi) = .ok buf ∧
        ∀ pos,
          Chain (Refuses buf.bytes directory.size.toNat entry.size)
              (behind buf.bytes) 0 pos →
            pos < directory.size.toNat →
              LinkFits buf entry pos ∧
                if HasRoom buf.bytes entry.size pos then
                  ∃ after,
                    directory.store bpi blockAlloc
                        { buf with
                          bytes := linkedBytes buf.bytes pos entry }
                        (directory.sizeBlocks bpi) = .ok after ∧
                      (inode.slot = none →
                        UnlinkSafe kalloc bpi heapAgain blockAlloc after
                          entry.name)
                else
                  entryRecLen buf.bytes pos ≠ 0

end Conditions

section Calls

variable {kalloc : Kalloc} {bpi : Nat} {heap : Memory Block}
  {directory : Directory} {name : CString}

theorem ext2Lookup_survives_iff :
    Survives (fun turns => ext2Lookup kalloc bpi heap turns directory name) ↔
      LookupSafe kalloc bpi heap directory name := by
  refine (survives_bind_iff (stable_const _) fun _ => loop_stable _).trans ?_
  refine exists_congr fun buf => and_congr returns_const_iff ?_
  rw [(lookup_walks buf directory.size.toNat name).survives_iff]
  refine forall_congr' fun pos => imp_congr_right fun _ => ?_
  refine ⟨And.left, fun fits => ⟨fits, fun skips stays => ?_⟩⟩
  have goesOn := skips.2.1
  have isSame : pos + entryRecLen buf.bytes pos = pos := stays
  omega

theorem ext2Getdents_survives_iff {len : BitVec 32} {offset : Nat} :
    Survives
        (fun turns => ext2Getdents kalloc bpi heap turns directory len offset) ↔
      GetdentsSafe kalloc bpi heap directory len offset := by
  refine (survives_bind_iff (stable_const _) fun _ => loop_stable _).trans ?_
  refine exists_congr fun buf => and_congr returns_const_iff ?_
  rw [(getdents_walks buf directory.size.toNat len).survives_iff]
  refine forall_congr' fun vars => imp_congr_right fun _ => ?_
  refine ⟨And.left, fun fits => ⟨fits, fun lists stays => ?_⟩⟩
  have goesOn := lists.2.1
  have isSame : vars.offset + entryRecLen buf.bytes vars.offset = vars.offset :=
    congrArg GetdentsVars.offset stays
  omega

theorem unlink_chain_iff {buf : KernelBuffer} {size : Nat} :
    (∀ vars,
        Chain (fun vars => Skips buf.bytes size name vars.pos)
            (fun vars => ⟨behind buf.bytes vars.pos, some vars.pos⟩)
            (⟨0, none⟩ : UnlinkVars) vars →
          vars.pos < size →
            RecordFits buf name vars.pos ∧
              (entryRecLen buf.bytes vars.pos ≠ 0 →
                HasName buf.bytes name vars.pos → PrevFits buf vars)) ↔
      SearchFits buf size name := by
  constructor
  · intro fits pos chain
    obtain ⟨prev, chainVars⟩ : ∃ prev,
          Chain (fun vars => Skips buf.bytes size name vars.pos)
            (fun vars => ⟨behind buf.bytes vars.pos, some vars.pos⟩)
            (⟨0, none⟩ : UnlinkVars) ⟨pos, prev⟩ := by
      induction chain with
      | start =>
        exact ⟨none, .start⟩
      | pass before on ih =>
        obtain ⟨prev, chainVars⟩ := ih
        exact ⟨some _, .pass chainVars on⟩
    exact fun below => (fits _ chainVars below).1
  · intro fits vars chain
    have both :
        Chain (Skips buf.bytes size name) (behind buf.bytes) 0 vars.pos ∧
          PrevFits buf vars := by
      induction chain with
      | start =>
        exact ⟨.start, fun prev isPrev => by cases isPrev⟩
      | pass before on ih =>
        refine ⟨.pass ih.1 on, fun prev isPrev => ?_⟩
        cases isPrev
        exact (fits _ ih.1 on.1).1
    exact fun below => ⟨fits _ both.1 below, fun _ _ => both.2⟩

variable {blockAlloc : Nat → Nat}

theorem inodeUnlink_survives_iff :
    Survives
        (fun turns =>
          inodeUnlink kalloc bpi heap turns blockAlloc directory name) ↔
      UnlinkSafe kalloc bpi heap blockAlloc directory name := by
  refine (survives_bind_iff (stable_const _) fun buf =>
    stable_bind (loop_stable _) fun found => stable_const _).trans ?_
  refine exists_congr fun buf => and_congr returns_const_iff ?_
  let size := directory.size.toNat
  have walks := unlink_walks buf size name
  refine (survives_bind_iff (loop_stable _) fun found =>
    stable_const _).trans ((walks.returns_and_iff _).trans ?_)
  refine and_congr ?_ ?_
  · rw [← unlink_chain_iff]
    refine forall_congr' fun vars => imp_congr_right fun _ => ?_
    refine ⟨And.left, fun fits => ⟨fits, fun skips stays => ?_⟩⟩
    have goesOn := skips.2.1
    have isSame : vars.pos + entryRecLen buf.bytes vars.pos = vars.pos :=
      congrArg UnlinkVars.pos stays
    omega
  · refine forall_congr' fun vars => imp_congr_right fun _ => ?_
    unfold unlinkResult
    constructor
    · intro stores below goesOn found
      have stored := stores fun skips => skips.2.2 found
      rw [if_pos ⟨below, goesOn⟩] at stored
      obtain ⟨result, isResult⟩ := survives_const_iff.mp stored
      obtain ⟨after, isStored, -⟩ := bind_eq_ok isResult
      exact ⟨after, isStored⟩
    · intro stores stop
      refine survives_const_iff.mpr ?_
      by_cases isRecord : vars.pos < size ∧ entryRecLen buf.bytes vars.pos ≠ 0
      · have found : HasName buf.bytes name vars.pos :=
          Classical.byContradiction fun other =>
            stop ⟨isRecord.1, isRecord.2, other⟩
        obtain ⟨after, isStored⟩ := stores isRecord.1 isRecord.2 found
        rw [if_pos isRecord]
        dsimp only
        rw [isStored]
        exact ⟨_, rfl⟩
      · rw [if_neg isRecord]
        exact ⟨_, rfl⟩

variable {entry : NewEntry} {inode : LinkedInode} {heapAgain : Memory Block}

theorem inodeUnlink_stable :
    Stable fun turns =>
      inodeUnlink kalloc bpi heap turns blockAlloc directory name := by
  exact stable_bind (stable_const _) fun buf =>
    stable_bind (loop_stable _) fun found => stable_const _

theorem countLink_stable :
    Stable fun turns =>
      countLink kalloc bpi heap turns blockAlloc directory name inode := by
  obtain ⟨slot, bytes⟩ := inode
  cases slot with
  | some place =>
    exact stable_const _
  | none =>
    exact stable_bind inodeUnlink_stable fun _ => stable_const _

theorem countLink_survives_iff :
    Survives
        (fun turns =>
          countLink kalloc bpi heap turns blockAlloc directory name inode) ↔
      (inode.slot = none →
        UnlinkSafe kalloc bpi heap blockAlloc directory name) := by
  obtain ⟨slot, bytes⟩ := inode
  cases slot with
  | some place =>
    constructor
    · intro _ isNone
      cases isNone
    · intro _
      exact survives_const_iff.mpr ⟨_, rfl⟩
  | none =>
    refine (survives_bind_iff inodeUnlink_stable fun _ =>
      stable_const _).trans ?_
    rw [← inodeUnlink_survives_iff]
    constructor
    · rintro ⟨result, returns, -⟩ -
      exact ⟨result, returns⟩
    · intro survives
      obtain ⟨result, returns⟩ := survives rfl
      exact ⟨result, returns, survives_const_iff.mpr ⟨_, rfl⟩⟩

theorem finishLink_stable {found : Option KernelBuffer} :
    Stable fun turns =>
      finishLink kalloc bpi heap turns blockAlloc directory name inode
        found := by
  cases found with
  | none =>
    exact stable_const _
  | some changed =>
    exact stable_bind (stable_const _) fun _ => countLink_stable

theorem inodeLink_survives_iff :
    Survives
        (fun turns =>
          inodeLink kalloc bpi heap turns blockAlloc heapAgain directory
            entry inode) ↔
      LinkSafe kalloc bpi heap blockAlloc heapAgain directory entry inode := by
  unfold inodeLink LinkSafe
  by_cases tooLong : maxFileName < entry.name.strlen
  · simp only [if_pos tooLong]
    exact ⟨fun _ short => absurd tooLong (Nat.not_lt.mpr short),
      fun _ => survives_const_iff.mpr ⟨_, rfl⟩⟩
  · simp only [if_neg tooLong]
    let size := directory.size.toNat
    refine (survives_bind_iff (stable_const _) fun buf =>
      stable_bind (loop_stable _) fun _ => finishLink_stable).trans ?_
    refine Iff.trans ?_
      ⟨fun safe _ => safe, fun safe => safe (Nat.not_lt.mp tooLong)⟩
    refine exists_congr fun buf => and_congr returns_const_iff ?_
    have walks := link_walks buf size entry
    refine (survives_bind_iff (loop_stable _) fun _ =>
      finishLink_stable).trans ((walks.returns_and_iff _).trans ?_)
    have moves {pos : Nat} :
        behind buf.bytes pos ≠ pos ↔ entryRecLen buf.bytes pos ≠ 0 := by
      unfold behind
      omega
    constructor
    · rintro ⟨good, later⟩ pos chain below
      obtain ⟨fit, moving⟩ := good pos chain
      refine ⟨fit below, ?_⟩
      split
      next room =>
        have stored := later pos chain fun refuses => refuses.2 room
        unfold linkResult at stored
        rw [if_pos below] at stored
        obtain ⟨after, isStored, survives⟩ :=
          (survives_bind_iff (stable_const _) fun _ =>
            countLink_stable).mp stored
        exact ⟨after, returns_const_iff.mp isStored,
          countLink_survives_iff.mp survives⟩
      next noRoom => exact moves.mp (moving ⟨below, noRoom⟩)
    · intro safe
      refine ⟨fun pos chain => ⟨fun below => (safe pos chain below).1,
        fun refuses => ?_⟩, fun pos chain stops => ?_⟩
      · have moving := (safe pos chain refuses.1).2
        rw [if_neg refuses.2] at moving
        exact moves.mpr moving
      · unfold linkResult
        by_cases below : pos < size
        · have room : HasRoom buf.bytes entry.size pos :=
            Classical.byContradiction fun noRoom => stops ⟨below, noRoom⟩
          have stored := (safe pos chain below).2
          rw [if_pos room] at stored
          obtain ⟨after, isStored, unlinks⟩ := stored
          rw [if_pos below]
          refine (survives_bind_iff (stable_const _) fun _ =>
            countLink_stable).mpr ?_
          exact ⟨after, returns_const_iff.mpr isStored,
            countLink_survives_iff.mpr unlinks⟩
        · rw [if_neg below]
          exact survives_const_iff.mpr ⟨_, rfl⟩

end Calls

/--
Each of the four calls comes to its end without an access outside its buffer on
exactly those directories that are safe for it.
-/
theorem directoryCalls_survive_iff
    (kalloc : Kalloc) (bpi : Nat) (heap heapAgain : Memory Block)
    (blockAlloc : Nat → Nat)
    (directory : Directory) (name : CString) (entry : NewEntry)
    (inode : LinkedInode) (len : BitVec 32) (offset : Nat) :
    (Survives (fun turns => ext2Lookup kalloc bpi heap turns directory name) ↔
      LookupSafe kalloc bpi heap directory name) ∧
    (Survives
        (fun turns =>
          inodeLink kalloc bpi heap turns blockAlloc heapAgain directory
            entry inode) ↔
      LinkSafe kalloc bpi heap blockAlloc heapAgain directory entry inode) ∧
    (Survives
        (fun turns =>
          inodeUnlink kalloc bpi heap turns blockAlloc directory name) ↔
      UnlinkSafe kalloc bpi heap blockAlloc directory name) ∧
    (Survives
        (fun turns => ext2Getdents kalloc bpi heap turns directory len offset) ↔
      GetdentsSafe kalloc bpi heap directory len offset) :=
  ⟨ext2Lookup_survives_iff, inodeLink_survives_iff,
    inodeUnlink_survives_iff, ext2Getdents_survives_iff⟩

/-- A heap from which every buffer that fits is given out. -/
def wholeHeap : Kalloc where
  capacity := fun size =>
    if size.toNat ≤ heapSize then some size.toNat else none
  granted := by
    intro size length isSome
    split at isSome
    · cases isSome
      exact .inr rfl
    · cases isSome
  bounded := by
    intro size length isSome
    split at isSome
    next fits =>
      cases isSome
      exact fits
    · cases isSome

/-- A directory of one block of zeros. -/
def zeroDirectory : Directory where
  volume := zeroVolume
  iBlock := fun pos => if pos = 0 then 2 else 0
  size := 1024
  blocks := 2

/-- A new entry with the name `a`. -/
def newEntryA : NewEntry where
  name := ⟨[97], by simp⟩
  ino := 12
  fileType := 1

theorem zeroDirectory_load :
    zeroDirectory.load wholeHeap 256 (fun _ => zeroBlock)
        (zeroDirectory.sizeBlocks 256) =
      .ok ⟨blockBytes 256 (Memory.set (fun _ => zeroBlock) 0 zeroBlock),
        1024⟩ := by
  have isOne : zeroDirectory.sizeBlocks 256 = 1 := by decide
  have capacity : wholeHeap.capacity (BitVec.ofInt 32 (1 * (4 * 256 : Nat))) =
        some 1024 := by
    decide
  have isRead : inodeReadContent 256 zeroDirectory.volume zeroDirectory.iBlock
          (fun _ => zeroBlock) (BitVec.ofInt 32 1).toNat 0 =
        some (Memory.set (fun _ => zeroBlock) 0 zeroBlock, 1) :=
    rfl
  unfold Directory.load
  rw [isOne, capacity]
  rw [isRead]
  rfl

/--
The first record of the directory has the length zero: `inode_link` stays
there, where `ext2_lookup` stops.
-/
theorem zeroDirectory_link_not_survived :
    ¬ Survives
      (fun turns =>
        inodeLink wholeHeap 256 (fun _ => zeroBlock) turns
          (fun call => call + 3) (fun _ => zeroBlock) zeroDirectory newEntryA
          ⟨some (5, 0), fun _ => 0⟩) := by
  rintro ⟨result, turns, returns⟩
  have isShort : ¬ maxFileName < newEntryA.name.strlen := by decide
  unfold inodeLink at returns
  dsimp only at returns
  rw [if_neg isShort, zeroDirectory_load] at returns
  obtain ⟨buf, isBuf, returns⟩ := bind_eq_ok returns
  cases isBuf
  obtain ⟨found, isFound, -⟩ := bind_eq_ok returns
  let buf : KernelBuffer :=
    ⟨blockBytes 256 (Memory.set (fun _ => zeroBlock) 0 zeroBlock), 1024⟩
  have endless (turns : Nat) :
      loop (linkBody buf 1024 newEntryA) turns 0 ≠ .ok found := by
    induction turns with
    | zero =>
      intro later
      cases later
    | succ turns ih =>
      exact ih
  exact endless turns isFound

end Idylla.Ext2
