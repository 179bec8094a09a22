import Idylla.Ext2.DirectoryScans

namespace Idylla.Ext2

open Idylla.Lib

/-!
# Records of a directory

The records of a directory tile its blocks.  A new entry takes over a dead
record or the slack of a live one; what that means for the other entries
follows from the bytes that the new entry covers.
-/

/-- A record starts at a position, or the directory ends there. -/
def Visits (bytes : Memory UInt8) (size pos : Nat) : Prop :=
  Chain (fun other => other < size) (behind bytes) 0 pos

/-- A record has the size of its entry, is aligned and lies in one block. -/
structure RecordFormed
    (bytes : Memory UInt8)
    (blkSize pos : Nat) : Prop where
  long : entrySize (entryNameLen bytes pos) ≤ entryRecLen bytes pos
  aligned : entryRecLen bytes pos % 4 = 0
  inBlock : pos / blkSize = (behind bytes pos - 1) / blkSize

/-- Well-formed records tile a directory of whole blocks. -/
structure RecordsFormed
    (bytes : Memory UInt8)
    (blkSize size : Nat) : Prop where
  whole : size % blkSize = 0
  record : ∀ pos, Visits bytes size pos → pos < size →
    RecordFormed bytes blkSize pos

/-- The record at a position has an entry. -/
def LiveEntry (bytes : Memory UInt8) (size pos : Nat) : Prop :=
  Visits bytes size pos ∧ pos < size ∧ entryInode bytes pos ≠ 0

/-- No entry has the name. -/
def NameAbsent (bytes : Memory UInt8) (size : Nat) (name : CString) : Prop :=
  ∀ pos, LiveEntry bytes size pos → ¬ HasName bytes name pos

/-- Two memories have the same entry at a position. -/
structure SameEntry (bytes after : Memory UInt8) (pos : Nat) : Prop where
  inode : entryInode after pos = entryInode bytes pos
  nameLen : entryNameLen after pos = entryNameLen bytes pos
  fileType : after (pos + 7) = bytes (pos + 7)
  name : ∀ index < entryNameLen bytes pos,
    after (pos + 8 + index) = bytes (pos + 8 + index)

/-- Looking a name up yields an inode, or zero. -/
def LookupFinds (bytes : Memory UInt8) (size : Nat) (name : CString)
    (ino : BitVec 32) : Prop :=
  ∃ pos, Chain (Skips bytes size name) (behind bytes) 0 pos ∧
    ¬ Skips bytes size name pos ∧ lookupResult bytes size pos = ino

section Entries

variable {bytes after : Memory UInt8} {blkSize size pos other : Nat}
  {name : CString}

theorem entrySize_spec (nameLen : Nat) :
    8 + nameLen ≤ entrySize nameLen ∧ entrySize nameLen % 4 = 0 ∧
      entrySize nameLen < 12 + nameLen := by
  unfold entrySize roundUp
  split <;> omega

theorem entryNameLen_lt (bytes : Memory UInt8) (pos : Nat) :
    entryNameLen bytes pos < 256 :=
  Memory.number_lt bytes (pos + 6) 1

theorem entryRecLen_lt (bytes : Memory UInt8) (pos : Nat) :
    entryRecLen bytes pos < 65536 :=
  Memory.number_lt bytes (pos + 4) 2

theorem SameEntry.of_bytes
    (same : ∀ address, pos ≤ address →
      address < pos + 8 + entryNameLen bytes pos →
        address ≠ pos + 4 → address ≠ pos + 5 → after address = bytes address) :
    SameEntry bytes after pos where
  inode := by
    unfold entryInode
    rw [Memory.number_congr fun index below =>
      same (pos + index) (by omega) (by omega) (by omega) (by omega)]
  nameLen :=
    Memory.number_congr fun index below =>
      same (pos + 6 + index) (by omega) (by omega) (by omega) (by omega)
  fileType := same (pos + 7) (by omega) (by omega) (by omega) (by omega)
  name := fun index below =>
    same (pos + 8 + index) (by omega) (by omega) (by omega) (by omega)

theorem SameEntry.trans {last : Memory UInt8}
    (first : SameEntry bytes after pos) (second : SameEntry after last pos) :
    SameEntry bytes last pos where
  inode := second.inode.trans first.inode
  nameLen := second.nameLen.trans first.nameLen
  fileType := second.fileType.trans first.fileType
  name := fun index below =>
    (second.name index (by rw [first.nameLen]; exact below)).trans
      (first.name index below)

theorem SameEntry.hasName_iff (same : SameEntry bytes after pos) :
    HasName after name pos ↔ HasName bytes name pos := by
  unfold HasName
  rw [same.nameLen]
  refine and_congr_right fun sameLength => and_congr_right fun _ => ?_
  refine forall_congr' fun index => imp_congr_right fun below => ?_
  rw [same.name index (by omega)]

theorem HasName.unique {otherName : CString} (has : HasName bytes name pos)
    (hasOther : HasName bytes otherName pos) : name = otherName := by
  have sameLength : name.chars.length = otherName.chars.length :=
    has.1.symm.trans hasOther.1
  have sameChars : name.chars = otherName.chars := by
    refine List.ext_getElem sameLength fun index inName inOther => ?_
    have isName := has.2.2 index inName
    have isOther := hasOther.2.2 index inOther
    rw [isName, List.getD_eq_getElem?_getD, List.getD_eq_getElem?_getD,
      List.getElem?_eq_getElem inName,
      List.getElem?_eq_getElem inOther] at isOther
    exact isOther
  cases name
  cases otherName
  cases sameChars
  rfl

theorem le_behind (bytes : Memory UInt8) (pos : Nat) :
    pos ≤ behind bytes pos :=
  Nat.le_add_right _ _

theorem le_of_chain {passes : Nat → Prop}
    (chain : Chain passes (behind bytes) pos other) : pos ≤ other := by
  induction chain with
  | start =>
    exact Nat.le_refl _
  | pass earlier on ih =>
    exact Nat.le_trans ih (le_behind bytes _)

theorem Visits.order
    (visits : Visits bytes size pos) (visitsOther : Visits bytes size other)
    (before : pos < other) : behind bytes pos ≤ other := by
  rcases visits.comparable visitsOther with toOther | fromOther
  · rcases toOther.head with same | ⟨-, later⟩
    · omega
    · exact le_of_chain later
  · have backward := le_of_chain fromOther
    omega

theorem visits_of_chain {passes : Nat → Prop}
    (inside : ∀ other, passes other → other < size)
    (chain : Chain passes (behind bytes) 0 pos) : Visits bytes size pos :=
  chain.congr fun _ _ on => ⟨inside _ on, rfl⟩

namespace RecordsFormed

variable (formed : RecordsFormed bytes blkSize size)

include formed

theorem bounds (visits : Visits bytes size pos) (below : pos < size) :
    pos + 8 + entryNameLen bytes pos ≤ behind bytes pos ∧
      behind bytes pos ≤ size := by
  obtain ⟨long, -, inBlock⟩ := formed.record pos visits below
  have fits := (entrySize_spec (entryNameLen bytes pos)).1
  have isBehind : behind bytes pos = pos + entryRecLen bytes pos := rfl
  have whole := Nat.div_add_mod' size blkSize
  rw [formed.whole, Nat.add_zero] at whole
  by_cases someBytes : 0 < blkSize
  · have isBlock : pos / blkSize < size / blkSize :=
      Nat.div_lt_of_lt_mul (by rw [Nat.mul_comm, whole]; exact below)
    rw [inBlock] at isBlock
    have ends := (Nat.div_lt_iff_lt_mul someBytes).mp isBlock
    omega
  · have noBytes : blkSize = 0 := by omega
    rw [noBytes, Nat.mul_zero] at whole
    omega

theorem recLen_pos (visits : Visits bytes size pos) (below : pos < size) :
    entryRecLen bytes pos ≠ 0 := by
  have inside := (formed.bounds visits below).1
  have isBehind : behind bytes pos = pos + entryRecLen bytes pos := rfl
  omega

end RecordsFormed

end Entries

/-- Two memories agree on the bytes of a directory. -/
def AgreeBelow (size : Nat) (bytes other : Memory UInt8) : Prop :=
  ∀ address < size, other address = bytes address

namespace AgreeBelow

variable {bytes other : Memory UInt8} {blkSize size pos : Nat} {name : CString}
  {ino : BitVec 32}

theorem trans {last : Memory UInt8} (first : AgreeBelow size bytes other)
    (second : AgreeBelow size other last) : AgreeBelow size bytes last :=
  fun address below => (second address below).trans (first address below)

section Formed

variable (agree : AgreeBelow size bytes other)
  (formed : RecordsFormed bytes blkSize size)

include agree formed

theorem record (visits : Visits bytes size pos) (below : pos < size) :
    SameEntry bytes other pos ∧
      entryRecLen other pos = entryRecLen bytes pos := by
  obtain ⟨inside, inSize⟩ := formed.bounds visits below
  refine ⟨.of_bytes fun address lower upper _ _ => agree address (by omega), ?_⟩
  exact Memory.number_congr fun index _ => agree (pos + 4 + index) (by omega)

theorem chain_iff {passes passesOther : Nat → Prop}
    (inside : ∀ pos, passes pos → pos < size)
    (insideOther : ∀ pos, passesOther pos → pos < size)
    (alike : ∀ pos, Visits bytes size pos → pos < size →
      (passes pos ↔ passesOther pos)) :
    Chain passes (behind bytes) 0 pos ↔
      Chain passesOther (behind other) 0 pos := by
  have next {pos : Nat} (visits : Visits bytes size pos)
      (below : pos < size) :
      behind other pos = behind bytes pos :=
    congrArg (pos + ·) (agree.record formed visits below).2
  constructor
  · refine Chain.congr fun middle before on => ?_
    have visits := visits_of_chain inside before
    have below := inside middle on
    exact ⟨(alike middle visits below).mp on, next visits below⟩
  · intro chain
    induction chain with
    | start =>
      exact .start
    | pass before on ih =>
      have visits := visits_of_chain inside ih
      have below := insideOther _ on
      exact (next visits below).symm ▸ .pass ih ((alike _ visits below).mpr on)

theorem visits_iff : Visits other size pos ↔ Visits bytes size pos :=
  (agree.chain_iff formed (fun _ => id) (fun _ => id) fun _ _ _ => Iff.rfl).symm

theorem formed_other : RecordsFormed other blkSize size where
  whole := formed.whole
  record := fun pos visits below => by
    have visited := (agree.visits_iff formed).mp visits
    obtain ⟨long, aligned, inBlock⟩ := formed.record pos visited below
    obtain ⟨same, sameLen⟩ := agree.record formed visited below
    have next : behind other pos = behind bytes pos :=
      congrArg (pos + ·) sameLen
    exact ⟨by rw [same.nameLen, sameLen]; exact long,
      by rw [sameLen]; exact aligned, by rw [next]; exact inBlock⟩

theorem live_iff : LiveEntry other size pos ↔ LiveEntry bytes size pos := by
  unfold LiveEntry
  rw [agree.visits_iff formed]
  refine and_congr_right fun visits => and_congr_right fun below => ?_
  rw [(agree.record formed visits below).1.inode]

theorem finds_iff :
    LookupFinds other size name ino ↔ LookupFinds bytes size name ino := by
  have alike {pos : Nat}
      (visits : Visits bytes size pos) :
      Skips bytes size name pos ↔ Skips other size name pos := by
    refine and_congr_right fun below => ?_
    obtain ⟨same, sameLen⟩ := agree.record formed visits below
    rw [sameLen, same.hasName_iff]
  refine exists_congr fun pos => ?_
  rw [← agree.chain_iff formed (fun _ skips => skips.1)
    (fun _ skips => skips.1) fun _ visits _ => alike visits]
  refine and_congr_right fun chain => ?_
  have visits : Visits bytes size pos :=
    visits_of_chain (fun _ skips => skips.1) chain
  rw [alike visits]
  unfold lookupResult
  by_cases below : pos < size
  · obtain ⟨same, sameLen⟩ := agree.record formed visits below
    rw [sameLen, same.inode]
  · rw [if_neg fun both => below both.1, if_neg fun both => below both.1]

theorem absent_iff :
    NameAbsent other size name ↔ NameAbsent bytes size name := by
  refine forall_congr' fun pos => ?_
  rw [agree.live_iff formed]
  refine imp_congr_right fun live => ?_
  rw [(agree.record formed live.1 live.2.1).1.hasName_iff]

end Formed

end AgreeBelow

/--
A new entry at `place` in the record at `pos`: nothing outside the record has
changed, and what is in front of the new entry is the entry that was there.
-/
structure Inserted
    (bytes after : Memory UInt8) (size pos place : Nat)
    (entry : NewEntry) : Prop where
  outside : ∀ address < size, address < pos ∨ behind bytes pos ≤ address →
    after address = bytes address
  front : place = pos ∧ entryInode bytes pos = 0 ∨
      entryInode bytes pos ≠ 0 ∧
        place = pos + entrySize (entryNameLen bytes pos) ∧
        behind after pos = place ∧ SameEntry bytes after pos
  ends : behind after place = behind bytes pos
  room : place + entry.size ≤ behind bytes pos
  inode : entryInode after place = entry.ino
  nameLen : entryNameLen after place = entry.name.strlen
  fileType : after (place + 7) = entry.fileType
  name : Agrees after (place + 8) entry.name.chars entry.name.strlen

namespace Inserted

variable {bytes after : Memory UInt8} {blkSize size pos place other : Nat}
  {entry : NewEntry} {name : CString}

section Records

variable (inserted : Inserted bytes after size pos place entry)
  (formed : RecordsFormed bytes blkSize size) (visits : Visits bytes size pos)
  (below : pos < size)

include inserted

theorem pos_le_place : pos ≤ place := by
  rcases inserted.front with ⟨rfl, -⟩ | ⟨-, isPlace, -⟩ <;> omega

include formed visits

theorem kept_other (visitsOther : Visits bytes size other)
    (belowOther : other < size) (differs : other ≠ pos) :
    SameEntry bytes after other ∧
      entryRecLen after other = entryRecLen bytes other := by
  obtain ⟨inside, inSize⟩ := formed.bounds visitsOther belowOther
  have same (address : Nat) (lower : other ≤ address)
      (upper : address < behind bytes other) :
      after address = bytes address := by
    refine inserted.outside address (by omega) ?_
    rcases Nat.lt_or_gt_of_ne differs with isFront | isBack
    · have order := visitsOther.order visits isFront
      exact .inl (by omega)
    · have order := visits.order visitsOther isBack
      exact .inr (by omega)
  refine ⟨.of_bytes fun address lower upper _ _ =>
    same address lower (by omega), ?_⟩
  exact Memory.number_congr fun index _ =>
    same (other + 4 + index) (by omega) (by omega)

include below

theorem visits_after (visitsOther : Visits bytes size other) :
    Visits after size other := by
  induction visitsOther with
  | start =>
    exact .start
  | @pass middle before on ih =>
    by_cases isPos : middle = pos
    · subst isPos
      have ends := inserted.ends
      have room := (formed.bounds visits below).2
      have isRoom := inserted.room
      have someSize := (entrySize_spec entry.name.strlen).1
      have isSize : entry.size = entrySize entry.name.strlen := rfl
      rcases inserted.front with ⟨isPlace, -⟩ | ⟨-, -, next, -⟩
      · rw [isPlace] at ends
        exact ends ▸ .pass ih on
      · have atPlace : Visits after size place := next ▸ .pass ih on
        exact ends ▸ .pass atPlace (by omega)
    · have same := (inserted.kept_other formed visits before on isPos).2
      have next : behind after middle = behind bytes middle :=
        congrArg (middle + ·) same
      exact next ▸ .pass ih on

theorem visits_before (visitsOther : Visits after size other) :
    other = place ∨ Visits bytes size other := by
  have atEnd : Visits bytes size (behind bytes pos) := .pass visits below
  induction visitsOther with
  | start =>
    exact .inr .start
  | @pass middle before on ih =>
    rcases ih with isPlace | visitsMiddle
    · rw [isPlace, inserted.ends]
      exact .inr atEnd
    · by_cases isPos : middle = pos
      · subst isPos
        rcases inserted.front with ⟨isPlace, -⟩ | ⟨-, -, next, -⟩
        · have ends := inserted.ends
          rw [isPlace] at ends
          rw [ends]
          exact .inr atEnd
        · exact .inl next
      · have same := (inserted.kept_other formed visits visitsMiddle on isPos).2
        have next : behind after middle = behind bytes middle :=
          congrArg (middle + ·) same
        rw [next]
        exact .inr (.pass visitsMiddle on)

theorem formed_after : RecordsFormed after blkSize size where
  whole := formed.whole
  record := fun other visitsOther belowOther => by
    obtain ⟨long, aligned, inBlock⟩ := formed.record pos visits below
    have isBehind : behind bytes pos = pos + entryRecLen bytes pos := rfl
    have isSize : entry.size = entrySize entry.name.strlen := rfl
    have newSize := entrySize_spec entry.name.strlen
    have oldSize := entrySize_spec (entryNameLen bytes pos)
    have room := inserted.room
    have ends := inserted.ends
    have lePlace := inserted.pos_le_place
    have cut {middle : Nat} (lower : pos ≤ middle)
        (upper : middle ≤ behind bytes pos - 1) :
        pos / blkSize = middle / blkSize := by
      have first := @Nat.div_le_div_right _ _ blkSize lower
      have second := @Nat.div_le_div_right _ _ blkSize upper
      omega
    by_cases isPlace : other = place
    · subst isPlace
      have isEnd : other + entryRecLen after other = behind bytes pos := ends
      refine ⟨?_, ?_, ?_⟩
      · rw [inserted.nameLen]
        omega
      · rcases inserted.front with ⟨isSame, -⟩ | ⟨-, isTmp, -⟩ <;> omega
      · rw [ends, ← cut lePlace (by omega), inBlock]
    · have visited :=
        (inserted.visits_before formed visits below visitsOther).resolve_left
          isPlace
      by_cases isPos : other = pos
      · subst isPos
        rcases inserted.front with ⟨isSame, -⟩ | ⟨-, isTmp, next, same⟩
        · exact absurd isSame.symm isPlace
        · have isNext : other + entryRecLen after other = place := next
          refine ⟨?_, ?_, ?_⟩
          · rw [same.nameLen]
            omega
          · omega
          · exact cut (by omega) (by omega)
      · obtain ⟨same, sameLen⟩ :=
          inserted.kept_other formed visits visited belowOther isPos
        obtain ⟨long, aligned, inBlock⟩ :=
          formed.record other visited belowOther
        have next : behind after other = behind bytes other :=
          congrArg (other + ·) sameLen
        exact ⟨by rw [same.nameLen, sameLen]; exact long,
          by rw [sameLen]; exact aligned, by rw [next]; exact inBlock⟩

theorem kept (live : LiveEntry bytes size other) :
    LiveEntry after size other ∧ SameEntry bytes after other := by
  obtain ⟨visitsOther, belowOther, isLive⟩ := live
  have same : SameEntry bytes after other := by
    by_cases isPos : other = pos
    · subst isPos
      rcases inserted.front with ⟨-, dead⟩ | ⟨-, -, -, same⟩
      · exact absurd dead isLive
      · exact same
    · exact (inserted.kept_other formed visits visitsOther belowOther isPos).1
  refine ⟨⟨inserted.visits_after formed visits below visitsOther,
    belowOther, ?_⟩, same⟩
  rw [same.inode]
  exact isLive

theorem search_after (otherName : ¬ HasName after name place)
    (chain : Chain (Skips bytes size name) (behind bytes) 0 other) :
    Chain (Skips after size name) (behind after) 0 other := by
  have inside := (formed.bounds visits below).2
  have room := inserted.room
  have isSize : entry.size = entrySize entry.name.strlen := rfl
  have newSize := (entrySize_spec entry.name.strlen).1
  have isEnd : place + entryRecLen after place = behind bytes pos :=
    inserted.ends
  have atPlace : Skips after size name place := ⟨by omega, by omega, otherName⟩
  induction chain with
  | start =>
    exact .start
  | @pass middle before on ih =>
    obtain ⟨belowMiddle, goesOn, noName⟩ := on
    by_cases isPos : middle = pos
    · subst isPos
      rcases inserted.front with ⟨isPlace, -⟩ | ⟨-, isTmp, next, same⟩
      · subst isPlace
        exact inserted.ends ▸ .pass ih atPlace
      · have isNext : middle + entryRecLen after middle = place := next
        have tmpSize := (entrySize_spec (entryNameLen bytes middle)).1
        have skips : Skips after size name middle :=
          ⟨belowMiddle, by omega, fun has => noName (same.hasName_iff.mp has)⟩
        have toPlace : Chain (Skips after size name) (behind after) 0 place :=
          next ▸ .pass ih skips
        exact inserted.ends ▸ .pass toPlace atPlace
    · obtain ⟨same, sameLen⟩ :=
        inserted.kept_other formed visits
          (visits_of_chain (fun _ skips => skips.1) before) belowMiddle
          isPos
      have next : behind after middle = behind bytes middle :=
        congrArg (middle + ·) sameLen
      exact next ▸ .pass ih
        ⟨belowMiddle, sameLen.symm ▸ goesOn,
          fun has => noName (same.hasName_iff.mp has)⟩

theorem finds_after {ino : BitVec 32} (otherName : ¬ HasName after name place)
    (isLive : ino ≠ 0) (finds : LookupFinds bytes size name ino) :
    LookupFinds after size name ino := by
  obtain ⟨last, chain, stops, isResult⟩ := finds
  unfold lookupResult at isResult
  split at isResult
  next isRecord =>
    obtain ⟨belowLast, goesOn⟩ := isRecord
    have found : HasName bytes name last :=
      Classical.byContradiction fun noName => stops ⟨belowLast, goesOn, noName⟩
    have visitsLast : Visits bytes size last :=
      visits_of_chain (fun _ skips => skips.1) chain
    have live : LiveEntry bytes size last :=
      ⟨visitsLast, belowLast, by rw [isResult]; exact isLive⟩
    obtain ⟨liveAfter, same⟩ := inserted.kept formed visits below live
    have formedAfter := inserted.formed_after formed visits below
    refine ⟨last, inserted.search_after formed visits below otherName chain,
      fun skips => skips.2.2 (same.hasName_iff.mpr found), ?_⟩
    unfold lookupResult
    rw [if_pos ⟨belowLast, formedAfter.recLen_pos liveAfter.1 belowLast⟩,
      same.inode, isResult]
  next notRecord => exact absurd isResult.symm isLive

theorem finds_new (named : entry.name.chars ≠ [])
    (absent : NameAbsent bytes size entry.name)
    (chain : Chain (Refuses bytes size entry.size) (behind bytes) 0 pos)
    (hasRoom : HasRoom bytes entry.size pos) :
    LookupFinds after size entry.name entry.ino := by
  have inside := (formed.bounds visits below).2
  have room := inserted.room
  have isSize : entry.size = entrySize entry.name.strlen := rfl
  have newSize := (entrySize_spec entry.name.strlen).1
  have isEnd : place + entryRecLen after place = behind bytes pos :=
    inserted.ends
  have isNew : HasName after entry.name place :=
    ⟨inserted.nameLen, named, inserted.name⟩
  -- A record with the name that is passed by would be dead and have room.
  have toPos : Chain (Skips after size entry.name) (behind after) 0 pos := by
    refine chain.congr fun middle before refuses => ?_
    have visitsMiddle : Visits bytes size middle :=
      visits_of_chain (fun _ on => on.1) before
    have isOther : middle ≠ pos := by
      rintro rfl
      exact refuses.2 hasRoom
    obtain ⟨same, sameLen⟩ :=
      inserted.kept_other formed visits visitsMiddle refuses.1 isOther
    have goesOn := formed.recLen_pos visitsMiddle refuses.1
    refine ⟨⟨refuses.1, sameLen.symm ▸ goesOn, fun has => ?_⟩,
      congrArg (middle + ·) sameLen⟩
    have had := same.hasName_iff.mp has
    by_cases isLive : entryInode bytes middle = 0
    · have long := (formed.record middle visitsMiddle refuses.1).long
      rw [had.1] at long
      exact refuses.2 ⟨long, fun live => absurd isLive live⟩
    · exact absent middle ⟨visitsMiddle, refuses.1, isLive⟩ had
  have toPlace :
      Chain (Skips after size entry.name) (behind after) 0 place := by
    rcases inserted.front with ⟨rfl, -⟩ | ⟨isLive, isTmp, next, same⟩
    · exact toPos
    · have isNext : pos + entryRecLen after pos = place := next
      have tmpSize := (entrySize_spec (entryNameLen bytes pos)).1
      have noName := absent pos ⟨visits, below, isLive⟩
      exact next ▸ .pass toPos
        ⟨below, by omega, fun has => noName (same.hasName_iff.mp has)⟩
  refine ⟨place, toPlace, fun skips => skips.2.2 isNew, ?_⟩
  unfold lookupResult
  rw [if_pos ⟨by omega, by omega⟩, inserted.inode]

end Records

end Inserted

section Bytes

variable {bytes : Memory UInt8} {size pos place : Nat} {entry : NewEntry}

/-- The assignments to an entry change its fields and no more bytes. -/
structure Placed
    (bytes after : Memory UInt8) (place : Nat)
    (entry : NewEntry) : Prop where
  outside : ∀ address,
    address < place ∨ place + 8 + entry.name.strlen < address →
      after address = bytes address
  terminator : after (place + 8 + entry.name.strlen) = 0
  recLen : entryRecLen after place = entryRecLen bytes place
  inode : entryInode after place = entry.ino
  nameLen : entryNameLen after place = entry.name.strlen
  fileType : after (place + 7) = entry.fileType
  name : Agrees after (place + 8) entry.name.chars entry.name.strlen

/-- The assignments of `inode_link`, for a name of at most 255 bytes. -/
theorem placedBytes_placed (bytes : Memory UInt8) (place : Nat)
    (short : entry.name.strlen ≤ maxFileName) :
    Placed bytes (placedBytes bytes place entry) place entry where
  outside := fun address outside => by
    unfold placedBytes
    rw [Memory.copy_outside (by omega), Memory.copy_outside (by omega),
      Memory.copy_outside (by omega), Memory.copy_outside (by omega)]
  terminator := by
    unfold placedBytes
    rw [Memory.copy_inside (by omega) (by omega)]
    have isIndex : 0 + (place + 8 + entry.name.strlen - (place + 8)) =
          entry.name.chars.length := by
      unfold CString.strlen
      omega
    rw [isIndex]
    show entry.name.chars.getD entry.name.chars.length 0 = 0
    rw [List.getD_eq_getElem?_getD, List.getElem?_eq_none (Nat.le_refl _)]
    rfl
  recLen := by
    unfold placedBytes entryRecLen
    rw [Memory.number_copy_outside _ _ (by omega),
      Memory.number_copy_outside _ _ (by omega),
      Memory.number_copy_outside _ _ (by omega),
      Memory.number_copy_outside _ _ (by omega)]
  inode := by
    unfold placedBytes entryInode
    rw [Memory.number_copy_outside _ _ (by omega),
      Memory.number_copy_outside _ _ (by omega),
      Memory.number_copy_outside _ _ (by omega), Memory.number_copy_digits]
    have inWord : entry.ino.toNat < 256 ^ 4 := entry.ino.isLt
    rw [Nat.mod_eq_of_lt inWord, BitVec.ofNat_toNat, BitVec.setWidth_eq]
  nameLen := by
    unfold placedBytes entryNameLen
    rw [Memory.number_copy_outside _ _ (by omega),
      Memory.number_copy_outside _ _ (by omega), Memory.number_copy_digits]
    unfold maxFileName at short
    exact Nat.mod_eq_of_lt (by omega)
  fileType := by
    unfold placedBytes
    rw [Memory.copy_outside (by omega),
      Memory.copy_inside (by omega) (by omega)]
  name := fun index below => by
    unfold placedBytes
    rw [Memory.copy_inside (by omega) (by omega), Nat.zero_add,
      Nat.add_sub_cancel_left]
    rfl

/-- A record split in two changes the two lengths and no more bytes. -/
structure Split (bytes after : Memory UInt8) (pos tmp : Nat) : Prop where
  outside : ∀ address,
    address ≠ pos + 4 → address ≠ pos + 5 → address ≠ pos + tmp + 4 →
      address ≠ pos + tmp + 5 → after address = bytes address
  front : entryRecLen after pos = tmp
  back : entryRecLen after (pos + tmp) = entryRecLen bytes pos - tmp

theorem splitBytes_split
    (long : entrySize (entryNameLen bytes pos) ≤ entryRecLen bytes pos) :
    Split bytes (splitBytes bytes pos) pos
      (entrySize (entryNameLen bytes pos)) := by
  have tmpSize := (entrySize_spec (entryNameLen bytes pos)).1
  have inHalf := entryRecLen_lt bytes pos
  unfold splitBytes
  refine ⟨fun address first second third fourth => ?_, ?_, ?_⟩
  · rw [Memory.copy_outside (by omega), Memory.copy_outside (by omega)]
  · unfold entryRecLen
    rw [Memory.number_copy_outside _ _ (by omega), Memory.number_copy_digits]
    exact Nat.mod_eq_of_lt (by omega)
  · rw [entryRecLen, Memory.number_copy_digits]
    exact Nat.mod_eq_of_lt (by omega)

/--
The terminator of the new name overwrites the first byte of the next record's
inode number: the new entry fills its record to the last byte.
-/
def ClobbersAt (bytes : Memory UInt8) (size : Nat) (entry : NewEntry)
    (pos : Nat) : Prop :=
  placeAt bytes pos + 8 + entry.name.strlen = behind bytes pos ∧
    behind bytes pos < size ∧ bytes (behind bytes pos) ≠ 0

/-- What `inode_link` writes where it clobbers nothing. -/
theorem linkedBytes_inserted {blkSize : Nat}
    (formed : RecordsFormed bytes blkSize size) (visits : Visits bytes size pos)
    (below : pos < size) (short : entry.name.strlen ≤ maxFileName)
    (hasRoom : HasRoom bytes entry.size pos)
    (clean : ¬ ClobbersAt bytes size entry pos) :
    Inserted bytes (linkedBytes bytes pos entry) size pos
      (placeAt bytes pos) entry := by
  have long := (formed.record pos visits below).long
  have oldSize := (entrySize_spec (entryNameLen bytes pos)).1
  have newSize := (entrySize_spec entry.name.strlen).1
  have isSize : entry.size = entrySize entry.name.strlen := rfl
  have isBehind : behind bytes pos = pos + entryRecLen bytes pos := rfl
  have clean' : placeAt bytes pos + 8 + entry.name.strlen = behind bytes pos →
        behind bytes pos < size → bytes (behind bytes pos) = 0 :=
    fun fills next =>
      Classical.byContradiction fun notZero => clean ⟨fills, next, notZero⟩
  have kept {base after : Memory UInt8}
      (placed : Placed base after (placeAt bytes pos) entry)
      (lePlace : pos ≤ placeAt bytes pos)
      (room : placeAt bytes pos + entry.size ≤ behind bytes pos)
      (address : Nat)
      (inSize : address < size)
      (outside : address < pos ∨ behind bytes pos ≤ address)
      (same : base address = bytes address) :
      after address = bytes address := by
    by_cases isNul : address = placeAt bytes pos + 8 + entry.name.strlen
    · have isNext : address = behind bytes pos := by omega
      have isZero := clean' (by omega) (by omega)
      rw [isNul, placed.terminator, ← isNul, isNext, isZero]
    · rw [placed.outside address (by omega), same]
  unfold linkedBytes
  by_cases isLive : entryInode bytes pos ≠ 0
  · have isPlace :
        placeAt bytes pos = pos + entrySize (entryNameLen bytes pos) :=
      if_pos isLive
    have wide := hasRoom.2 isLive
    have split := splitBytes_split long
    have placed :=
      placedBytes_placed (splitBytes bytes pos) (placeAt bytes pos) short
    rw [if_pos isLive]
    have sameFront (address : Nat) (lower : pos ≤ address)
        (upper : address < pos + 8 + entryNameLen bytes pos)
        (notLow : address ≠ pos + 4)
        (notHigh : address ≠ pos + 5) :
        placedBytes (splitBytes bytes pos) (placeAt bytes pos) entry address =
          bytes address := by
      rw [placed.outside address (by omega),
        split.outside address notLow notHigh (by omega) (by omega)]
    have frontLen : entryRecLen
            (placedBytes (splitBytes bytes pos) (placeAt bytes pos) entry)
            pos =
          entrySize (entryNameLen bytes pos) := by
      rw [← split.front]
      exact Memory.number_congr fun index _ =>
        placed.outside (pos + 4 + index) (by omega)
    have backLen := placed.recLen
    rw [isPlace, split.back, ← isPlace] at backLen
    refine
      { outside := fun address inSize outside => ?_
        front := .inr ⟨isLive, isPlace, ?_, .of_bytes sameFront⟩
        ends := ?_
        room := by omega
        inode := placed.inode
        nameLen := placed.nameLen
        fileType := placed.fileType
        name := placed.name }
    · refine kept placed (by omega) (by omega) address inSize outside ?_
      exact split.outside address (by omega) (by omega) (by omega) (by omega)
    · rw [behind, frontLen, isPlace]
    · rw [behind, backLen]
      omega
  · have isDead : entryInode bytes pos = 0 := Classical.not_not.mp isLive
    have isPlace : placeAt bytes pos = pos := if_neg isLive
    have wide := hasRoom.1
    have placed := placedBytes_placed bytes (placeAt bytes pos) short
    rw [if_neg isLive]
    refine
      { outside := fun address inSize outside =>
          kept placed (by omega) (by omega) address inSize outside rfl
        front := .inl ⟨isPlace, isDead⟩
        ends := ?_
        room := by omega
        inode := placed.inode
        nameLen := placed.nameLen
        fileType := placed.fileType
        name := placed.name }
    rw [behind, placed.recLen, isPlace]
    rfl

/--
A new entry clobbers the record behind it: the first record with room is left
without a byte for the terminator.
-/
def Clobbers (bytes : Memory UInt8) (size : Nat) (entry : NewEntry) : Prop :=
  ∃ pos, Chain (Refuses bytes size entry.size) (behind bytes) 0 pos ∧
    pos < size ∧ HasRoom bytes entry.size pos ∧ ClobbersAt bytes size entry pos

theorem AgreeBelow.link_iff {other : Memory UInt8} {blkSize : Nat}
    (agree : AgreeBelow size bytes other)
    (formed : RecordsFormed bytes blkSize size) (below : pos < size) :
    (Chain (Refuses bytes size entry.size) (behind bytes) 0 pos ∧
        HasRoom bytes entry.size pos ↔
      Chain (Refuses other size entry.size) (behind other) 0 pos ∧
        HasRoom other entry.size pos) ∧
      (Visits bytes size pos →
        (ClobbersAt bytes size entry pos ↔
          ClobbersAt other size entry pos)) := by
  have sameRoom {middle : Nat} (visits : Visits bytes size middle)
      (belowMiddle : middle < size) :
      HasRoom bytes entry.size middle ↔ HasRoom other entry.size middle := by
    obtain ⟨same, sameLen⟩ := agree.record formed visits belowMiddle
    unfold HasRoom
    rw [sameLen, same.inode, same.nameLen]
  have sameChain : Chain (Refuses bytes size entry.size) (behind bytes) 0 pos ↔
        Chain (Refuses other size entry.size) (behind other) 0 pos := by
    refine agree.chain_iff formed (fun _ refuses => refuses.1)
      (fun _ refuses => refuses.1) fun middle visits belowMiddle => ?_
    unfold Refuses
    rw [sameRoom visits belowMiddle]
  refine ⟨?_, fun visits => ?_⟩
  · rw [← sameChain]
    refine and_congr_right fun chain => ?_
    exact sameRoom (visits_of_chain (fun _ refuses => refuses.1) chain) below
  · obtain ⟨same, sameLen⟩ := agree.record formed visits below
    have next : behind other pos = behind bytes pos :=
      congrArg (pos + ·) sameLen
    unfold ClobbersAt placeAt
    rw [same.inode, same.nameLen, next]
    refine and_congr_right fun _ => and_congr_right fun inSize => ?_
    rw [agree _ inSize]

theorem linkedBytes_clobbers (visits : Visits bytes size pos)
    (below : pos < size) (short : entry.name.strlen ≤ maxFileName)
    (clobbers : ClobbersAt bytes size entry pos) :
    LiveEntry bytes size (behind bytes pos) ∧
      entryInode (linkedBytes bytes pos entry) (behind bytes pos) ≠
        entryInode bytes (behind bytes pos) := by
  obtain ⟨fills, inSize, notZero⟩ := clobbers
  have isByte (memory : Memory UInt8)
      (first : Nat) :
      (entryInode memory first).toNat % 256 = (memory first).toNat := by
    have inWord : memory.number first 4 < 2 ^ 32 :=
      Memory.number_lt memory first 4
    have isSum : memory.number first 4 =
          (memory first).toNat + 256 * memory.number (first + 1) 3 :=
      rfl
    have small := (memory first).toNat_lt
    unfold entryInode
    rw [BitVec.toNat_ofNat, Nat.mod_eq_of_lt inWord, isSum]
    omega
  have isTerminator : linkedBytes bytes pos entry (behind bytes pos) = 0 := by
    rw [← fills]
    exact (placedBytes_placed _ (placeAt bytes pos) short).terminator
  refine ⟨⟨.pass visits below, inSize, fun isDead => notZero ?_⟩,
    fun same => notZero ?_⟩
  · have isZero := isByte bytes (behind bytes pos)
    rw [isDead] at isZero
    exact UInt8.toNat_inj.mp isZero.symm
  · have isZero := isByte bytes (behind bytes pos)
    rw [← same, isByte, isTerminator] at isZero
    exact UInt8.toNat_inj.mp isZero.symm

end Bytes

end Idylla.Ext2
