import Mathlib.Algebra.GroupWithZero.Nat
import Idylla.Ext2.DirectoryRecords

namespace Idylla.Vfs

open Idylla.Lib Idylla.Ext2

/-!
# Listing a directory

`ramfs_getdents` and `ext2_getdents` fill the buffer of `sys_getdents`, whose
size they get as `len`.  The one of ext2 compares the end of a record with it;
that of ramfs takes the size of a `size_t` off for every record, whatever the
record takes.
-/

/-- `sizeof(struct dirent)` -/
def sizeofDirent : Nat := 268

/-- `sizeof(sizeof(struct dirent))`, that of a `size_t`. -/
def sizeofSizeof : Nat := 4

/-- `sizeof(struct ramfs_dentry)` -/
def sizeofRamfsDentry : Nat := 260

/-- A name and the inode number under it. -/
structure NamedInode where
  name : List UInt8
  ino : BitVec 32

/--
A directory of ramfs: `size` bytes of data, with what a `struct ramfs_dentry`
at each byte of it reads as, be that the start of an entry or not.
-/
structure RamfsDirectory where
  data : Nat → NamedInode
  size : Nat

/-- `d_reclen`, a `uint16_t`, behind a name of so many bytes. -/
def ramfsReclen (nameLen : Nat) : Nat :=
  direntSize nameLen % 2 ^ 16

/-- What `ramfs_getdents` writes for an entry, and `*offset` behind it. -/
def NamedInode.dirent (ent : NamedInode) (offset : Nat) : Dirent where
  ino := ent.ino
  off := BitVec.ofNat 32 offset
  reclen := ramfsReclen ent.name.length
  name := ent.name

namespace RamfsDirectory

variable (directory : RamfsDirectory)

/-- The loop of `ramfs_getdents`, given the most turns that it may take. -/
def getdentsLoop : Nat → Nat → GetdentsVars → GetdentsVars
  | 0, _, vars => vars
  | turns + 1, len, vars =>
    if sizeofDirent ≤ len ∧ vars.offset < directory.size then
      let ent := directory.data vars.offset
      let offset := vars.offset + sizeofRamfsDentry
      if ent.ino = 0 then
        getdentsLoop turns len { vars with offset := offset }
      else
        getdentsLoop turns (len - sizeofSizeof)
          { offset := offset
            err := vars.err + BitVec.ofNat 32 (ramfsReclen ent.name.length)
            dirents := vars.dirents ++ [ent.dirent offset] }
    else
      vars

/-- `ramfs_getdents`, whose loop takes fewer turns than there are bytes. -/
def getdents (len : BitVec 32) (offset : Nat) : GetdentsVars :=
  directory.getdentsLoop (directory.size - offset) len.toNat ⟨offset, 0, []⟩

end RamfsDirectory

/-- A directory of one of the two filesystems. -/
inductive Listable where
  | ramfs (directory : RamfsDirectory)
  | ext2 (kalloc : Kalloc) (bpi : Nat) (heap : Memory Block)
      (directory : Directory)

/-- `vnode->ops->getdents`; ext2 gets the most turns that its loop may take. -/
def Listable.getdents (turns : Nat) (len : BitVec 32)
    (offset : Nat) : Listable → Except Fault GetdentsVars
  | .ramfs directory => .ok (directory.getdents len offset)
  | .ext2 kalloc bpi heap directory =>
    ext2Getdents kalloc bpi heap turns directory len offset

namespace RamfsDirectory

variable (directory : RamfsDirectory)

/-- The entries that are alive, at so many places from a position on. -/
def entriesFrom : Nat → Nat → List NamedInode
  | 0, _ => []
  | turns + 1, offset =>
    if offset < directory.size then
      if (directory.data offset).ino = 0 then
        entriesFrom turns (offset + sizeofRamfsDentry)
      else
        directory.data offset :: entriesFrom turns (offset + sizeofRamfsDentry)
    else
      []

/-- The entries from a position on that are alive. -/
def entries (offset : Nat) : List NamedInode :=
  directory.entriesFrom (directory.size - offset) offset

variable {directory}

theorem entriesFrom_end {offset : Nat} (atEnd : directory.size ≤ offset)
    (turns : Nat) : directory.entriesFrom turns offset = [] := by
  cases turns with
  | zero =>
    rfl
  | succ turns =>
    exact if_neg (Nat.not_lt.mpr atEnd)

theorem entriesFrom_enough {turns more offset : Nat}
    (enough : directory.size - offset ≤ turns)
    (enoughMore : directory.size - offset ≤ more) :
    directory.entriesFrom turns offset = directory.entriesFrom more offset := by
  induction turns generalizing more offset with
  | zero =>
    rw [entriesFrom_end (by omega), entriesFrom_end (by omega)]
  | succ turns ih =>
    by_cases inside : offset < directory.size
    · obtain ⟨moreLeft, rfl⟩ : ∃ left, more = left + 1 := ⟨more - 1, by omega⟩
      have rest :=
        @ih moreLeft (offset + sizeofRamfsDentry)
          (by unfold sizeofRamfsDentry; omega)
          (by unfold sizeofRamfsDentry; omega)
      unfold entriesFrom
      rw [rest]
    · rw [entriesFrom_end (by omega), entriesFrom_end (by omega)]

theorem entries_eq {offset : Nat} (inside : offset < directory.size) :
    directory.entries offset =
      if (directory.data offset).ino = 0 then
        directory.entries (offset + sizeofRamfsDentry)
      else
        directory.data offset ::
          directory.entries (offset + sizeofRamfsDentry) := by
  obtain ⟨left, isLeft⟩ : ∃ left, directory.size - offset = left + 1 :=
    ⟨directory.size - offset - 1, by omega⟩
  have rest : directory.entriesFrom left (offset + sizeofRamfsDentry) =
        directory.entries (offset + sizeofRamfsDentry) :=
    entriesFrom_enough (by unfold sizeofRamfsDentry; omega) (Nat.le_refl _)
  show directory.entriesFrom (directory.size - offset) offset = _
  rw [isLeft]
  unfold entriesFrom
  rw [if_pos inside, rest]

end RamfsDirectory

/-- How many entries `ramfs_getdents` lists at most. -/
def ramfsLimit (len : Nat) : Nat :=
  if sizeofDirent ≤ len then (len - sizeofDirent) / sizeofSizeof + 1 else 0

theorem ramfsLimit_succ {len : Nat} (enough : sizeofDirent ≤ len) :
    ramfsLimit len = ramfsLimit (len - sizeofSizeof) + 1 := by
  unfold sizeofDirent at enough
  unfold ramfsLimit sizeofSizeof sizeofDirent
  rw [if_pos enough]
  split <;> omega

/-- What a `struct dirent` says of an entry. -/
def namedInode (dirent : Dirent) : NamedInode where
  name := dirent.name
  ino := dirent.ino

/-- What a call of `ramfs_getdents` has added, and where it goes on. -/
structure RamfsListed
    (directory : RamfsDirectory) (len : Nat) (vars result : GetdentsVars)
    (dirents : List Dirent) : Prop where
  added : result.dirents = vars.dirents ++ dirents
  records : dirents.map namedInode =
      (directory.entries vars.offset).take (ramfsLimit len)
  reclens : ∀ dirent ∈ dirents, dirent.reclen = ramfsReclen dirent.name.length
  err : result.err = vars.err + BitVec.ofNat 32 (dirents.map Dirent.reclen).sum
  left : directory.entries result.offset =
      (directory.entries vars.offset).drop (ramfsLimit len)

theorem RamfsDirectory.getdentsLoop_listed
    (directory : RamfsDirectory) (turns len : Nat) (vars : GetdentsVars)
    (enough : directory.size - vars.offset ≤ turns) :
    ∃ dirents,
      RamfsListed directory len vars
        (directory.getdentsLoop turns len vars) dirents := by
  -- Where the loop stops it has listed nothing more.
  have stops (len : Nat) (vars : GetdentsVars)
      (nothing : ramfsLimit len = 0 ∨ directory.entries vars.offset = []) :
      RamfsListed directory len vars vars [] := by
    refine ⟨(List.append_nil _).symm, ?_, fun _ isMember => ?_, ?_, ?_⟩
    · rcases nothing with isZero | isNil
      · rw [isZero]
        rfl
      · rw [isNil, List.take_nil]
        rfl
    · exact absurd isMember List.not_mem_nil
    · exact (BitVec.add_zero _).symm
    · rcases nothing with isZero | isNil
      · rw [isZero]
        rfl
      · rw [isNil, List.drop_nil]
  induction turns generalizing len vars with
  | zero =>
    exact ⟨[], stops len vars (.inr (entriesFrom_end (by omega) _))⟩
  | succ turns ih =>
    unfold getdentsLoop
    by_cases goesOn : sizeofDirent ≤ len ∧ vars.offset < directory.size
    · rw [if_pos goesOn]
      have entries := directory.entries_eq goesOn.2
      have fewer :
          directory.size - (vars.offset + sizeofRamfsDentry) ≤ turns := by
        unfold sizeofRamfsDentry
        omega
      by_cases isDead : (directory.data vars.offset).ino = 0
      · rw [if_pos isDead]
        rw [if_pos isDead] at entries
        obtain ⟨dirents, added, records, reclens, err, left⟩ :=
          ih len { vars with offset := vars.offset + sizeofRamfsDentry } fewer
        exact ⟨dirents, added,
          records.trans (congrArg (List.take (ramfsLimit len)) entries.symm),
          reclens, err,
          left.trans (congrArg (List.drop (ramfsLimit len)) entries.symm)⟩
      · rw [if_neg isDead]
        rw [if_neg isDead] at entries
        obtain ⟨dirents, added, records, reclens, err, left⟩ :=
          ih (len - sizeofSizeof)
            { offset := vars.offset + sizeofRamfsDentry
              err :=
                vars.err +
                  BitVec.ofNat 32
                    (ramfsReclen (directory.data vars.offset).name.length)
              dirents :=
                vars.dirents ++
                  [(directory.data vars.offset).dirent
                    (vars.offset + sizeofRamfsDentry)] }
            fewer
        refine
          ⟨(directory.data vars.offset).dirent
            (vars.offset + sizeofRamfsDentry) :: dirents, ?_, ?_, ?_, ?_, ?_⟩
        · rw [added, List.append_assoc]
          rfl
        · rw [entries, ramfsLimit_succ goesOn.1, List.take_succ_cons,
            List.map_cons, records]
          rfl
        · intro dirent isMember
          rcases List.mem_cons.mp isMember with rfl | isLater
          · rfl
          · exact reclens dirent isLater
        · rw [err, List.map_cons, List.sum_cons, BitVec.ofNat_add,
            BitVec.add_assoc]
          rfl
        · rw [entries, ramfsLimit_succ goesOn.1, List.drop_succ_cons]
          exact left
    · rw [if_neg goesOn]
      refine ⟨[], stops len vars ?_⟩
      by_cases enoughLen : sizeofDirent ≤ len
      · exact .inr (entriesFrom_end
          (Nat.not_lt.mp fun inside => goesOn ⟨enoughLen, inside⟩) _)
      · exact .inl (if_neg enoughLen)

/-- How many bytes the records take. -/
def reclens (dirents : List Dirent) : Nat :=
  (dirents.map Dirent.reclen).sum

/--
Every record, up to the end of its name, lies in the first `len` bytes behind
those in front of it, and the count returned is the sum of their sizes.
-/
structure RecordsFit (len : Nat) (result : GetdentsVars) : Prop where
  inside : ∀ before dirent later, result.dirents = before ++ dirent :: later →
      reclens before + (11 + dirent.name.length) ≤ len
  bounded : result.err.toInt ≤ len
  sum : result.err.toInt = reclens result.dirents

theorem toInt_ofNat_eq_iff (total : Nat) :
    (BitVec.ofNat 32 total).toInt = total ↔ total < 2 ^ 31 := by
  rw [BitVec.toInt_eq_toNat_cond, BitVec.toNat_ofNat]
  omega

theorem recordsFit_iff {len : Nat} {result : GetdentsVars}
    (isErr : result.err = BitVec.ofNat 32 (reclens result.dirents)) :
    RecordsFit len result ↔
      (∀ before dirent later, result.dirents = before ++ dirent :: later →
        reclens before + (11 + dirent.name.length) ≤ len) ∧
      reclens result.dirents ≤ len ∧ reclens result.dirents < 2 ^ 31 := by
  have isSum := toInt_ofNat_eq_iff (reclens result.dirents)
  rw [← isErr] at isSum
  constructor
  · rintro ⟨inside, bounded, sum⟩
    exact ⟨inside, by omega, isSum.mp sum⟩
  · rintro ⟨inside, bounded, small⟩
    have sum := isSum.mpr small
    exact ⟨inside, by omega, sum⟩

/-- Entries of ramfs from a place on that fit the buffer. -/
def EntriesFit (len : Nat) : Nat → List NamedInode → Prop
  | start, [] => start ≤ len ∧ start < 2 ^ 31
  | start, record :: rest =>
    start + (11 + record.name.length) ≤ len ∧
      EntriesFit len (start + ramfsReclen record.name.length) rest

theorem entriesFit_iff {len start : Nat} {dirents : List Dirent}
    (isReclen :
      ∀ dirent ∈ dirents, dirent.reclen = ramfsReclen dirent.name.length) :
    EntriesFit len start (dirents.map namedInode) ↔
      (∀ before dirent later, dirents = before ++ dirent :: later →
        start + (reclens before + (11 + dirent.name.length)) ≤ len) ∧
      start + reclens dirents ≤ len ∧ start + reclens dirents < 2 ^ 31 := by
  induction dirents generalizing start with
  | nil =>
    refine ⟨fun both => ⟨fun before dirent later isNil => ?_, both⟩, And.right⟩
    simp at isNil
  | cons first rest ih =>
    have isFirst := isReclen first List.mem_cons_self
    have split (dirents : List Dirent) :
        reclens (first :: dirents) = first.reclen + reclens dirents := rfl
    show _ ∧ _ ↔ _
    rw [ih fun dirent isMember =>
      isReclen dirent (List.mem_cons_of_mem first isMember), split]
    rw [show (namedInode first).name = first.name from rfl, ← isFirst]
    constructor
    · rintro ⟨firstFits, inside, bounded, small⟩
      refine ⟨fun before dirent later isSplit => ?_, by omega, by omega⟩
      cases before with
      | nil =>
        obtain ⟨rfl, -⟩ := List.cons.inj isSplit
        exact Nat.le_trans (by simp [reclens]) firstFits
      | cons front before =>
        obtain ⟨rfl, isRest⟩ := List.cons.inj isSplit
        have fits := inside before dirent later isRest
        rw [split]
        omega
    · rintro ⟨inside, bounded, small⟩
      have firstFits := inside [] first rest rfl
      refine ⟨by simpa [reclens] using firstFits,
        fun before dirent later isRest => ?_, by omega, by omega⟩
      have fits := inside (first :: before) dirent later (by rw [isRest]; rfl)
      rw [split] at fits
      omega

theorem RamfsDirectory.getdents_recordsFit_iff
    (directory : RamfsDirectory) (len : BitVec 32) (offset : Nat) :
    RecordsFit len.toNat (directory.getdents len offset) ↔
      EntriesFit len.toNat 0
        ((directory.entries offset).take (ramfsLimit len.toNat)) := by
  obtain ⟨dirents, added, records, isReclen, err, -⟩ :=
    directory.getdentsLoop_listed (directory.size - offset) len.toNat
      ⟨offset, 0, []⟩ (Nat.le_refl _)
  have isDirents : (directory.getdents len offset).dirents = dirents := added
  have isErr : (directory.getdents len offset).err =
        BitVec.ofNat 32 (reclens dirents) := by
    rw [show (directory.getdents len offset).err = _ from err]
    exact BitVec.zero_add _
  rw [recordsFit_iff (by rw [isErr, isDirents]), isDirents]
  have isRecords : (directory.entries offset).take (ramfsLimit len.toNat) =
        dirents.map namedInode :=
    records.symm
  rw [isRecords, entriesFit_iff isReclen]
  simp only [Nat.zero_add]

/-- Where a record starts, counted from a position. -/
def recordPos (bytes : Memory UInt8) (offset : Nat) : Nat → Nat
  | 0 => offset
  | index + 1 => behind bytes (recordPos bytes offset index)

/-- How many bytes the first records behind a position take when listed. -/
def recordsTotal (bytes : Memory UInt8) (offset : Nat) : Nat → Nat
  | 0 => 0
  | index + 1 =>
    recordsTotal bytes offset index +
      direntSize (entryNameLen bytes (recordPos bytes offset index))

/-- So many records behind a position are listed. -/
def ListsFirst (bytes : Memory UInt8) (size len offset count : Nat) : Prop :=
  ∀ index, index < count →
    recordPos bytes offset index < size ∧
      entryRecLen bytes (recordPos bytes offset index) ≠ 0 ∧
      recordsTotal bytes offset (index + 1) < len

/-- The records that are listed take less than an `int` holds. -/
def TotalsBounded (bytes : Memory UInt8) (size len offset : Nat) : Prop :=
  ∀ count, ListsFirst bytes size len offset count →
    recordsTotal bytes offset count < 2 ^ 31

/-- What the loop of `ext2_getdents` has done after so many records. -/
structure RecordsListed
    (bytes : Memory UInt8) (offset count : Nat)
    (vars : GetdentsVars) : Prop where
  position : vars.offset = recordPos bytes offset count
  total : reclens vars.dirents = recordsTotal bytes offset count
  err : vars.err = BitVec.ofNat 32 (reclens vars.dirents)
  sizes : ∀ dirent ∈ vars.dirents, 11 + dirent.name.length ≤ dirent.reclen

section Records

variable {bytes : Memory UInt8} {size offset count : Nat} {len : BitVec 32}
  {vars : GetdentsVars}

theorem le_direntSize (nameLen : Nat) :
    11 + nameLen ≤ direntSize nameLen ∧ direntSize nameLen ≤ 14 + nameLen := by
  unfold direntSize roundUp
  split <;> omega

theorem reclens_append (dirents later : List Dirent) :
    reclens (dirents ++ later) = reclens dirents + reclens later := by
  unfold reclens
  rw [List.map_append, List.sum_append]

theorem RecordsListed.next (listed : RecordsListed bytes offset count vars) :
    RecordsListed bytes offset (count + 1) (Ext2.listed bytes vars) where
  position := congrArg (behind bytes) listed.position
  total := by
    show reclens (vars.dirents ++ [_]) = _
    rw [reclens_append, listed.total, listed.position]
    rfl
  err := by
    show vars.err + _ = BitVec.ofNat 32 (reclens (vars.dirents ++ [_]))
    rw [reclens_append, BitVec.ofNat_add, listed.err]
    rfl
  sizes := by
    intro dirent isMember
    rcases List.mem_append.mp isMember with isEarlier | isLast
    · exact listed.sizes dirent isEarlier
    · rw [List.mem_singleton.mp isLast]
      rw [List.length_map, List.length_range]
      exact (le_direntSize _).1

theorem RecordsListed.notFull_iff
    (listed : RecordsListed bytes offset count vars)
    (small : recordsTotal bytes offset count < 2 ^ 31) :
    ¬ IsFull len vars.err (entryNameLen bytes vars.offset) ↔
      recordsTotal bytes offset (count + 1) < len.toNat := by
  have nameLen := entryNameLen_lt bytes vars.offset
  have size := (le_direntSize (entryNameLen bytes vars.offset)).2
  unfold IsFull
  rw [BitVec.le_def, Nat.not_le, listed.err, listed.total, ← BitVec.ofNat_add,
    BitVec.toNat_ofNat, Nat.mod_eq_of_lt (by omega), listed.position]
  rfl

theorem RecordsListed.lists_iff (listed : RecordsListed bytes offset count vars)
    (small : recordsTotal bytes offset count < 2 ^ 31) :
    Lists bytes size len vars ↔
      recordPos bytes offset count < size ∧
        entryRecLen bytes (recordPos bytes offset count) ≠ 0 ∧
        recordsTotal bytes offset (count + 1) < len.toNat := by
  unfold Ext2.Lists
  rw [listed.notFull_iff small, listed.position]

theorem recordsTotal_mono {more : Nat} (atMost : count ≤ more) :
    recordsTotal bytes offset count ≤ recordsTotal bytes offset more := by
  induction atMost with
  | refl =>
    exact Nat.le_refl _
  | step _ ih =>
    exact Nat.le_trans ih (Nat.le_add_right _ _)

theorem exists_recordsListed
    (chain : Chain (Lists bytes size len) (listed bytes) ⟨offset, 0, []⟩ vars) :
    ∃ count, RecordsListed bytes offset count vars := by
  induction chain with
  | start =>
    exact ⟨0, rfl, rfl, rfl, fun _ isMember => absurd isMember List.not_mem_nil⟩
  | pass before on ih =>
    obtain ⟨count, listed⟩ := ih
    exact ⟨count + 1, listed.next⟩

theorem ListsFirst.next {lenNat : Nat}
    (lists : ListsFirst bytes size lenNat offset count)
    (on :
      recordPos bytes offset count < size ∧
        entryRecLen bytes (recordPos bytes offset count) ≠ 0 ∧
        recordsTotal bytes offset (count + 1) < lenNat) :
    ListsFirst bytes size lenNat offset (count + 1) := by
  intro index below
  rcases Nat.lt_or_eq_of_le (Nat.le_of_lt_succ below) with earlier | rfl
  · exact lists index earlier
  · exact on

theorem exists_listsFirst (bounded : TotalsBounded bytes size len.toNat offset)
    (chain : Chain (Lists bytes size len) (listed bytes) ⟨offset, 0, []⟩ vars) :
    ∃ count, RecordsListed bytes offset count vars ∧
      ListsFirst bytes size len.toNat offset count := by
  induction chain with
  | start =>
    exact ⟨0, ⟨rfl, rfl, rfl,
      fun _ isMember => absurd isMember List.not_mem_nil⟩,
      fun index below => absurd below (Nat.not_lt_zero index)⟩
  | pass before on ih =>
    obtain ⟨count, listed, lists⟩ := ih
    exact ⟨count + 1, listed.next,
      lists.next ((listed.lists_iff (bounded count lists)).mp on)⟩

theorem records_fit_iff
    (chain : Chain (Lists bytes size len) (listed bytes) ⟨offset, 0, []⟩ vars)
    (stops : ¬ Lists bytes size len vars) :
    RecordsFit len.toNat vars ↔ TotalsBounded bytes size len.toNat offset := by
  constructor
  · intro fit count lists
    obtain ⟨reached, listed⟩ := exists_recordsListed chain
    have small := ((recordsFit_iff listed.err).mp fit).2.2
    rw [listed.total] at small
    have atMost : count ≤ reached := by
      refine Nat.not_lt.mp fun further => ?_
      exact stops ((listed.lists_iff small).mpr (lists reached further))
    exact Nat.lt_of_le_of_lt (recordsTotal_mono atMost) small
  · intro bounded
    obtain ⟨count, listed, lists⟩ := exists_listsFirst bounded chain
    have atMost : reclens vars.dirents ≤ len.toNat := by
      rw [listed.total]
      cases count with
      | zero =>
        exact Nat.zero_le _
      | succ count =>
        exact Nat.le_of_lt (lists count (Nat.lt_succ_self count)).2.2
    refine (recordsFit_iff listed.err).mpr
      ⟨fun before dirent later isSplit => ?_, atMost, ?_⟩
    · have size := listed.sizes dirent (by rw [isSplit]; simp)
      rw [isSplit, reclens_append] at atMost
      have first : reclens (dirent :: later) = dirent.reclen + reclens later :=
        rfl
      omega
    · rw [listed.total]
      exact bounded count lists

end Records

/--
When `getdents` keeps to the buffer.  For ramfs, as many entries as the limit
allows have to fit; for ext2, the sizes of the records that are listed have to
stay below two gigabytes.
-/
def Listable.SuitsLength (len : BitVec 32) (offset : Nat) : Listable → Prop
  | .ramfs directory =>
    EntriesFit len.toNat 0
      ((directory.entries offset).take (ramfsLimit len.toNat))
  | .ext2 kalloc bpi heap directory =>
    ∀ buf,
      directory.load kalloc bpi heap (directory.sizeBlocks bpi) = .ok buf →
        TotalsBounded buf.bytes directory.size.toNat len.toNat offset

/-- `getdents` keeps to the buffer exactly if the directory suits its length. -/
theorem getdents_fits_iff {listable : Listable} {len : BitVec 32} {offset : Nat}
    {result : GetdentsVars}
    (returns :
      Returns (fun turns => listable.getdents turns len offset) result) :
    RecordsFit len.toNat result ↔ listable.SuitsLength len offset := by
  cases listable with
  | ramfs directory =>
    obtain ⟨_, isResult⟩ := returns
    cases isResult
    exact directory.getdents_recordsFit_iff len offset
  | ext2 kalloc bpi heap directory =>
    have isCall : Returns
          (fun turns => ext2Getdents kalloc bpi heap turns directory len offset)
          result := returns
    obtain ⟨buf, isBuf, listing⟩ :=
      (returns_bind_iff (stable_const _) fun _ => loop_stable _).mp isCall
    have loads := returns_const_iff.mp isBuf
    obtain ⟨vars, chain, stops, -, rfl⟩ :=
      (getdents_walks buf directory.size.toNat len).stops listing
    refine (records_fit_iff chain stops).trans
      ⟨fun bounded other isOther => ?_, fun suits => suits buf loads⟩
    rw [loads] at isOther
    cases isOther
    exact bounded

/-- Two entries with names of so many bytes. -/
def twoEntries (nameLen : Nat) : RamfsDirectory where
  data := fun offset =>
    { name := List.replicate nameLen (if offset = 0 then 97 else 98)
      ino := 5 }
  size := 2 * sizeofRamfsDentry

theorem twoEntries_entries (nameLen : Nat) :
    (twoEntries nameLen).entries 0 =
      [{ name := List.replicate nameLen 97, ino := 5 },
        { name := List.replicate nameLen 98, ino := 5 }] := by
  have alive (offset : Nat) : ((twoEntries nameLen).data offset).ino ≠ 0 :=
    show (5 : BitVec 32) ≠ 0 by decide
  rw [RamfsDirectory.entries_eq (show 0 < 2 * sizeofRamfsDentry by decide),
    if_neg (alive _),
    RamfsDirectory.entries_eq
      (show 0 + sizeofRamfsDentry < 2 * sizeofRamfsDentry by decide),
    if_neg (alive _)]
  have rest : (twoEntries nameLen).entries
        (0 + sizeofRamfsDentry + sizeofRamfsDentry) = [] :=
    RamfsDirectory.entriesFrom_end (Nat.le_refl (2 * sizeofRamfsDentry)) _
  rw [rest]
  rfl

/-- Two short entries fit into 300 bytes. -/
theorem twoShort_fit :
    RecordsFit 300 ((twoEntries 1).getdents 300 0) :=
  (@getdents_fits_iff (.ramfs (twoEntries 1)) 300 0 _ ⟨0, rfl⟩).mpr
    ⟨by decide, by decide, by decide, by decide⟩

/-- Two entries with the longest names do not fit into 272 bytes. -/
theorem twoLong_overrun :
    ¬ RecordsFit 272 ((twoEntries 255).getdents 272 0) := by
  intro fit
  have fits := ((twoEntries 255).getdents_recordsFit_iff 272 0).mp fit
  have isLimit : ramfsLimit (272 : BitVec 32).toNat = 2 := by decide
  rw [twoEntries_entries, isLimit] at fits
  simp only [List.take_succ_cons, EntriesFit, List.length_replicate] at fits
  exact absurd fits.2.1 (by decide)

end Idylla.Vfs
