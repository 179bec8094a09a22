import Idylla.Lib.Cursor
import Idylla.Vfs.Getdents
import Idylla.Vfs.Path

namespace Idylla.Vfs

open Idylla.Lib Idylla.Ext2

/-!
# Listing a directory call by call

A program calls `getdents` until it returns 0.  With ext2 it gets every record,
those of removed entries as well; with ramfs it gets the entries that are
alive, unless its buffer is shorter than a whole `struct dirent`.
-/

/-- The records of ext2 at so many places from a position on. -/
def recordsFrom (bytes : Memory UInt8)
    (size : Nat) : Nat → Nat → List NamedInode
  | 0, _ => []
  | turns + 1, pos =>
    if pos < size then
      { name :=
          (List.range (entryNameLen bytes pos)).map fun index =>
            bytes (pos + 8 + index)
        ino := entryInode bytes pos } ::
        recordsFrom bytes size turns (behind bytes pos)
    else
      []

/-- The records of ext2 from a position on. -/
def recordsAt (bytes : Memory UInt8) (size pos : Nat) : List NamedInode :=
  recordsFrom bytes size (size - pos) pos

namespace Listable

/-- All entries of a directory, less those that ramfs skips. -/
def entries : Listable → List NamedInode
  | .ramfs directory => directory.entries 0
  | .ext2 kalloc bpi heap directory =>
    match directory.load kalloc bpi heap (directory.sizeBlocks bpi) with
    | .ok buf => recordsAt buf.bytes directory.size.toNat 0
    | .error _ => []

/-- The entries that have not been removed. -/
def liveEntries (listable : Listable) : List NamedInode :=
  listable.entries.filter fun entry => entry.ino ≠ 0

/-- The names fit their entries, and the data are in the kernel heap. -/
def WellFormed : Listable → Prop
  | .ramfs directory =>
    directory.size % sizeofRamfsDentry = 0 ∧ directory.size ≤ heapSize ∧
      ∀ entry ∈ directory.entries 0, entry.name.length ≤ NAME_MAX
  | .ext2 kalloc bpi heap directory =>
    ∃ buf,
      directory.load kalloc bpi heap (directory.sizeBlocks bpi) = .ok buf ∧
        directory.size.toNat ≤ buf.length ∧
        RecordsFormed buf.bytes (4 * bpi) directory.size.toNat

/-- The buffer has room for the longest entry, and for one byte more. -/
def LargeEnough (listable : Listable) (len : BitVec 32) : Prop :=
  ∀ entry ∈ listable.entries, direntSize entry.name.length + 1 ≤ len.toNat

/-- A call of `getdents`; what it delivers counts if it does not return 0. -/
def Call (listable : Listable) (len : BitVec 32) (offset : Nat)
    (items : List NamedInode) (next : Nat) : Prop :=
  ∃ result,
    Returns (fun turns => listable.getdents turns len offset) result ∧
      items = (if result.err = 0 then [] else result.dirents.map namedInode) ∧
      next = result.offset

/--
When the entries that are alive are delivered: the buffer holds a whole
`struct dirent`, or there is nothing to deliver; ext2 has no removed entry.
-/
def ListsLive (len : BitVec 32) : Listable → Prop
  | .ramfs directory => sizeofDirent ≤ len.toNat ∨ directory.entries 0 = []
  | .ext2 kalloc bpi heap directory =>
    ∀ entry ∈ (Listable.ext2 kalloc bpi heap directory).entries, entry.ino ≠ 0

end Listable

theorem Listable.call_determined (listable : Listable) (len : BitVec 32) :
    Determined (listable.Call len) := by
  rintro pos items next otherItems otherNext ⟨result, returns, rfl, rfl⟩
    ⟨other, returnsOther, rfl, rfl⟩
  have stable : Stable fun turns => listable.getdents turns len pos := by
    cases listable with
    | ramfs directory =>
      exact stable_const _
    | ext2 kalloc bpi heap directory =>
      exact stable_bind (stable_const _) fun _ => loop_stable _
  rw [returns.unique stable returnsOther]
  exact ⟨rfl, rfl⟩

theorem reclens_bounds {dirents : List Dirent} {bound : Nat}
    (bounded : ∀ dirent ∈ dirents, 0 < dirent.reclen ∧ dirent.reclen ≤ bound) :
    dirents.length ≤ reclens dirents ∧
      reclens dirents ≤ bound * dirents.length := by
  induction dirents with
  | nil =>
    exact ⟨Nat.le_refl _, Nat.le_refl _⟩
  | cons first rest ih =>
    have first_bounded := bounded first List.mem_cons_self
    have rest_bounded :=
      ih fun dirent isMember =>
        bounded dirent (List.mem_cons_of_mem first isMember)
    have split : reclens (first :: rest) = first.reclen + reclens rest := rfl
    rw [split, List.length_cons, Nat.mul_succ]
    omega

theorem err_eq_zero_iff {dirents : List Dirent}
    (positive : ∀ dirent ∈ dirents, 0 < dirent.reclen)
    (small : reclens dirents < 2 ^ 32) :
    BitVec.ofNat 32 (reclens dirents) = 0 ↔ dirents = [] := by
  constructor
  · intro isZero
    have noBytes : reclens dirents = 0 := by
      have values := congrArg BitVec.toNat isZero
      rw [BitVec.toNat_ofNat, Nat.mod_eq_of_lt small] at values
      exact values
    cases dirents with
    | nil =>
      rfl
    | cons first rest =>
      have isFirst := positive first List.mem_cons_self
      have split : reclens (first :: rest) = first.reclen + reclens rest := rfl
      omega
  · rintro rfl
    rfl

namespace RamfsDirectory

variable {directory : RamfsDirectory} {len : BitVec 32} {offset : Nat}

theorem length_entriesFrom (turns offset : Nat) :
    (directory.entriesFrom turns offset).length * sizeofRamfsDentry ≤
      directory.size + sizeofRamfsDentry - offset := by
  induction turns generalizing offset with
  | zero =>
    rw [entriesFrom, List.length_nil, Nat.zero_mul]
    exact Nat.zero_le _
  | succ turns ih =>
    have rest := ih (offset + sizeofRamfsDentry)
    unfold entriesFrom
    split
    next inside =>
      split
      · omega
      · rw [List.length_cons, Nat.succ_mul]
        omega
    next =>
      exact Nat.zero_le _

theorem ino_ne_zero {turns : Nat} {entry : NamedInode}
    (isMember : entry ∈ directory.entriesFrom turns offset) :
    entry.ino ≠ 0 := by
  induction turns generalizing offset with
  | zero =>
    exact absurd isMember List.not_mem_nil
  | succ turns ih =>
    unfold entriesFrom at isMember
    split at isMember
    · split at isMember
      · exact ih isMember
      next alive =>
        rcases List.mem_cons.mp isMember with rfl | isLater
        · exact alive
        · exact ih isLater
    · exact absurd isMember List.not_mem_nil

/-- What one call delivers, and what is left behind it. -/
theorem call_eq (formed : (Listable.ramfs directory).WellFormed)
    (suffix : directory.entries offset <:+ directory.entries 0)
    {items : List NamedInode} {next : Nat}
    (call : (Listable.ramfs directory).Call len offset items next) :
    items = (directory.entries offset).take (ramfsLimit len.toNat) ∧
      directory.entries next =
        (directory.entries offset).drop (ramfsLimit len.toNat) := by
  obtain ⟨result, ⟨_, isResult⟩, rfl, rfl⟩ := call
  obtain ⟨dirents, added, records, isReclen, err, left⟩ :=
    directory.getdentsLoop_listed (directory.size - offset) len.toNat
      ⟨offset, 0, []⟩ (Nat.le_refl _)
  have isRecords : dirents.map namedInode =
        (directory.entries offset).take (ramfsLimit len.toNat) := records
  have isCall : directory.getdents len offset = result := Except.ok.inj isResult
  have isDirents : result.dirents = dirents := by
    rw [← isCall]
    exact added
  have isErr : result.err = BitVec.ofNat 32 (reclens dirents) := by
    rw [← isCall, show (directory.getdents len offset).err = _ from err]
    exact BitVec.zero_add _
  -- The names are short, and so are the records.
  have bounded :
      ∀ dirent ∈ dirents, 0 < dirent.reclen ∧ dirent.reclen ≤ 269 := by
    intro dirent isMember
    have isListed : namedInode dirent ∈ dirents.map namedInode :=
      List.mem_map_of_mem isMember
    rw [isRecords] at isListed
    have isEntry := suffix.subset (List.mem_of_mem_take isListed)
    have short : dirent.name.length ≤ NAME_MAX :=
      formed.2.2 (namedInode dirent) isEntry
    have size := le_direntSize dirent.name.length
    unfold NAME_MAX at short
    rw [isReclen dirent isMember]
    unfold ramfsReclen
    omega
  have count :
      dirents.length * sizeofRamfsDentry ≤ heapSize + sizeofRamfsDentry := by
    have total : (directory.entries offset).length * sizeofRamfsDentry ≤
          directory.size + sizeofRamfsDentry - offset :=
      length_entriesFrom _ offset
    have size := formed.2.1
    have atMost : dirents.length ≤ (directory.entries offset).length := by
      rw [← List.length_map namedInode, isRecords, List.length_take]
      exact Nat.min_le_right _ _
    have scaled := Nat.mul_le_mul_right sizeofRamfsDentry atMost
    omega
  have small : reclens dirents < 2 ^ 32 := by
    have total := (reclens_bounds bounded).2
    unfold heapSize sizeofRamfsDentry at count
    omega
  have isZero :=
    err_eq_zero_iff (fun dirent isMember => (bounded dirent isMember).1) small
  refine ⟨?_, ?_⟩
  · rw [← isRecords, isErr, isDirents]
    by_cases isNil : dirents = []
    · rw [if_pos (isZero.mpr isNil), isNil]
      rfl
    · rw [if_neg fun zero => isNil (isZero.mp zero)]
  · rw [← isCall]
    exact left

theorem exists_call (formed : (Listable.ramfs directory).WellFormed)
    (suffix : directory.entries offset <:+ directory.entries 0) :
    ∃ next,
      (Listable.ramfs directory).Call len offset
          ((directory.entries offset).take (ramfsLimit len.toNat)) next ∧
        directory.entries next =
          (directory.entries offset).drop (ramfsLimit len.toNat) := by
  have call : (Listable.ramfs directory).Call len offset
        (if (directory.getdents len offset).err = 0 then []
        else (directory.getdents len offset).dirents.map namedInode)
        (directory.getdents len offset).offset :=
    ⟨_, ⟨0, rfl⟩, rfl, rfl⟩
  obtain ⟨isItems, isLeft⟩ := call_eq formed suffix call
  rw [isItems] at call
  exact ⟨_, call, isLeft⟩

theorem cursor (formed : (Listable.ramfs directory).WellFormed)
    (whole : sizeofDirent ≤ len.toNat) :
    Cursor ((Listable.ramfs directory).Call len)
      (fun offset => directory.entries offset <:+ directory.entries 0)
      directory.entries where
  calls := fun offset suffix => by
    obtain ⟨next, call, isLeft⟩ := exists_call formed suffix
    refine ⟨_, next, call, ?_, ?_, fun isNil => ?_⟩
    · rw [isLeft]
      exact (List.drop_suffix _ _).trans suffix
    · rw [isLeft, List.take_append_drop]
    · have limit : ramfsLimit len.toNat ≠ 0 := by
        unfold ramfsLimit
        rw [if_pos whole]
        exact Nat.succ_ne_zero _
      rw [List.take_eq_nil_iff] at isNil
      exact isNil.resolve_left limit

theorem enumerates_iff (formed : (Listable.ramfs directory).WellFormed) :
    Enumerates ((Listable.ramfs directory).Call len) 0
        (Listable.ramfs directory).liveEntries ↔
      (Listable.ramfs directory).ListsLive len := by
  have isLive : (Listable.ramfs directory).liveEntries = directory.entries 0 :=
    List.filter_eq_self.mpr fun entry isMember =>
      decide_eq_true (ino_ne_zero isMember)
  have suffix := List.suffix_refl (directory.entries 0)
  rw [isLive]
  constructor
  · intro enumerates
    refine Classical.byContradiction fun neither => ?_
    have tooShort : ¬ sizeofDirent ≤ len.toNat :=
      fun whole => neither (.inl whole)
    have limit : ramfsLimit len.toNat = 0 := if_neg tooShort
    -- The first call returns 0.
    obtain ⟨next, call, -⟩ := @exists_call directory len 0 formed suffix
    rw [limit, List.take_zero] at call
    exact neither (.inr
      (enumerates.unique (Listable.call_determined _ len) (.done call)))
  · rintro (whole | isNil)
    · exact (cursor formed whole).enumerates suffix
    · obtain ⟨next, call, -⟩ := @exists_call directory len 0 formed suffix
      rw [isNil, List.take_nil] at call
      rw [isNil]
      exact .done call

end RamfsDirectory

section Records

variable {bytes : Memory UInt8} {blkSize size offset pos : Nat}
  {len : BitVec 32} {vars : GetdentsVars}

/-- What is listed of the record at a position. -/
def recordAt (bytes : Memory UInt8) (pos : Nat) : NamedInode where
  name :=
    (List.range (entryNameLen bytes pos)).map fun index =>
      bytes (pos + 8 + index)
  ino := entryInode bytes pos

theorem recordsFrom_end (atEnd : size ≤ pos) (turns : Nat) :
    recordsFrom bytes size turns pos = [] := by
  cases turns with
  | zero =>
    rfl
  | succ turns =>
    exact if_neg (Nat.not_lt.mpr atEnd)

variable (formed : RecordsFormed bytes blkSize size)

include formed

theorem recordsFrom_enough {turns more : Nat} (visits : Visits bytes size pos)
    (enough : size - pos ≤ turns) (enoughMore : size - pos ≤ more) :
    recordsFrom bytes size turns pos = recordsFrom bytes size more pos := by
  induction turns generalizing more pos with
  | zero =>
    rw [recordsFrom_end (by omega), recordsFrom_end (by omega)]
  | succ turns ih =>
    by_cases inside : pos < size
    · obtain ⟨left, rfl⟩ : ∃ left, more = left + 1 := ⟨more - 1, by omega⟩
      have moves := formed.recLen_pos visits inside
      have isBehind : behind bytes pos = pos + entryRecLen bytes pos := rfl
      have rest :=
        @ih (behind bytes pos) left (.pass visits inside) (by omega) (by omega)
      unfold recordsFrom
      rw [rest]
    · rw [recordsFrom_end (by omega), recordsFrom_end (by omega)]

theorem recordsAt_eq (visits : Visits bytes size pos) (inside : pos < size) :
    recordsAt bytes size pos =
      recordAt bytes pos :: recordsAt bytes size (behind bytes pos) := by
  have moves := formed.recLen_pos visits inside
  have isBehind : behind bytes pos = pos + entryRecLen bytes pos := rfl
  obtain ⟨left, isLeft⟩ : ∃ left, size - pos = left + 1 :=
    ⟨size - pos - 1, by omega⟩
  have rest : recordsFrom bytes size left (behind bytes pos) =
        recordsAt bytes size (behind bytes pos) :=
    recordsFrom_enough formed (.pass visits inside) (by omega) (Nat.le_refl _)
  show recordsFrom bytes size (size - pos) pos = _
  rw [isLeft]
  unfold recordsFrom
  rw [if_pos inside, rest]
  rfl

theorem recordsAt_suffix (visits : Visits bytes size pos) :
    recordsAt bytes size pos <:+ recordsAt bytes size 0 := by
  induction visits with
  | start =>
    exact List.suffix_refl _
  | pass before on ih =>
    rw [recordsAt_eq formed before on] at ih
    exact (List.suffix_cons _ _).trans ih

theorem recordsTotal_le {count lenNat : Nat} (visits : Visits bytes size offset)
    (lists : ListsFirst bytes size lenNat offset count) :
    Visits bytes size (recordPos bytes offset count) ∧
      recordsTotal bytes offset count + 2 * offset ≤
        2 * recordPos bytes offset count := by
  induction count with
  | zero =>
    exact ⟨visits, by rw [recordsTotal, recordPos]; omega⟩
  | succ count ih =>
    obtain ⟨visitsCount, total⟩ :=
      ih fun index below => lists index (Nat.lt_succ_of_lt below)
    obtain ⟨inside, -, -⟩ := lists count (Nat.lt_succ_self count)
    have fits := (formed.bounds visitsCount inside).1
    have size := (le_direntSize
      (entryNameLen bytes (recordPos bytes offset count))).2
    refine ⟨.pass visitsCount inside, ?_⟩
    rw [recordsTotal, recordPos]
    omega

theorem totalsBounded (visits : Visits bytes size offset)
    (inHeap : size ≤ heapSize) (lenNat : Nat) :
    TotalsBounded bytes size lenNat offset := by
  intro count lists
  cases count with
  | zero =>
    exact (show 0 < 2 ^ 31 by decide)
  | succ count =>
    obtain ⟨visitsCount, -⟩ :=
      recordsTotal_le formed visits fun index below =>
        lists index (Nat.lt_succ_of_lt below)
    have total := (recordsTotal_le formed visits lists).2
    have ends :=
      (formed.bounds visitsCount (lists count (Nat.lt_succ_self count)).1).2
    have isLast : recordPos bytes offset (count + 1) =
          behind bytes (recordPos bytes offset count) := rfl
    unfold heapSize at inHeap
    omega

theorem listed_append (visits : Visits bytes size offset)
    (chain : Chain (Lists bytes size len) (listed bytes) ⟨offset, 0, []⟩ vars) :
    Visits bytes size vars.offset ∧
      recordsAt bytes size offset =
        vars.dirents.map namedInode ++ recordsAt bytes size vars.offset := by
  induction chain with
  | start =>
    exact ⟨visits, rfl⟩
  | pass before on ih =>
    obtain ⟨visitsBefore, isSplit⟩ := ih
    refine ⟨.pass visitsBefore on.1, ?_⟩
    rw [isSplit, recordsAt_eq formed visitsBefore on.1]
    show _ = (_ ++ [_]).map namedInode ++ _
    rw [List.map_append, List.append_assoc]
    rfl

end Records

section Ext2

variable {kalloc : Kalloc} {bpi : Nat} {heap : Memory Block}
  {directory : Directory} {len : BitVec 32} {buf : KernelBuffer}

theorem load_length {blocks : Int}
    (loads : directory.load kalloc bpi heap blocks = .ok buf) :
    buf.length ≤ heapSize := by
  unfold Directory.load at loads
  split at loads
  · cases loads
  next length isGranted =>
    split at loads
    · cases loads
    · split at loads
      · cases loads
        exact kalloc.bounded _ _ isGranted
      · cases loads

theorem ext2_cursor
    (loads :
      directory.load kalloc bpi heap (directory.sizeBlocks bpi) = .ok buf)
    (inside : directory.size.toNat ≤ buf.length)
    (formed : RecordsFormed buf.bytes (4 * bpi) directory.size.toNat)
    (large :
      ∀ entry ∈ recordsAt buf.bytes directory.size.toNat 0,
        direntSize entry.name.length + 1 ≤ len.toNat) :
    Cursor ((Listable.ext2 kalloc bpi heap directory).Call len)
      (Visits buf.bytes directory.size.toNat)
      (recordsAt buf.bytes directory.size.toNat) where
  calls := fun offset visits => by
    have walks := getdents_walks buf directory.size.toNat len
    have fits (vars : GetdentsVars)
        (chain :
          Chain (Lists buf.bytes directory.size.toNat len)
            (listed buf.bytes) ⟨offset, 0, []⟩ vars)
        (below : vars.offset < directory.size.toNat) :
        ListFits buf len vars := by
      have visitsVars := (listed_append formed visits chain).1
      have bounds := formed.bounds visitsVars below
      exact ⟨by omega, fun _ => by omega, fun _ _ => by omega⟩
    obtain ⟨result, listing⟩ :
        Survives fun turns =>
          loop (getdentsBody buf directory.size.toNat len) turns
            ⟨offset, 0, []⟩ := by
      refine walks.survives_iff.mpr fun vars chain =>
        ⟨fits vars chain, fun lists stays => ?_⟩
      have goesOn := lists.2.1
      have isSame :
          vars.offset + entryRecLen buf.bytes vars.offset = vars.offset :=
        congrArg GetdentsVars.offset stays
      omega
    obtain ⟨vars, chain, stops, -, isResult⟩ := walks.stops listing
    rw [show result = vars from isResult] at listing
    obtain ⟨visitsVars, isSplit⟩ := listed_append formed visits chain
    have bounded :=
      totalsBounded formed visits (Nat.le_trans inside (load_length loads))
        len.toNat
    obtain ⟨count, listed, lists⟩ := exists_listsFirst bounded chain
    have small := bounded count lists
    have isTotal := listed.total
    have isZero :=
      @err_eq_zero_iff vars.dirents
        (fun dirent isMember => by
          have size := listed.sizes dirent isMember
          omega)
        (by omega)
    rw [← listed.err] at isZero
    have call : (Listable.ext2 kalloc bpi heap directory).Call len offset
          (vars.dirents.map namedInode) vars.offset := by
      refine ⟨vars, ?_, ?_, rfl⟩
      · exact (returns_bind_iff (stable_const _) fun _ => loop_stable _).mpr
          ⟨buf, returns_const_iff.mpr loads, listing⟩
      · by_cases isNil : vars.dirents = []
        · rw [if_pos (isZero.mpr isNil), isNil]
          rfl
        · rw [if_neg fun zero => isNil (isZero.mp zero)]
    refine ⟨_, _, call, visitsVars, isSplit, fun isNil => ?_⟩
    rw [isSplit, isNil, List.nil_append]
    -- Nothing was listed, so that the first record would have had room.
    refine recordsFrom_end (Nat.not_lt.mp fun below => stops ?_) _
    have isEntry : recordAt buf.bytes vars.offset ∈
          recordsAt buf.bytes directory.size.toNat 0 := by
      refine (recordsAt_suffix formed visitsVars).subset ?_
      rw [recordsAt_eq formed visitsVars below]
      exact List.mem_cons_self
    have room := large _ isEntry
    have nameLength : (recordAt buf.bytes vars.offset).name.length =
          entryNameLen buf.bytes vars.offset := by
      unfold recordAt
      rw [List.length_map, List.length_range]
    have noBytes : reclens vars.dirents = 0 := by
      rw [List.map_eq_nil_iff.mp isNil]
      rfl
    rw [nameLength, listed.position] at room
    rw [listed.position] at below visitsVars
    refine (listed.lists_iff small).mpr
      ⟨below, formed.recLen_pos visitsVars below, ?_⟩
    rw [recordsTotal, ← isTotal, noBytes]
    omega

theorem ext2_enumerates_iff
    (formed : (Listable.ext2 kalloc bpi heap directory).WellFormed)
    (large : (Listable.ext2 kalloc bpi heap directory).LargeEnough len) :
    Enumerates ((Listable.ext2 kalloc bpi heap directory).Call len) 0
        (Listable.ext2 kalloc bpi heap directory).liveEntries ↔
      (Listable.ext2 kalloc bpi heap directory).ListsLive len := by
  obtain ⟨buf, loads, inside, records⟩ := formed
  have isEntries : (Listable.ext2 kalloc bpi heap directory).entries =
        recordsAt buf.bytes directory.size.toNat 0 := by
    show (match directory.load kalloc bpi heap (directory.sizeBlocks bpi) with
      | .ok buf => recordsAt buf.bytes directory.size.toNat 0
      | .error _ => []) = _
    rw [loads]
  unfold Listable.LargeEnough at large
  rw [isEntries] at large
  have enumerates := (ext2_cursor loads inside records large).enumerates .start
  show _ ↔ ∀ entry ∈ (Listable.ext2 kalloc bpi heap directory).entries,
    entry.ino ≠ 0
  unfold Listable.liveEntries
  rw [isEntries]
  constructor
  · intro enumeratesLive entry isMember
    have same :=
      enumeratesLive.unique (Listable.call_determined _ len) enumerates
    have alive := List.filter_eq_self.mp same entry isMember
    exact of_decide_eq_true alive
  · intro alive
    rw [List.filter_eq_self.mpr fun entry isMember =>
      decide_eq_true (alive entry isMember)]
    exact enumerates

end Ext2

/--
Repeated calls of `getdents` deliver the entries that are alive, each once and
in order, exactly if ramfs gets a buffer for a whole `struct dirent` or has no
entry, and ext2 has no removed entry.
-/
theorem getdents_enumerates_iff {listable : Listable} {len : BitVec 32}
    (formed : listable.WellFormed) (large : listable.LargeEnough len) :
    Enumerates (listable.Call len) 0 listable.liveEntries ↔
      listable.ListsLive len := by
  cases listable with
  | ramfs directory =>
    exact directory.enumerates_iff formed
  | ext2 kalloc bpi heap directory =>
    exact ext2_enumerates_iff formed large

theorem twoEntries_formed : (Listable.ramfs (twoEntries 1)).WellFormed := by
  refine ⟨by decide, by decide, fun entry isMember => ?_⟩
  rcases List.mem_cons.mp isMember with rfl | isMember
  · decide
  · rw [List.mem_singleton.mp isMember]
    decide

theorem twoEntries_large {len : BitVec 32} (atLeast : 13 ≤ len.toNat) :
    (Listable.ramfs (twoEntries 1)).LargeEnough len := by
  intro entry isMember
  have isEntry : entry ∈ (twoEntries 1).entries 0 := isMember
  have isSize : direntSize entry.name.length = 12 := by
    rcases List.mem_cons.mp isEntry with rfl | isLast
    · decide
    · rw [List.mem_singleton.mp isLast]
      decide
  omega

/-- A buffer of 300 bytes gets both entries. -/
theorem twoEntries_enumerated :
    Enumerates ((Listable.ramfs (twoEntries 1)).Call 300) 0
      (Listable.ramfs (twoEntries 1)).liveEntries :=
  (getdents_enumerates_iff twoEntries_formed
    (twoEntries_large (by decide))).mpr (.inl (by decide))

/-- A buffer of 100 bytes gets none. -/
theorem twoEntries_not_enumerated :
    (Listable.ramfs (twoEntries 1)).WellFormed ∧
      (Listable.ramfs (twoEntries 1)).LargeEnough 100 ∧
      ¬ Enumerates ((Listable.ramfs (twoEntries 1)).Call 100) 0
        (Listable.ramfs (twoEntries 1)).liveEntries := by
  refine ⟨twoEntries_formed, twoEntries_large (by decide), ?_⟩
  intro enumerates
  rcases (twoEntries 1).enumerates_iff twoEntries_formed |>.mp enumerates
    with whole | isNil
  · exact absurd whole (by decide)
  · cases isNil

end Idylla.Vfs
