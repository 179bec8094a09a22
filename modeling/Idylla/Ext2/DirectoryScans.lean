import Idylla.Ext2.Directory

namespace Idylla.Ext2

open Idylla.Lib

/-!
# Scans of arbitrary directories

Nothing on the device is checked, so whether a scan stays inside its buffer and
comes to its end depends on the records that it gets to.  The records that a
scan gets to form a chain, which each scan continues in its own way.
-/

section Fields

variable {Value : Type} (buf : KernelBuffer) (first count : Nat)

theorem read_checks (value : Memory UInt8 → Value) :
    Checks (buf.read first count value) (first + count ≤ buf.length)
      (value buf.bytes) :=
  .ite .strays _

theorem write_checks (source : Memory UInt8) :
    Checks (buf.write first count source) (first + count ≤ buf.length)
      { buf with bytes := buf.bytes.copy first source 0 count } :=
  .ite .strays _

end Fields

/-- So many bytes at an address are those of a string. -/
def Agrees (bytes : Memory UInt8) (address : Nat) (chars : List UInt8)
    (count : Nat) : Prop :=
  ∀ index < count, bytes (address + index) = chars.getD index 0

instance
    (bytes : Memory UInt8) (address : Nat) (chars : List UInt8)
    (count : Nat) :
    Decidable (Agrees bytes address chars count) :=
  inferInstanceAs (Decidable (∀ index < count, _))

/--
The bytes at which a string is compared, up to the first that differs, lie in
the buffer.
-/
def ComparesInside (buf : KernelBuffer) (address : Nat)
    (chars : List UInt8) : Prop :=
  ∀ index < chars.length,
    Agrees buf.bytes address chars index → address + index < buf.length

theorem agrees_cons {bytes : Memory UInt8} {address count : Nat} {char : UInt8}
    {rest : List UInt8} :
    Agrees bytes address (char :: rest) (count + 1) ↔
      bytes address = char ∧ Agrees bytes (address + 1) rest count := by
  constructor
  · intro agrees
    refine ⟨agrees 0 (Nat.succ_pos _), fun index below => ?_⟩
    have isNext := agrees (index + 1) (by omega)
    rwa [show address + (index + 1) = address + 1 + index by omega] at isNext
  · rintro ⟨isFirst, agrees⟩ index below
    cases index with
    | zero =>
      exact isFirst
    | succ index =>
      rw [show address + (index + 1) = address + 1 + index by omega]
      exact agrees index (by omega)

theorem comparesInside_cons {buf : KernelBuffer} {address : Nat} {char : UInt8}
    {rest : List UInt8} :
    ComparesInside buf address (char :: rest) ↔
      address < buf.length ∧
        (buf.bytes address = char → ComparesInside buf (address + 1) rest) := by
  constructor
  · intro inside
    refine ⟨inside 0 (Nat.succ_pos _) fun index below => by omega,
      fun isFirst index below agrees => ?_⟩
    have isNext :=
      inside (index + 1) (Nat.succ_lt_succ below)
        (agrees_cons.mpr ⟨isFirst, agrees⟩)
    omega
  · rintro ⟨isFirst, inside⟩ index below agrees
    cases index with
    | zero =>
      exact isFirst
    | succ index =>
      obtain ⟨same, agreesRest⟩ := agrees_cons.mp agrees
      have isNext := inside same index (Nat.lt_of_succ_lt_succ below) agreesRest
      omega

theorem strncmpEqual_checks (buf : KernelBuffer) {chars : List UInt8}
    (notEmpty : chars ≠ []) (address : Nat) :
    Checks (strncmpEqual buf chars address chars.length)
      (ComparesInside buf address chars)
      (decide (Agrees buf.bytes address chars chars.length)) := by
  induction chars generalizing address with
  | nil =>
    exact absurd rfl notEmpty
  | cons char rest ih =>
    have lengthIs : (char :: rest).length = rest.length + 1 := rfl
    have rests : Checks
          (if (char :: rest).length = 1 ∨ rest = [] then
            (pure true : Except Fault Bool)
          else
            strncmpEqual buf rest (address + 1) ((char :: rest).length - 1))
          (ComparesInside buf (address + 1) rest)
          (decide (Agrees buf.bytes (address + 1) rest rest.length)) := by
      by_cases isLast : rest = []
      · subst isLast
        exact (Checks.pure true).congr
          ⟨fun _ => trivial, fun _ _ below => by cases below⟩
          (decide_eq_true fun _ below => by cases below)
      · have someRest : 0 < rest.length := List.length_pos_iff.mpr isLast
        have notLast : ¬ ((char :: rest).length = 1 ∨ rest = []) := by
          rintro (isOne | isEmpty)
          · omega
          · exact isLast isEmpty
        rw [if_neg notLast]
        exact ih isLast (address + 1)
    refine .congr
      (.bind (read_checks buf address 1 _)
        (.choose (fun _ => rests) fun _ => .pure false))
      ?_ ?_
    · rw [comparesInside_cons]
      exact ⟨fun both => ⟨both.1, both.2, fun _ => trivial⟩,
        fun both => ⟨both.1, both.2.1⟩⟩
    · by_cases same : buf.bytes address = char
      · rw [if_pos same]
        exact decide_eq_decide.mpr
          (agrees_cons.trans ⟨And.right, fun agrees => ⟨same, agrees⟩⟩)
      · rw [if_neg same]
        exact decide_eq_false fun agrees => same (agrees_cons.mp agrees).1

/-- The entry at a position has the name; an empty name is in no entry. -/
def HasName (bytes : Memory UInt8) (name : CString) (pos : Nat) : Prop :=
  entryNameLen bytes pos = name.strlen ∧ name.chars ≠ [] ∧
    Agrees bytes (pos + 8) name.chars name.strlen

instance (bytes : Memory UInt8) (name : CString) (pos : Nat) :
    Decidable (HasName bytes name pos) :=
  inferInstanceAs (Decidable (_ ∧ _ ∧ _))

/--
Comparing an entry's name of the right length stays inside; with an empty name
`strncmp` has to find a first byte other than the terminator.
-/
def NameInside (buf : KernelBuffer) (name : CString) (pos : Nat) : Prop :=
  if name.chars = [] then
    pos + 9 ≤ buf.length ∧ buf.bytes (pos + 8) ≠ 0
  else
    ComparesInside buf (pos + 8) name.chars

/-- Comparing the name of an entry stays inside. -/
def NameFits (buf : KernelBuffer) (name : CString) (pos : Nat) : Prop :=
  pos + 7 ≤ buf.length ∧
    (entryNameLen buf.bytes pos = name.strlen → NameInside buf name pos)

theorem strncmpName_checks (buf : KernelBuffer) (name : CString) (pos : Nat) :
    Checks (strncmpEqual buf name.chars (pos + 8) name.strlen)
      (NameInside buf name pos)
      (decide
        (name.chars ≠ [] ∧
          Agrees buf.bytes (pos + 8) name.chars name.strlen)) := by
  unfold NameInside CString.strlen
  by_cases isEmpty : name.chars = []
  · rw [if_pos isEmpty, isEmpty, decide_eq_false (fun both => both.1 rfl)]
    have ends : Checks
          (if buf.bytes (pos + 8) = 0 then
            (if ([] : List UInt8).length = 1 then pure true
            else throw .strays : Except Fault Bool)
          else
            pure false)
          (buf.bytes (pos + 8) ≠ 0) false := by
      refine .congr
        (.choose (fun _ => .throw .strays false) fun _ => .pure false)
        ⟨fun notNul => ⟨notNul, fun _ => trivial⟩, And.left⟩
        (ite_self _).symm
    exact .bind (read_checks buf (pos + 8) 1 _) ends
  · rw [if_neg isEmpty]
    refine (strncmpEqual_checks buf isEmpty (pos + 8)).congr Iff.rfl ?_
    exact decide_eq_decide.mpr ⟨And.right, fun agrees => ⟨isEmpty, agrees⟩⟩

theorem entryMatches_checks (buf : KernelBuffer) (name : CString) (pos : Nat) :
    Checks (entryMatches buf name pos) (NameFits buf name pos)
      (decide (HasName buf.bytes name pos)) := by
  refine .congr
    (.bind (read_checks buf (pos + 6) 1 _)
      (.choose (fun same => same ▸ strncmpName_checks buf name pos)
        fun _ => .pure false)) ?_ ?_
  · exact ⟨fun fits => ⟨fits.1, fun same => fits.2 same.symm, fun _ => trivial⟩,
      fun fits => ⟨fits.1, fun same => fits.2.1 same.symm⟩⟩
  · by_cases same : name.strlen = entryNameLen buf.bytes pos
    · rw [if_pos same]
      exact decide_eq_decide.mpr
        ⟨fun has => same ▸ has.2, fun both => ⟨same.symm, same ▸ both⟩⟩
    · rw [if_neg same]
      exact decide_eq_false fun both => same both.1.symm

/-- The record at a position can be compared with a name. -/
def RecordFits (buf : KernelBuffer) (name : CString) (pos : Nat) : Prop :=
  pos + 6 ≤ buf.length ∧ (entryRecLen buf.bytes pos ≠ 0 → NameFits buf name pos)

/-- The search for a name goes on behind the record at a position. -/
def Skips (bytes : Memory UInt8) (size : Nat) (name : CString)
    (pos : Nat) : Prop :=
  pos < size ∧ entryRecLen bytes pos ≠ 0 ∧ ¬ HasName bytes name pos

/-- The position behind a record. -/
def behind (bytes : Memory UInt8) (pos : Nat) : Nat :=
  pos + entryRecLen bytes pos

/-- What `ext2_lookup` returns at the record where it stops. -/
def lookupResult (bytes : Memory UInt8) (size pos : Nat) : BitVec 32 :=
  if pos < size ∧ entryRecLen bytes pos ≠ 0 then entryInode bytes pos else 0

theorem lookupBody_checks (buf : KernelBuffer) (size : Nat) (name : CString)
    (pos : Nat) :
    Checks (lookupBody buf size name pos) (pos < size → RecordFits buf name pos)
      (if pos < size then
        if entryRecLen buf.bytes pos = 0 then .leave 0
        else if decide (HasName buf.bytes name pos) = true then
          .leave (entryInode buf.bytes pos)
        else
          .again (behind buf.bytes pos)
      else
        .leave 0) := by
  refine .congr
    (.choose
      (fun _ => .bind (read_checks buf (pos + 4) 2 _)
        (.choose (fun _ => .pure _) fun _ =>
          .bind (entryMatches_checks buf name pos)
            (.choose (fun _ => .bind (read_checks buf pos 4 _) (.pure _))
              fun _ => .pure _)))
      fun _ => .pure _) ?_ rfl
  constructor
  · intro fits
    refine ⟨fun below => ?_, fun _ => trivial⟩
    have inside := (fits below).1
    exact ⟨inside, fun _ => trivial, fun goesOn =>
      ⟨(fits below).2 goesOn, fun _ => ⟨by omega, trivial⟩, fun _ => trivial⟩⟩
  · intro fits below
    have record := fits.1 below
    exact ⟨record.1, fun goesOn => (record.2.2 goesOn).1⟩

theorem lookup_walks (buf : KernelBuffer) (size : Nat) (name : CString) :
    Walks (lookupBody buf size name)
      (fun pos => pos < size → RecordFits buf name pos)
      (Skips buf.bytes size name) (behind buf.bytes)
      (lookupResult buf.bytes size) (fun pos => size - pos) where
  again := fun pos skips => by
    obtain ⟨below, goesOn, other⟩ := skips
    refine (lookupBody_checks buf size name pos).congr Iff.rfl ?_
    rw [if_pos below, if_neg goesOn, decide_eq_false other]
    rfl
  leave := fun pos stops => by
    refine (lookupBody_checks buf size name pos).congr Iff.rfl ?_
    unfold lookupResult
    by_cases below : pos < size
    · by_cases isEnd : entryRecLen buf.bytes pos = 0
      · rw [if_neg fun both => both.2 isEnd, if_pos below, if_pos isEnd]
      · have found : HasName buf.bytes name pos :=
          Classical.byContradiction fun other => stops ⟨below, isEnd, other⟩
        rw [if_pos ⟨below, isEnd⟩, if_pos below, if_neg isEnd,
          decide_eq_true found]
        rfl
    · rw [if_neg fun both => below both.1, if_neg below]
  shrinks := fun pos skips => by
    obtain ⟨below, goesOn, -⟩ := skips
    refine .inr ?_
    show size - (pos + entryRecLen buf.bytes pos) < size - pos
    omega

/-- The bytes after the record at a position has been taken out. -/
def unlinkedBytes (bytes : Memory UInt8) (vars : UnlinkVars) :
    Memory UInt8 :=
  match vars.prev with
  | some prev =>
    bytes.copy (prev + 4)
      (Memory.digits (entryRecLen bytes prev + entryRecLen bytes vars.pos))
      0 2
  | none => bytes.copy vars.pos (Memory.digits 0) 0 4

/-- What the loop of `inode_unlink` returns at the record where it stops. -/
def unlinkResult (buf : KernelBuffer) (size : Nat)
    (vars : UnlinkVars) : Option KernelBuffer :=
  if vars.pos < size ∧ entryRecLen buf.bytes vars.pos ≠ 0 then
    some { buf with bytes := unlinkedBytes buf.bytes vars }
  else
    none

/-- The record in front of a position can be changed. -/
def PrevFits (buf : KernelBuffer) (vars : UnlinkVars) : Prop :=
  ∀ prev, vars.prev = some prev → prev + 6 ≤ buf.length

/-- One turn of `inode_unlink`. -/
theorem unlinkBody_checks (buf : KernelBuffer) (size : Nat) (name : CString)
    (vars : UnlinkVars) :
    Checks (unlinkBody buf size name vars)
      (vars.pos < size →
        RecordFits buf name vars.pos ∧
          (entryRecLen buf.bytes vars.pos ≠ 0 →
            HasName buf.bytes name vars.pos → PrevFits buf vars))
      (if vars.pos < size then
        if entryRecLen buf.bytes vars.pos = 0 then .leave none
        else if decide (HasName buf.bytes name vars.pos) = true then
          .leave (some { buf with bytes := unlinkedBytes buf.bytes vars })
        else
          .again ⟨behind buf.bytes vars.pos, some vars.pos⟩
      else
        .leave none) := by
  obtain ⟨pos, prev⟩ := vars
  cases prev with
  | none =>
    refine .congr
      (.choose
        (fun _ => .bind (read_checks buf (pos + 4) 2 _)
          (.choose (fun _ => .pure _) fun _ =>
            .bind (entryMatches_checks buf name pos)
              (.choose (fun _ => .bind (write_checks buf pos 4 _) (.pure _))
                fun _ => .pure _)))
        fun _ => .pure _) ?_ rfl
    constructor
    · intro fits
      refine ⟨fun below => ?_, fun _ => trivial⟩
      obtain ⟨⟨inside, named⟩, -⟩ := fits below
      have header : pos + 6 ≤ buf.length := inside
      exact ⟨inside, fun _ => trivial, fun goesOn =>
        ⟨named goesOn, fun _ => ⟨by omega, trivial⟩, fun _ => trivial⟩⟩
    · intro fits below
      have record := fits.1 below
      refine ⟨⟨record.1, fun goesOn => (record.2.2 goesOn).1⟩, ?_⟩
      intro _ _ prev isPrev
      cases isPrev
  | some prev =>
    refine .congr
      (.choose
        (fun _ => .bind (read_checks buf (pos + 4) 2 _)
          (.choose (fun _ => .pure _) fun _ =>
            .bind (entryMatches_checks buf name pos)
              (.choose
                (fun _ => .bind (read_checks buf (prev + 4) 2 _)
                  (.bind (write_checks buf (prev + 4) 2 _) (.pure _)))
                fun _ => .pure _)))
        fun _ => .pure _) ?_ rfl
    constructor
    · intro fits
      refine ⟨fun below => ?_, fun _ => trivial⟩
      obtain ⟨⟨inside, named⟩, changes⟩ := fits below
      refine ⟨inside, fun _ => trivial, fun goesOn =>
        ⟨named goesOn, fun found => ?_, fun _ => trivial⟩⟩
      have before := changes goesOn (of_decide_eq_true found) prev rfl
      exact ⟨before, before, trivial⟩
    · intro fits below
      have record := fits.1 below
      refine ⟨⟨record.1, fun goesOn => (record.2.2 goesOn).1⟩, ?_⟩
      intro goesOn found other isPrev
      cases isPrev
      exact ((record.2.2 goesOn).2.1 (decide_eq_true found)).1

theorem unlink_walks (buf : KernelBuffer) (size : Nat) (name : CString) :
    Walks (unlinkBody buf size name)
      (fun vars => vars.pos < size →
        RecordFits buf name vars.pos ∧
          (entryRecLen buf.bytes vars.pos ≠ 0 →
            HasName buf.bytes name vars.pos → PrevFits buf vars))
      (fun vars => Skips buf.bytes size name vars.pos)
      (fun vars => ⟨behind buf.bytes vars.pos, some vars.pos⟩)
      (unlinkResult buf size) (fun vars => size - vars.pos) where
  again := fun vars skips => by
    obtain ⟨below, goesOn, other⟩ := skips
    refine (unlinkBody_checks buf size name vars).congr Iff.rfl ?_
    rw [if_pos below, if_neg goesOn, decide_eq_false other]
    rfl
  leave := fun vars stops => by
    refine (unlinkBody_checks buf size name vars).congr Iff.rfl ?_
    unfold unlinkResult
    by_cases below : vars.pos < size
    · by_cases isEnd : entryRecLen buf.bytes vars.pos = 0
      · rw [if_neg fun both => both.2 isEnd, if_pos below, if_pos isEnd]
      · have found : HasName buf.bytes name vars.pos :=
          Classical.byContradiction fun other => stops ⟨below, isEnd, other⟩
        rw [if_pos ⟨below, isEnd⟩, if_pos below, if_neg isEnd,
          decide_eq_true found]
        rfl
    · rw [if_neg fun both => below both.1, if_neg below]
  shrinks := fun vars skips => by
    obtain ⟨below, goesOn, -⟩ := skips
    refine .inr ?_
    show size - (vars.pos + entryRecLen buf.bytes vars.pos) < size - vars.pos
    omega

/-- The bytes after the assignments to an entry. -/
def placedBytes (bytes : Memory UInt8) (pos : Nat)
    (entry : NewEntry) : Memory UInt8 :=
  (((bytes.copy pos (Memory.digits entry.ino.toNat) 0 4).copy (pos + 6)
      (Memory.digits entry.name.strlen) 0 1).copy (pos + 7)
      (fun _ => entry.fileType) 0 1).copy (pos + 8) entry.name.memory 0
    (entry.name.strlen + 1)

/-- The entry and the terminator of its name lie in the buffer. -/
def PlaceFits (buf : KernelBuffer) (pos : Nat) (entry : NewEntry) : Prop :=
  pos + 8 + (entry.name.strlen + 1) ≤ buf.length

theorem place_checks (buf : KernelBuffer) (pos : Nat) (entry : NewEntry) :
    Checks (buf.place pos entry) (PlaceFits buf pos entry)
      { buf with bytes := placedBytes buf.bytes pos entry } := by
  refine .congr
    (.bind (write_checks buf pos 4 _)
      (.bind (write_checks _ (pos + 6) 1 _)
        (.bind (write_checks _ (pos + 7) 1 _)
          (write_checks _ (pos + 8) _ _)))) ?_ rfl
  dsimp only
  constructor
  · intro fits
    unfold PlaceFits at fits
    omega
  · intro fits
    exact fits.2.2.2

/-- The size of the record that an entry needs. -/
def NewEntry.size (entry : NewEntry) : Nat :=
  entrySize entry.name.strlen

/-- A record has room for so many bytes more. -/
def HasRoom (bytes : Memory UInt8) (needed pos : Nat) : Prop :=
  needed ≤ entryRecLen bytes pos ∧
    (entryInode bytes pos ≠ 0 →
      entrySize (entryNameLen bytes pos) + needed ≤ entryRecLen bytes pos)

instance (bytes : Memory UInt8) (needed pos : Nat) :
    Decidable (HasRoom bytes needed pos) :=
  inferInstanceAs (Decidable (_ ∧ _))

/-- The position of the new entry in a record with room for it. -/
def placeAt (bytes : Memory UInt8) (pos : Nat) : Nat :=
  if entryInode bytes pos ≠ 0 then
    pos + entrySize (entryNameLen bytes pos)
  else
    pos

/-- The bytes after the record at a position has been split in two. -/
def splitBytes (bytes : Memory UInt8) (pos : Nat) : Memory UInt8 :=
  let tmp := entrySize (entryNameLen bytes pos)
  (bytes.copy (pos + 4) (Memory.digits tmp) 0 2).copy (pos + tmp + 4)
    (Memory.digits (entryRecLen bytes pos - tmp)) 0 2

/-- The bytes after an entry has been put into the record at a position. -/
def linkedBytes (bytes : Memory UInt8) (pos : Nat)
    (entry : NewEntry) : Memory UInt8 :=
  placedBytes (if entryInode bytes pos ≠ 0 then splitBytes bytes pos else bytes)
    (placeAt bytes pos) entry

/-- The record at a position can be looked at and filled. -/
structure LinkFits
    (buf : KernelBuffer) (entry : NewEntry)
    (pos : Nat) : Prop where
  header : pos + 6 ≤ buf.length
  nameLen :
    entry.size ≤ entryRecLen buf.bytes pos → entryInode buf.bytes pos ≠ 0 →
      pos + 7 ≤ buf.length
  place : HasRoom buf.bytes entry.size pos →
      PlaceFits buf (placeAt buf.bytes pos) entry

theorem linkBody_checks (buf : KernelBuffer) (size : Nat) (entry : NewEntry)
    (pos : Nat) :
    Checks (linkBody buf size entry pos) (pos < size → LinkFits buf entry pos)
      (if pos < size then
        if entryRecLen buf.bytes pos < entry.size then
          .again (behind buf.bytes pos)
        else if entryInode buf.bytes pos ≠ 0 then
          if entryRecLen buf.bytes pos <
              entrySize (entryNameLen buf.bytes pos) + entry.size then
            .again (behind buf.bytes pos)
          else
            .leave
              (some
                { buf with
                  bytes :=
                    placedBytes (splitBytes buf.bytes pos)
                      (pos + entrySize (entryNameLen buf.bytes pos)) entry })
        else
          .leave (some { buf with bytes := placedBytes buf.bytes pos entry })
      else
        .leave none) := by
  refine .congr
    (.choose
      (fun _ => .bind (read_checks buf (pos + 4) 2 _)
        (.choose (fun _ => .pure _) fun _ =>
          .bind (read_checks buf pos 4 _)
            (.choose
              (fun _ => .bind (read_checks buf (pos + 6) 1 _)
                (.choose (fun _ => .pure _) fun _ =>
                  .bind (write_checks buf (pos + 4) 2 _)
                    (.bind (write_checks _ _ 2 _)
                      (.bind (place_checks _ _ entry) (.pure _)))))
              fun _ => .bind (place_checks buf pos entry) (.pure _))))
      fun _ => .pure _) ?_ rfl
  dsimp only
  constructor
  · intro fits
    refine ⟨fun below => ?_, fun _ => trivial⟩
    obtain ⟨header, nameLen, place⟩ := fits below
    refine ⟨header, fun _ => trivial, fun isLong => ⟨by omega, ?_, ?_⟩⟩
    · intro live
      refine ⟨nameLen (Nat.not_lt.mp isLong) live, fun _ => trivial,
        fun isWide => ?_⟩
      have fit := place ⟨Nat.not_lt.mp isLong, fun _ => Nat.not_lt.mp isWide⟩
      rw [placeAt, if_pos live] at fit
      have inside := fit
      unfold PlaceFits at inside
      exact ⟨header, by omega, fit, trivial⟩
    · intro dead
      have fit := place ⟨Nat.not_lt.mp isLong, fun live => absurd live dead⟩
      rw [placeAt, if_neg dead] at fit
      exact ⟨fit, trivial⟩
  · intro fits below
    obtain ⟨header, -, rest⟩ := fits.1 below
    refine ⟨header, fun isLong live => ?_, fun room => ?_⟩
    · exact ((rest (Nat.not_lt.mpr isLong)).2.1 live).1
    · obtain ⟨-, whenLive, whenDead⟩ := rest (Nat.not_lt.mpr room.1)
      unfold placeAt
      by_cases live : entryInode buf.bytes pos ≠ 0
      · rw [if_pos live]
        have isWide := Nat.not_lt.mpr (room.2 live)
        exact ((whenLive live).2.2 isWide).2.2.1
      · rw [if_neg live]
        exact (whenDead live).1

/-- The loop of `inode_link` goes on behind the record at a position. -/
def Refuses (bytes : Memory UInt8) (size needed pos : Nat) : Prop :=
  pos < size ∧ ¬ HasRoom bytes needed pos

/-- What the loop of `inode_link` returns at the record where it stops. -/
def linkResult (buf : KernelBuffer) (size : Nat) (entry : NewEntry)
    (pos : Nat) : Option KernelBuffer :=
  if pos < size then
    some { buf with bytes := linkedBytes buf.bytes pos entry }
  else
    none

theorem link_walks (buf : KernelBuffer) (size : Nat) (entry : NewEntry) :
    Walks (linkBody buf size entry)
      (fun pos => pos < size → LinkFits buf entry pos)
      (Refuses buf.bytes size entry.size) (behind buf.bytes)
      (linkResult buf size entry) (fun pos => size - pos) where
  again := fun pos refuses => by
    obtain ⟨below, noRoom⟩ := refuses
    refine (linkBody_checks buf size entry pos).congr Iff.rfl ?_
    rw [if_pos below]
    by_cases short : entryRecLen buf.bytes pos < entry.size
    · rw [if_pos short]
    · have narrow : entryInode buf.bytes pos ≠ 0 ∧
            entryRecLen buf.bytes pos <
              entrySize (entryNameLen buf.bytes pos) + entry.size := by
        refine Classical.byContradiction fun isWide => noRoom ?_
        refine ⟨Nat.not_lt.mp short, fun live => Nat.not_lt.mp fun less => ?_⟩
        exact isWide ⟨live, less⟩
      rw [if_neg short, if_pos narrow.1, if_pos narrow.2]
  leave := fun pos stops => by
    refine (linkBody_checks buf size entry pos).congr Iff.rfl ?_
    unfold linkResult
    by_cases below : pos < size
    · have room : HasRoom buf.bytes entry.size pos :=
        Classical.byContradiction fun noRoom => stops ⟨below, noRoom⟩
      rw [if_pos below, if_pos below, if_neg (Nat.not_lt.mpr room.1)]
      unfold linkedBytes placeAt
      by_cases live : entryInode buf.bytes pos ≠ 0
      · rw [if_pos live, if_pos live, if_pos live,
          if_neg (Nat.not_lt.mpr (room.2 live))]
      · rw [if_neg live, if_neg live, if_neg live]
    · rw [if_neg below, if_neg below]
  shrinks := fun pos refuses => by
    by_cases isZero : entryRecLen buf.bytes pos = 0
    · exact .inl (by rw [behind, isZero, Nat.add_zero])
    · have below := refuses.1
      refine .inr ?_
      show size - (pos + entryRecLen buf.bytes pos) < size - pos
      omega

/-- The next entry does not fit into the caller's buffer. -/
def IsFull (len err : BitVec 32) (nameLen : Nat) : Prop :=
  len ≤ err + BitVec.ofNat 32 (direntSize nameLen)

instance (len err : BitVec 32) (nameLen : Nat) :
    Decidable (IsFull len err nameLen) :=
  inferInstanceAs (Decidable (_ ≤ _))

/-- The record at a position can be listed. -/
structure ListFits
    (buf : KernelBuffer) (len : BitVec 32)
    (vars : GetdentsVars) : Prop where
  header : vars.offset + 6 ≤ buf.length
  nameLen : entryRecLen buf.bytes vars.offset ≠ 0 → vars.offset + 7 ≤ buf.length
  name : entryRecLen buf.bytes vars.offset ≠ 0 →
      ¬ IsFull len vars.err (entryNameLen buf.bytes vars.offset) →
        vars.offset + 8 + entryNameLen buf.bytes vars.offset ≤ buf.length

/-- `ext2_getdents` lists the record at a position. -/
def Lists (bytes : Memory UInt8) (size : Nat) (len : BitVec 32)
    (vars : GetdentsVars) : Prop :=
  vars.offset < size ∧ entryRecLen bytes vars.offset ≠ 0 ∧
    ¬ IsFull len vars.err (entryNameLen bytes vars.offset)

/-- The variables behind a record that has been listed. -/
def listed (bytes : Memory UInt8) (vars : GetdentsVars) : GetdentsVars :=
  let reclen := direntSize (entryNameLen bytes vars.offset)
  { offset := behind bytes vars.offset
    err := vars.err + BitVec.ofNat 32 reclen
    dirents :=
      vars.dirents ++
        [{ ino := entryInode bytes vars.offset
           off := BitVec.ofNat 32 (behind bytes vars.offset)
           reclen := reclen
           name :=
             (List.range (entryNameLen bytes vars.offset)).map fun index =>
               bytes (vars.offset + 8 + index) }] }

theorem getdentsBody_checks (buf : KernelBuffer) (size : Nat) (len : BitVec 32)
    (vars : GetdentsVars) :
    Checks (getdentsBody buf size len vars)
      (vars.offset < size → ListFits buf len vars)
      (if vars.offset < size then
        if entryRecLen buf.bytes vars.offset = 0 then .leave vars
        else if IsFull len vars.err (entryNameLen buf.bytes vars.offset) then
          .leave vars
        else
          .again (listed buf.bytes vars)
      else
        .leave vars) := by
  refine .congr
    (.choose
      (fun _ => .bind (read_checks buf (vars.offset + 4) 2 _)
        (.choose (fun _ => .pure _) fun _ =>
          .bind (read_checks buf (vars.offset + 6) 1 _)
            (.choose (fun _ => .pure _) fun _ =>
              .bind (read_checks buf vars.offset 4 _)
                (.bind (read_checks buf (vars.offset + 8) _ _) (.pure _)))))
      fun _ => .pure _) ?_ rfl
  constructor
  · intro fits
    refine ⟨fun below => ?_, fun _ => trivial⟩
    obtain ⟨header, nameLen, name⟩ := fits below
    exact ⟨header, fun _ => trivial, fun goesOn =>
      ⟨nameLen goesOn, fun _ => trivial, fun notFull =>
        ⟨by omega, name goesOn notFull, trivial⟩⟩⟩
  · intro fits below
    obtain ⟨header, -, rest⟩ := fits.1 below
    exact ⟨header, fun goesOn => (rest goesOn).1,
      fun goesOn notFull => ((rest goesOn).2.2 notFull).2.1⟩

theorem getdents_walks (buf : KernelBuffer) (size : Nat) (len : BitVec 32) :
    Walks (getdentsBody buf size len)
      (fun vars => vars.offset < size → ListFits buf len vars)
      (Lists buf.bytes size len) (listed buf.bytes) id
      (fun vars => size - vars.offset) where
  again := fun vars lists => by
    obtain ⟨below, goesOn, notFull⟩ := lists
    refine (getdentsBody_checks buf size len vars).congr Iff.rfl ?_
    rw [if_pos below, if_neg goesOn, if_neg notFull]
  leave := fun vars stops => by
    refine (getdentsBody_checks buf size len vars).congr Iff.rfl ?_
    by_cases below : vars.offset < size
    · by_cases isEnd : entryRecLen buf.bytes vars.offset = 0
      · rw [if_pos below, if_pos isEnd]
        rfl
      · have isFull :
            IsFull len vars.err (entryNameLen buf.bytes vars.offset) :=
          Classical.byContradiction fun notFull => stops ⟨below, isEnd, notFull⟩
        rw [if_pos below, if_neg isEnd, if_pos isFull]
        rfl
    · rw [if_neg below]
      rfl
  shrinks := fun vars lists => by
    obtain ⟨below, goesOn, -⟩ := lists
    refine .inr ?_
    show size - (vars.offset + entryRecLen buf.bytes vars.offset) <
      size - vars.offset
    omega

end Idylla.Ext2
