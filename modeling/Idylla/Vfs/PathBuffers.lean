import Mathlib.Algebra.Group.Nat.Defs
import Idylla.Lib.Loops
import Idylla.Lib.Memory
import Idylla.Vfs.Path

namespace Idylla.Vfs

open Idylla.Lib

/-!
# Splitting a path into its buffers

`vfs_path_split` with every character that it reads and writes.  The copies are
as long as the parts of the path, whatever the buffers hold, and the scan
begins in front of the terminating zero, even if nothing is there.
-/

/-- The character that ends a string. -/
def nul : Char := Char.ofNat 0

/-- A string of a 32-bit address space, less the zero that ends it. -/
structure PathString where
  chars : List Char
  noNul : ∀ char ∈ chars, char ≠ nul
  addressable : chars.length < 2 ^ 32

/-- `struct vfs_path` -/
structure PathBuffers where
  path : Memory Char
  name : Memory Char

/-- One character of a string, or the zero that ends it. -/
def PathString.charAt (path : PathString) (index : Int) : Except Fault Char :=
  if 0 ≤ index ∧ index ≤ path.chars.length then
    .ok (path.chars.getD index.toNat nul)
  else
    .error .strays

/-- A character written to a buffer of so many. -/
def setChar (capacity : Nat) (buffer : Memory Char) (index : Nat)
    (char : Char) : Except Fault (Memory Char) :=
  if index < capacity then .ok (buffer.set index char)
  else .error .strays

/-- The loop of `strncpy` from `i` on, with so many characters to go. -/
def PathString.copyFrom (path : PathString) (capacity : Nat) (source : Int) :
    Nat → Nat → Memory Char → Except Fault (Memory Char)
  | 0, i, dst => do
      -- The character is looked at before the count.
      let _ ← path.charAt (source + i)
      setChar capacity dst i nul
  | count + 1, i, dst => do
      let char ← path.charAt (source + i)
      if char = nul then setChar capacity dst i nul
      else
        let dst ← setChar capacity dst i char
        path.copyFrom capacity source count (i + 1) dst

/-- `strncpy` of a part of the path. -/
def PathString.strncpy
    (path : PathString) (capacity : Nat) (dst : Memory Char) (source : Int)
    (count : Nat) : Except Fault (Memory Char) :=
  path.copyFrom capacity source count 0 dst

/-- The turns of the loop of `vfs_path_split` at positive indices. -/
def PathString.scanSlash (path : PathString) : Nat → Except Fault Nat
  | 0 => return 0
  | i + 1 => do
      let char ← path.charAt ((i + 1 : Nat) : Int)
      if char = '/' then return i + 1
      else path.scanSlash i

/-- The loop of `vfs_path_split`, which stops at once unless `len > 0`. -/
def PathString.scan (path : PathString) (len : Int) : Except Fault Int :=
  if 0 < len then (path.scanSlash len.toNat).map Int.ofNat
  else .ok len

/-- `(int)(strlen(path) - 1)` -/
def PathString.lastIndex (path : PathString) : Int :=
  (BitVec.ofNat 32 path.chars.length - 1).toInt

/-- The copy of the name behind the place where the loop has stopped. -/
def PathString.copyName (path : PathString) (name : Memory Char)
    (len i : Int) : Except Fault (Memory Char) := do
  let char ← path.charAt i
  if char = '/' then
    path.strncpy (NAME_MAX + 1) name (i + 1) (len - i).toNat
  else
    path.strncpy (NAME_MAX + 1) name i (len - i + 1).toNat

/-- The copy of the directory in front of that place. -/
def PathString.copyDirectory (path : PathString) (directory : Memory Char)
    (i : Int) : Except Fault (Memory Char) :=
  if 0 < i then path.strncpy PATH_MAX directory 0 i.toNat
  else setChar PATH_MAX directory 0 nul

/-- `vfs_path_split` -/
def PathString.split (path : PathString)
    (res : PathBuffers) : Except Fault PathBuffers := do
  let char ← path.charAt path.lastIndex
  let len := if char = '/' then path.lastIndex - 1 else path.lastIndex
  let i ← path.scan len
  let name ← path.copyName res.name len i
  let directory ← path.copyDirectory res.path i
  return { path := directory, name := name }

/-- Both buffers hold strings. -/
def PathBuffers.Terminated (buffers : PathBuffers) : Prop :=
  (∃ index, index < PATH_MAX ∧ buffers.path index = nul) ∧
    ∃ index, index < NAME_MAX + 1 ∧ buffers.name index = nul

/-- A path less a slash at its end. -/
def PathString.stem (path : PathString) : List Char :=
  if path.chars.getLast? = some '/' then path.chars.dropLast
  else path.chars

/--
Apart from a slash at the end there is something, and what follows the last
slash of it and what precedes that slash fit their buffers.
-/
def PathString.FitsBuffers (path : PathString) : Prop :=
  ∃ directory name, '/' ∉ name ∧
    (path.stem = directory ++ '/' :: name ∨
      path.stem = name ∧ name ≠ [] ∧ directory = []) ∧
    directory.length < PATH_MAX ∧ name.length ≤ NAME_MAX

/-- Where the scan of the characters up to an index stops. -/
structure ScanStops
    (chars : List Char)
    (len i : Nat) : Prop where
  below : i ≤ len
  slash : i = 0 ∨ chars[i]? = some '/'
  last : ∀ later, i < later → later ≤ len → chars[later]? ≠ some '/'

theorem scanBack_spec (chars : List Char) (len : Nat) :
    ScanStops chars len (scanBack chars len) := by
  induction len with
  | zero =>
    exact ⟨Nat.le_refl 0, .inl rfl,
      fun later above below => absurd above (Nat.not_lt.mpr below)⟩
  | succ len ih =>
    unfold scanBack
    by_cases isSlash : chars[len + 1]? = some '/'
    · rw [if_pos isSlash]
      exact ⟨Nat.le_refl _, .inr isSlash,
        fun later above below => absurd above (Nat.not_lt.mpr below)⟩
    · rw [if_neg isSlash]
      obtain ⟨below, slash, last⟩ := ih
      refine ⟨Nat.le_succ_of_le below, slash, fun later above bounded => ?_⟩
      rcases Nat.lt_or_eq_of_le bounded with earlier | here
      · exact last later above (Nat.le_of_lt_succ earlier)
      · rw [here]
        exact isSlash

namespace PathString

variable {path : PathString} {capacity : Nat}

theorem charAt_inside {index : Nat} (inside : index ≤ path.chars.length) :
    path.charAt index = .ok (path.chars.getD index nul) := by
  unfold charAt
  rw [if_pos (by omega), Int.toNat_natCast]

theorem getD_ne_nul {index : Nat} (inside : index < path.chars.length) :
    path.chars.getD index nul ≠ nul := by
  rw [List.getD_eq_getElem?_getD, List.getElem?_eq_getElem inside]
  exact path.noNul _ (List.getElem_mem inside)

theorem copyFrom_checks {source : Nat} (count i : Nat) (dst : Memory Char)
    (inside : source + i + count ≤ path.chars.length) :
    Checks (path.copyFrom capacity source count i dst) (i + count < capacity)
      ((dst.copy i (fun index => path.chars.getD (source + index) nul) i
        count).set (i + count) nul) := by
  induction count generalizing i dst with
  | zero =>
    unfold copyFrom
    have isChar := @charAt_inside path (source + i) (by omega)
    rw [Int.natCast_add] at isChar
    rw [isChar, Memory.copy_zero]
    exact .ite _ _
  | succ count ih =>
    unfold copyFrom
    have isChar := @charAt_inside path (source + i) (by omega)
    have notNul := @getD_ne_nul path (source + i) (by omega)
    rw [Int.natCast_add] at isChar
    rw [isChar]
    show Checks (if _ then _ else _) _ _
    rw [if_neg notNul]
    have stores :=
      @Checks.ite _ (i < capacity) _ Fault.strays
        (dst.set i (path.chars.getD (source + i) nul))
    have rest := stores.bind (ih (i + 1) (dst.set i _) (by omega))
    refine rest.congr ⟨fun fits => ⟨by omega, by omega⟩,
      fun fits => by omega⟩ ?_
    have isSucc :=
      Memory.copy_succ dst (fun index => path.chars.getD (source + index) nul)
        i i count
    rw [isSucc, show i + 1 + count = i + (count + 1) by omega]

theorem getD_eq_slash_iff {index : Nat} :
    path.chars.getD index nul = '/' ↔ path.chars[index]? = some '/' := by
  rw [List.getD_eq_getElem?_getD]
  cases path.chars[index]? with
  | none =>
    exact iff_of_false (by decide) (by simp)
  | some char =>
    simp

theorem scanSlash_eq {len : Nat} (inside : len ≤ path.chars.length) :
    path.scanSlash len = .ok (scanBack path.chars len) := by
  induction len with
  | zero =>
    rfl
  | succ len ih =>
    unfold scanSlash scanBack
    rw [charAt_inside inside]
    show (if _ then _ else _) = _
    by_cases isSlash : path.chars[len + 1]? = some '/'
    · rw [if_pos (getD_eq_slash_iff.mpr isSlash), if_pos isSlash]
      rfl
    · rw [if_neg fun same => isSlash (getD_eq_slash_iff.mp same),
        if_neg isSlash]
      exact ih (Nat.le_of_lt inside)

theorem scan_eq {len : Nat} (inside : len ≤ path.chars.length) :
    path.scan len = .ok (scanBack path.chars len : Nat) := by
  unfold scan
  by_cases positive : 0 < len
  · rw [if_pos (by omega), Int.toNat_natCast, scanSlash_eq inside]
    rfl
  · obtain rfl : len = 0 := by omega
    rfl

/-- Where the name of a part of the path begins. -/
def nameStart (path : PathString) (i : Nat) : Nat :=
  if path.chars[i]? = some '/' then i + 1 else i

/-- A buffer with a part of the path in it. -/
def copied (path : PathString) (buffer : Memory Char)
    (source count : Nat) : Memory Char :=
  (buffer.copy 0 (fun index => path.chars.getD (source + index) nul) 0
    count).set count nul

theorem strncpy_checks {source count : Nat} (dst : Memory Char)
    (inside : source + count ≤ path.chars.length) :
    Checks (path.strncpy capacity dst source count) (count < capacity)
      (path.copied dst source count) := by
  have checks := @copyFrom_checks path capacity source count 0 dst (by omega)
  rw [Nat.zero_add] at checks
  exact checks

theorem copyName_checks {len i : Nat} (name : Memory Char) (below : i ≤ len)
    (inside : len < path.chars.length) :
    Checks (path.copyName name len i) (len + 1 - path.nameStart i ≤ NAME_MAX)
      (path.copied name (path.nameStart i) (len + 1 - path.nameStart i)) := by
  unfold copyName nameStart
  rw [charAt_inside (by omega)]
  show Checks (if _ then _ else _) _ _
  by_cases isSlash : path.chars[i]? = some '/'
  · rw [if_pos (getD_eq_slash_iff.mpr isSlash), if_pos isSlash,
      show ((len : Int) - i).toNat = len + 1 - (i + 1) by omega]
    exact (@strncpy_checks path (NAME_MAX + 1) (i + 1) _ name
      (by omega)).congr (by omega) rfl
  · rw [if_neg fun same => isSlash (getD_eq_slash_iff.mp same), if_neg isSlash,
      show ((len : Int) - i + 1).toNat = len + 1 - i by omega]
    exact (strncpy_checks name (by omega)).congr (by omega) rfl

theorem copyDirectory_checks {i : Nat} (directory : Memory Char)
    (inside : i ≤ path.chars.length) :
    Checks (path.copyDirectory directory i) (i < PATH_MAX)
      (path.copied directory 0 i) := by
  unfold copyDirectory
  by_cases positive : 0 < i
  · rw [if_pos (by omega), Int.toNat_natCast]
    exact @strncpy_checks path PATH_MAX 0 i directory (by omega)
  · obtain rfl : i = 0 := by omega
    rw [if_neg (by omega)]
    exact .ite _ _

theorem parts_checks {len : Nat} (res : PathBuffers)
    (inside : len < path.chars.length) :
    Checks
      (do
        let i ← path.scan len
        let name ← path.copyName res.name len i
        let directory ← path.copyDirectory res.path i
        return ({ path := directory, name := name } : PathBuffers))
      (len + 1 - path.nameStart (scanBack path.chars len) ≤ NAME_MAX ∧
        scanBack path.chars len < PATH_MAX)
      { path := path.copied res.path 0 (scanBack path.chars len)
        name :=
          path.copied res.name (path.nameStart (scanBack path.chars len))
            (len + 1 - path.nameStart (scanBack path.chars len)) } := by
  have below := (scanBack_spec path.chars len).below
  rw [scan_eq (Nat.le_of_lt inside)]
  have directories :=
    copyDirectory_checks res.path (Nat.le_trans below (Nat.le_of_lt inside))
  have both :=
    @Checks.bind _ _ _ _ _ _
      (fun name => do
        let directory ← path.copyDirectory res.path (scanBack path.chars len)
        return ({ path := directory, name := name } : PathBuffers))
      _ (copyName_checks res.name below inside)
      (directories.bind (.pure _))
  exact both.congr (by rw [and_true]) rfl

theorem stem_prefix (path : PathString) : path.stem <+: path.chars := by
  unfold stem
  split
  · exact List.dropLast_prefix _
  · exact List.prefix_refl _

theorem getElem?_stem {index : Nat} (inside : index < path.stem.length) :
    path.chars[index]? = path.stem[index]? := by
  obtain ⟨rest, isChars⟩ := path.stem_prefix
  rw [← isChars, List.getElem?_append_left inside]

theorem length_stem (path : PathString) :
    path.stem.length =
      if path.chars.getD (path.chars.length - 1) nul = '/' then
        path.chars.length - 1
      else path.chars.length := by
  have isLast : path.chars.getLast? = some '/' ↔
        path.chars.getD (path.chars.length - 1) nul = '/' := by
    rw [List.getLast?_eq_getElem?, getD_eq_slash_iff]
  unfold stem
  by_cases isSlash : path.chars.getLast? = some '/'
  · rw [if_pos isSlash, if_pos (isLast.mp isSlash), List.length_dropLast]
  · rw [if_neg isSlash, if_neg fun same => isSlash (isLast.mpr same)]

theorem lastIndex_eq (nonempty : 0 < path.chars.length)
    (short : path.chars.length ≤ 2 ^ 31) :
    path.lastIndex = (path.chars.length - 1 : Nat) := by
  unfold lastIndex
  rw [BitVec.toInt_eq_toNat_cond, BitVec.toNat_sub, BitVec.toNat_ofNat,
    show (1 : BitVec 32).toNat = 1 from rfl]
  omega

theorem lastIndex_neg
    (outside : path.chars.length = 0 ∨ 2 ^ 31 < path.chars.length) :
    path.lastIndex < 0 := by
  have addressable := path.addressable
  unfold lastIndex
  rw [BitVec.toInt_eq_toNat_cond, BitVec.toNat_sub, BitVec.toNat_ofNat,
    show (1 : BitVec 32).toNat = 1 from rfl]
  omega

theorem charAt_negative {index : Int} (negative : index < 0) :
    path.charAt index = .error .strays :=
  if_neg (by omega)

theorem split_strays (res : PathBuffers)
    (outside : path.stem = [] ∨ 2 ^ 31 < path.chars.length) :
    path.split res = .error .strays := by
  unfold split
  by_cases isOutside : path.chars.length = 0 ∨ 2 ^ 31 < path.chars.length
  · rw [charAt_negative (lastIndex_neg isOutside)]
    rfl
  · have isEmpty : path.stem = [] := by
      rcases outside with isEmpty | isLong
      · exact isEmpty
      · exact absurd (.inr isLong) isOutside
    have length := path.length_stem
    rw [isEmpty, List.length_nil] at length
    rw [lastIndex_eq (by omega) (by omega), charAt_inside (by omega)]
    dsimp only [bind, Except.bind]
    split at length
    next isSlash =>
      -- The path is a slash, and the index in front of it is no index.
      rw [if_pos isSlash, show path.chars.length - 1 = 0 from length.symm]
      rfl
    next => omega

theorem split_eq (res : PathBuffers) (nonempty : path.stem ≠ [])
    (short : path.chars.length ≤ 2 ^ 31) :
    path.split res =
      (do
        let i ← path.scan (path.stem.length - 1 : Nat)
        let name ←
          path.copyName res.name (path.stem.length - 1 : Nat) i
        let directory ← path.copyDirectory res.path i
        return ({ path := directory, name := name } : PathBuffers)) := by
  have positive := List.length_pos_iff.mpr nonempty
  have bounded := path.stem_prefix.length_le
  have length := path.length_stem
  unfold split
  rw [lastIndex_eq (by omega) short, charAt_inside (by omega)]
  have isLen :
      (if path.chars.getD (path.chars.length - 1) nul = '/' then
        ((path.chars.length - 1 : Nat) : Int) - 1
      else ((path.chars.length - 1 : Nat) : Int)) =
        (path.stem.length - 1 : Nat) := by
    split at length
    next isSlash =>
      rw [if_pos isSlash]
      omega
    next notSlash =>
      rw [if_neg notSlash]
      omega
  rw [← isLen]
  rfl

/-- The parts fit exactly if those that the scan finds do. -/
theorem fitsBuffers_iff :
    path.FitsBuffers ↔
      path.stem ≠ [] ∧
        path.stem.length -
            path.nameStart (scanBack path.chars (path.stem.length - 1)) ≤
          NAME_MAX ∧
        scanBack path.chars (path.stem.length - 1) < PATH_MAX := by
  constructor
  · rintro ⟨directory, name, noSlash, isStem, directoryFits, nameFits⟩
    have notSlash (index : Nat) : name[index]? ≠ some '/' :=
      fun isSlash => noSlash (List.mem_of_getElem? isSlash)
    rcases isStem with isStem | ⟨isStem, nonempty, rfl⟩
    · have length : path.stem.length = directory.length + 1 + name.length := by
        rw [isStem, List.length_append, List.length_cons]
        omega
      have isSlash : path.chars[directory.length]? = some '/' := by
        rw [getElem?_stem (by omega), isStem,
          List.getElem?_append_right (Nat.le_refl _), Nat.sub_self]
        rfl
      have scanned :
          scanBack path.chars (path.stem.length - 1) = directory.length := by
        refine scanBack_eq (by omega) (.inr isSlash) ?_
        intro later above below
        obtain ⟨offset, rfl⟩ :
            ∃ offset, later = directory.length + (offset + 1) :=
          ⟨later - directory.length - 1, by omega⟩
        rw [getElem?_stem (by omega), isStem,
          List.getElem?_append_right (by omega), Nat.add_sub_cancel_left]
        exact notSlash offset
      rw [scanned]
      unfold nameStart
      rw [if_pos isSlash]
      refine ⟨?_, by omega, directoryFits⟩
      rw [isStem]
      simp
    · have positive := List.length_pos_iff.mpr nonempty
      have isName (index : Nat) (inside : index < name.length) :
          path.chars[index]? ≠ some '/' := by
        rw [getElem?_stem (by rw [isStem]; exact inside), isStem]
        exact notSlash index
      have scanned : scanBack path.chars (path.stem.length - 1) = 0 := by
        refine scanBack_eq (Nat.zero_le _) (.inl rfl) ?_
        intro later above below
        exact isName later (by rw [isStem] at below; omega)
      rw [scanned]
      unfold nameStart
      rw [if_neg (isName 0 positive), isStem]
      exact ⟨nonempty, nameFits, by decide⟩
  · rintro ⟨nonempty, nameFits, directoryFits⟩
    have positive := List.length_pos_iff.mpr nonempty
    obtain ⟨below, slash, last⟩ :=
      scanBack_spec path.chars (path.stem.length - 1)
    generalize scanBack path.chars (path.stem.length - 1) = i at *
    unfold nameStart at nameFits
    have noSlash (start : Nat) (above : i < start ∨ i = start ∧ start = 0 ∧
        path.chars[0]? ≠ some '/') :
        '/' ∉ path.stem.drop start := by
      intro isMember
      obtain ⟨index, isSlash⟩ := List.mem_iff_getElem?.mp isMember
      rw [List.getElem?_drop] at isSlash
      obtain ⟨inside, -⟩ := List.getElem?_eq_some_iff.mp isSlash
      rw [← getElem?_stem inside] at isSlash
      rcases Nat.lt_or_ge i (start + index) with later | first
      · exact last _ later (by omega) isSlash
      · rcases above with above | ⟨isStart, isZero, notSlash⟩
        · omega
        · rw [show start + index = 0 by omega] at isSlash
          exact notSlash isSlash
    by_cases isSlash : path.chars[i]? = some '/'
    · rw [if_pos isSlash] at nameFits
      have inside : i < path.stem.length := by omega
      have isChar : path.stem[i] = '/' := by
        rw [getElem?_stem inside, List.getElem?_eq_getElem inside] at isSlash
        exact Option.some.inj isSlash
      refine ⟨path.stem.take i, path.stem.drop (i + 1),
        noSlash _ (.inl (Nat.lt_succ_self i)), .inl ?_, ?_, ?_⟩
      · rw [← isChar, ← List.drop_eq_getElem_cons inside, List.take_append_drop]
      · rw [List.length_take]
        omega
      · rw [List.length_drop]
        exact nameFits
    · obtain rfl : i = 0 := slash.resolve_right isSlash
      rw [if_neg isSlash] at nameFits
      exact ⟨[], path.stem, noSlash 0 (.inr ⟨rfl, rfl, isSlash⟩),
        .inr ⟨rfl, nonempty, rfl⟩, by decide, nameFits⟩

theorem FitsBuffers.short (fits : path.FitsBuffers) :
    path.chars.length ≤ 2 ^ 31 := by
  obtain ⟨directory, name, -, isStem, directoryFits, nameFits⟩ := fits
  have length := path.length_stem
  have stemLength : path.stem.length ≤ directory.length + 1 + name.length := by
    rcases isStem with isStem | ⟨isStem, -, -⟩
    · rw [isStem, List.length_append, List.length_cons]
      omega
    · rw [isStem]
      omega
  unfold PATH_MAX at directoryFits
  unfold NAME_MAX at nameFits
  split at length <;> omega

end PathString

/--
`vfs_path_split` stays inside the string and inside both buffers exactly if the
path has a name and its parts fit them, and then it leaves two strings there.
-/
theorem split_inBounds_iff (path : PathString) (res : PathBuffers) :
    (∃ after, path.split res = .ok after ∧ after.Terminated) ↔
      path.FitsBuffers := by
  by_cases outside : path.stem = [] ∨ 2 ^ 31 < path.chars.length
  · rw [PathString.split_strays res outside]
    refine iff_of_false ?_ fun fits => ?_
    · rintro ⟨after, isOk, -⟩
      cases isOk
    · rcases outside with isEmpty | isLong
      · exact (PathString.fitsBuffers_iff.mp fits).1 isEmpty
      · exact absurd isLong (Nat.not_lt.mpr fits.short)
  have nonempty : path.stem ≠ [] := fun isEmpty => outside (.inl isEmpty)
  have short : path.chars.length ≤ 2 ^ 31 :=
    Nat.not_lt.mp fun isLong => outside (.inr isLong)
  have positive := List.length_pos_iff.mpr nonempty
  have bounded := path.stem_prefix.length_le
  have checks :=
    @PathString.parts_checks path (path.stem.length - 1) res (by omega)
  rw [Nat.sub_add_cancel positive] at checks
  rw [PathString.split_eq res nonempty short, PathString.fitsBuffers_iff]
  constructor
  · rintro ⟨after, isOk, -⟩
    refine ⟨nonempty, Classical.byContradiction fun fails => ?_⟩
    obtain ⟨fault, isWrong⟩ := checks.wrong fails
    rw [isOk] at isWrong
    cases isWrong
  · rintro ⟨-, nameFits, directoryFits⟩
    refine ⟨_, checks.ok ⟨nameFits, directoryFits⟩, ⟨_, directoryFits, ?_⟩,
      ⟨_, Nat.lt_succ_of_le nameFits, ?_⟩⟩
    · exact Memory.set_same _ _ _
    · exact Memory.set_same _ _ _

/-- The empty path. -/
def emptyPath : PathString where
  chars := []
  noNul := fun _ isMember => absurd isMember List.not_mem_nil
  addressable := by decide

/-- Two buffers of zeros. -/
def zeroBuffers : PathBuffers where
  path := fun _ => nul
  name := fun _ => nul

/-- The empty path makes the split read in front of the string. -/
theorem emptyPath_strays :
    ¬ ∃ after, emptyPath.split zeroBuffers = .ok after ∧ after.Terminated := by
  rintro ⟨after, isOk, -⟩
  cases isOk

end Idylla.Vfs
