import Idylla.Lib.Loops
import Idylla.Vfs.FileTable

namespace Idylla.Vfs

open Idylla.Lib

/-!
# Duplicating a descriptor from an index on

`do_sys_dup` looks for a free descriptor from an index that `sys_fcntl` gets
from the caller.  Nothing keeps that index from being negative, and the table
begins at 0.
-/

namespace FileTables

variable (tables : FileTables) (proc : Nat)

/-- `proc->filedes[i]`, which has to be in the table. -/
def slotAt (index : Int) : Except Fault (Option FileDes) :=
  if 0 ≤ index ∧ index < OPEN_MAX then
    .ok (tables.filedes proc index.toNat)
  else
    .error .strays

/-- The loop of `do_sys_dup` with so many turns left. -/
def scanSlots : Nat → Int → Except Fault (Option Nat)
  | 0, _ => .ok none
  | turns + 1, index => do
      let slot ← tables.slotAt proc index
      if slot.isNone then return some index.toNat
      else scanSlots turns (index + 1)

end FileTables

/-- `do_sys_dup` with the index that it is called with. -/
def doSysDupFrom (tables : FileTables) (proc : Nat)
    (fd start : Int) : Except Fault (FileTables × Except Errno Nat) :=
  match tables.descriptor proc fd with
  | none => return (tables, .error .EBADF)
  | some filedes => do
      let found ← tables.scanSlots proc (OPEN_MAX - start).toNat start
      match found with
      | none => return (tables, .error .EMFILE)
      | some other =>
        match tables.dup filedes proc other 0 with
        -- The descriptor points to no file.
        | none => throw .strays
        | some after => return (after, .ok other)

/-- The calls that end in `do_sys_dup`. -/
inductive DupCall where
  | dup (fd : Int)
  | dupfd (fd : Int) (arg : BitVec 32)

/-- The descriptor that is duplicated. -/
def DupCall.fd : DupCall → Int
  | .dup fd => fd
  | .dupfd fd _ => fd

/-- The index from which on a free descriptor is looked for. -/
def DupCall.start : DupCall → Int
  | .dup _ => 0
  | .dupfd _ arg => arg.toInt

/-- `sys_dup`, and `sys_fcntl` with `F_DUPFD`. -/
def DupCall.run (tables : FileTables) (proc : Nat) :
    DupCall → Except Fault (FileTables × Except Errno Nat)
  | .dup fd => doSysDupFrom tables proc fd 0
  | .dupfd fd arg =>
    match tables.descriptor proc fd with
    | none => return (tables, .error .EBADF)
    | some _ => doSysDupFrom tables proc fd arg.toInt

/-- The lowest free slot of a table from an index on. -/
structure LowestFree
    (slots : Nat → Option FileDes)
    (start index : Nat) : Prop where
  lower : start ≤ index
  upper : index < OPEN_MAX
  free : slots index = none
  lowest : ∀ other, start ≤ other → other < index → slots other ≠ none

/-- The first free slot that a loop over a table finds. -/
def firstFree (slots : Nat → Option FileDes) (start : Nat) : Option Nat :=
  (List.range' start (OPEN_MAX - start)).find? fun index => (slots index).isNone

variable {slots : Nat → Option FileDes}

theorem firstFree_some_iff {start index : Nat} :
    firstFree slots start = some index ↔ LowestFree slots start index := by
  unfold firstFree
  rw [List.find?_range'_eq_some, List.mem_range'_1]
  constructor
  · rintro ⟨isFree, ⟨lower, upper⟩, lowest⟩
    refine ⟨lower, by omega, by simpa using isFree, ?_⟩
    intro other reached below isNone
    have taken := lowest other reached below
    simp [isNone] at taken
  · rintro ⟨lower, upper, isFree, lowest⟩
    refine ⟨by simp [isFree], ⟨lower, by omega⟩, fun other reached below => ?_⟩
    simpa [Option.isSome_iff_ne_none] using lowest other reached below

theorem firstFree_none_iff {start : Nat} :
    firstFree slots start = none ↔ ∀ index, ¬ LowestFree slots start index := by
  rw [Option.eq_none_iff_forall_ne_some]
  refine forall_congr' fun index => ?_
  rw [← firstFree_some_iff]

/-- A descriptor has been copied to an index, and nothing else has changed. -/
structure CopiedTo
    (tables after : FileTables) (proc index : Nat)
    (filedes : FileDes) : Prop where
  copy : after.filedes proc index = some { file := filedes.file, flags := 0 }
  others : ∀ otherProc other, ¬ (otherProc = proc ∧ other = index) →
      after.filedes otherProc other = tables.filedes otherProc other
  refs : ∀ file, tables.files.cells filedes.file = some file →
      after.files.cells filedes.file = some { file with refs := file.refs + 1 }
  files : ∀ pointer, pointer ≠ filedes.file →
      after.files.cells pointer = tables.files.cells pointer

/--
What duplicating is to do: it copies to the lowest free index, or it changes
nothing because there is none or the index is negative.
-/
def PicksLowest
    (tables : FileTables) (proc : Nat) (filedes : FileDes) (start : Int)
    (result : Except Fault (FileTables × Except Errno Nat)) : Prop :=
  (∃ index after, LowestFree (tables.filedes proc) start.toNat index ∧
    result = .ok (after, .ok index) ∧
      CopiedTo tables after proc index filedes) ∨
    (start < 0 ∨
        ∀ index, ¬ LowestFree (tables.filedes proc) start.toNat index) ∧
      ∃ errno, result = .ok (tables, .error errno)

section Scan

variable {tables : FileTables} {proc : Nat} {filedes : FileDes}

theorem scanSlots_eq (turns start : Nat) (ends : start + turns = OPEN_MAX) :
    tables.scanSlots proc turns start =
      .ok (tables.freeDescriptor proc start) := by
  induction turns generalizing start with
  | zero =>
    unfold FileTables.freeDescriptor
    rw [show OPEN_MAX - start = 0 by omega]
    rfl
  | succ turns ih =>
    have inside : 0 ≤ (start : Int) ∧ (start : Int) < OPEN_MAX := by
      omega
    have later := ih (start + 1) (by omega)
    have isCount : OPEN_MAX - start = OPEN_MAX - (start + 1) + 1 := by
      omega
    unfold FileTables.scanSlots FileTables.slotAt
    rw [if_pos inside, Int.toNat_natCast]
    unfold FileTables.freeDescriptor at later ⊢
    rw [isCount, List.range'_succ, List.find?_cons]
    cases tables.filedes proc start with
    | none =>
      rfl
    | some slot =>
      exact later

theorem scanSlots_negative {start : Int} (negative : start < 0) (turns : Nat) :
    tables.scanSlots proc (turns + 1) start = .error .strays := by
  unfold FileTables.scanSlots FileTables.slotAt
  rw [if_neg (by omega)]
  rfl

theorem copiedTo_dup {file : OpenFile}
    (live : tables.files.cells filedes.file = some file) (index : Nat) :
    ∃ after, tables.dup filedes proc index 0 = some after ∧
      CopiedTo tables after proc index filedes := by
  refine ⟨_, by rw [FileTables.dup, live], ?_⟩
  refine ⟨if_pos ⟨rfl, rfl⟩, fun _ _ different => if_neg different, ?_, ?_⟩
  · intro cell isCell
    show (tables.files.modify _ _).cells _ = _
    rw [Heap.cells_modify_same, isCell]
    rfl
  · intro pointer different
    exact Heap.cells_modify_of_ne different

/--
From an index of the table on `do_sys_dup` takes the lowest free descriptor, as
`doSysDup` has it.
-/
theorem doSysDupFrom_cases {fd : Int} {file : OpenFile}
    (isOpen : tables.descriptor proc fd = some filedes)
    (live : tables.files.cells filedes.file = some file) (start : Nat) :
    (∃ index after, LowestFree (tables.filedes proc) start index ∧
      doSysDup tables proc fd start = some (after, .ok index) ∧
      doSysDupFrom tables proc fd start = .ok (after, .ok index) ∧
      CopiedTo tables after proc index filedes) ∨
    (∀ index, ¬ LowestFree (tables.filedes proc) start index) ∧
      doSysDup tables proc fd start = some (tables, .error .EMFILE) ∧
      doSysDupFrom tables proc fd start = .ok (tables, .error .EMFILE) := by
  have scanned : tables.scanSlots proc (OPEN_MAX - (start : Int)).toNat start =
        .ok (tables.freeDescriptor proc start) := by
    by_cases inside : start ≤ OPEN_MAX
    · refine scanSlots_eq _ start ?_
      omega
    · have noTurns : (OPEN_MAX - (start : Int)).toNat = 0 := by omega
      have noSlots : OPEN_MAX - start = 0 := by omega
      unfold FileTables.freeDescriptor
      rw [noTurns, noSlots]
      rfl
  unfold doSysDup doSysDupFrom
  rw [isOpen]
  rw [scanned]
  cases isFree : tables.freeDescriptor proc start with
  | none =>
    exact .inr ⟨firstFree_none_iff.mp isFree, rfl, rfl⟩
  | some index =>
    obtain ⟨after, isDup, copied⟩ :=
      @copiedTo_dup tables proc filedes file live index
    refine .inl ⟨index, after, firstFree_some_iff.mp isFree, ?_, ?_, copied⟩
    · dsimp only
      rw [isDup]
      rfl
    · show (match tables.dup filedes proc index 0 with
        | none => Except.error Fault.strays
        | some after => Except.ok (after, Except.ok index)) = _
      rw [isDup]

end Scan

/--
`sys_dup` and `fcntl(F_DUPFD)` do what they are to do exactly if the index that
they begin with is not negative.
-/
theorem dupCall_picksLowest_iff
    {tables : FileTables} {proc : Nat} {call : DupCall} {filedes : FileDes}
    {file : OpenFile} (isOpen : tables.descriptor proc call.fd = some filedes)
    (live : tables.files.cells filedes.file = some file) :
    PicksLowest tables proc filedes call.start (call.run tables proc) ↔
      0 ≤ call.start := by
  have isRun : call.run tables proc =
        doSysDupFrom tables proc call.fd call.start := by
    cases call with
    | dup fd =>
      rfl
    | dupfd fd arg =>
      have isFound : tables.descriptor proc fd = some filedes := isOpen
      unfold DupCall.run
      dsimp only
      rw [isFound]
      rfl
  rw [isRun]
  constructor
  · intro picks
    refine Int.not_lt.mp fun negative => ?_
    have strays :
        doSysDupFrom tables proc call.fd call.start = .error .strays := by
      unfold doSysDupFrom
      rw [isOpen]
      obtain ⟨turns, isTurns⟩ :
          ∃ turns, (OPEN_MAX - call.start).toNat = turns + 1 :=
        ⟨(OPEN_MAX - call.start).toNat - 1, by omega⟩
      rw [isTurns, scanSlots_negative negative]
      rfl
    rw [strays] at picks
    rcases picks with ⟨_, _, -, isOk, -⟩ | ⟨-, _, isOk⟩
    · cases isOk
    · cases isOk
  · intro notNegative
    obtain ⟨start, isStart⟩ := Int.eq_ofNat_of_zero_le notNegative
    unfold PicksLowest
    rw [isStart, Int.toNat_natCast]
    rcases doSysDupFrom_cases isOpen live start with
      ⟨index, after, lowest, -, isResult, copied⟩ | ⟨none, -, isResult⟩
    · exact .inl ⟨index, after, lowest, isResult, copied⟩
    · exact .inr ⟨.inr none, .EMFILE, isResult⟩

/-- Process 1 has opened one regular file. -/
def oneOpen : FileTables :=
  (sysOpenFile .boot 1 (.ok (⟨0, 5⟩, 0o100644)) (.ok ())).1

/-- The file of that process. -/
def oneFile : OpenFile where
  refs := 1
  vnode := some ⟨0, 5⟩
  dataptr := none
  type := 0o100000

/-- Duplicating from index 3 on. -/
theorem oneOpen_picksLowest :
    PicksLowest oneOpen 1 { file := 0, flags := 0 } 3
      ((DupCall.dupfd 0 3).run oneOpen 1) :=
  (@dupCall_picksLowest_iff oneOpen 1 (.dupfd 0 3) { file := 0, flags := 0 }
    oneFile rfl rfl).mpr (by decide)

/-- Index -1 is in front of the table. -/
theorem oneOpen_strays :
    oneOpen.descriptor 1 (DupCall.dupfd 0 (-1)).fd =
        some { file := 0, flags := 0 } ∧
      oneOpen.files.cells 0 = some oneFile ∧
      ¬ PicksLowest oneOpen 1 { file := 0, flags := 0 }
        (DupCall.dupfd 0 (-1)).start
        ((DupCall.dupfd 0 (-1)).run oneOpen 1) := by
  refine ⟨rfl, rfl, fun picks => ?_⟩
  rcases picks with ⟨_, _, -, isOk, -⟩ | ⟨-, _, isOk⟩
  · cases isOk
  · cases isOk

end Idylla.Vfs
