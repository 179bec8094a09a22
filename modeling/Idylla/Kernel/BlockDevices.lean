import Idylla.Errno
import Idylla.Lib.Loops
import Idylla.Lib.Run

namespace Idylla.Kernel

open Idylla.Lib

/-!
# The table of block devices

`bdev_open`, `bdev_read` and `bdev_write` take the entry in front of the one
that the major number names.  Major numbers begin with 1, and nobody who passes
a device number on looks whether it does.
-/

/-- `DEV_BLOCK_MAX` -/
def DEV_BLOCK_MAX : Nat := 255

/-- What a driver returns for a transfer of some length at an offset. -/
abbrev BdevTransfer :=
  BitVec 16 → BitVec 32 → BitVec 64 → Except Errno Int

/-- The operations of a driver: what they return. -/
structure BdevOps where
  opsOpen : BitVec 16 → Except Errno Int
  read : Option BdevTransfer
  write : Option BdevTransfer

/-- `struct bdev` -/
structure Bdev where
  ops : BdevOps
  refcount : Int

/-- `_bdev_table` -/
abbrev BdevTable := Fin DEV_BLOCK_MAX → Option Bdev

/-- `DEV_MAJOR` -/
def DEV_MAJOR (dev : BitVec 16) : Nat := (dev >>> 8).toNat

/-- The calls on a device, with its number. -/
inductive BdevCall where
  | bdevOpen (dev : BitVec 16)
  | bdevRead (dev : BitVec 16) (len : BitVec 32) (offset : BitVec 64)
  | bdevWrite (dev : BitVec 16) (len : BitVec 32) (offset : BitVec 64)

def BdevCall.dev : BdevCall → BitVec 16
  | .bdevOpen dev | .bdevRead dev _ _ | .bdevWrite dev _ _ => dev

namespace BdevTable

variable (table : BdevTable)

/-- `_bdev_table[index]` -/
def get (index : Int) : Except Fault (Option Bdev) :=
  if inside : 0 ≤ index ∧ index < DEV_BLOCK_MAX then
    .ok (table ⟨index.toNat, by omega⟩)
  else
    .error .strays

/-- The count of a device changed. -/
def count (dev : BitVec 16) (bdev : Bdev) (refcount : Int) : BdevTable :=
  fun index =>
    if index.val + 1 = DEV_MAJOR dev then
      some { bdev with refcount := refcount }
    else
      table index

/-- `bdev_open` -/
def bdevOpen (dev : BitVec 16) : Except Fault (Except Errno Int × BdevTable) :=
  (table.get ((DEV_MAJOR dev : Int) - 1)).map fun
    | none => (.error .ENODEV, table)
    | some bdev =>
      match bdev.ops.opsOpen dev with
      | .ok 0 => (.ok 0, table.count dev bdev (bdev.refcount + 1))
      | err => (err, table.count dev bdev (bdev.refcount + 1 - 1))

/-- `bdev_read` and `bdev_write`, by the operation. -/
def transfer (op : BdevOps → Option BdevTransfer)
    (dev : BitVec 16) (len : BitVec 32)
    (offset : BitVec 64) : Except Fault (Except Errno Int × BdevTable) :=
  (table.get ((DEV_MAJOR dev : Int) - 1)).map fun
    | none => (.error .ENODEV, table)
    | some bdev =>
      match op bdev.ops with
      | none => (.error .ENOTSUP, table)
      | some op => (op dev len offset, table)

/-- A call: what it returns, and the table behind it. -/
def call : BdevCall → Except Fault (Except Errno Int × BdevTable)
  | .bdevOpen dev => table.bdevOpen dev
  | .bdevRead dev len offset => table.transfer BdevOps.read dev len offset
  | .bdevWrite dev len offset => table.transfer BdevOps.write dev len offset

/-- There is a device with the major number. -/
def Registered (dev : BitVec 16) : Prop :=
  ∃ index, index.val + 1 = DEV_MAJOR dev ∧ table index ≠ none

end BdevTable

/-- The call stays in the table, and fails where there is no device. -/
def BdevCall.Safe (call : BdevCall) (table : BdevTable) : Prop :=
  ∃ answer after, table.call call = .ok (answer, after) ∧
    (¬ table.Registered call.dev → ∃ errno, answer = .error errno)

/-- The table, and the devices that filesystems have been mounted from. -/
structure BdevKernel where
  table : BdevTable
  mounted : List (BitVec 16)

/-- Who uses the table. -/
inductive BdevLabel where
  /-- `bdev_register` -/
  | register (index : Fin DEV_BLOCK_MAX) (ops : BdevOps)
  /-- `sys_open` from the search for a descriptor on. -/
  | sysOpen (isBlk isFree : Bool) (rdev : BitVec 16)
  /-- `sys_mount`, with the flag `FS_NODEV` and `st_rdev` of the source. -/
  | sysMount (nodev : Bool) (stRdev : BitVec 16)
  /-- The driver of a filesystem reads or writes. -/
  | driver (mount : Nat) (writes : Bool) (len : BitVec 32) (offset : BitVec 64)

namespace BdevKernel

variable (kernel : BdevKernel)

/-- The call on a device that is made, if there is one. -/
def made : BdevLabel → Option BdevCall
  | .register _ _ => none
  | .sysOpen isBlk isFree rdev =>
    if isBlk && isFree then some (.bdevOpen rdev) else none
  | .sysMount nodev stRdev =>
    if nodev then none else some (.bdevOpen stRdev)
  | .driver mount writes len offset =>
    kernel.mounted[mount]?.map fun dev =>
      if writes then .bdevWrite dev len offset
      else .bdevRead dev len offset

/-- A step that stays in the table. -/
def Step (kernel : BdevKernel) (label : BdevLabel) (next : BdevKernel) : Prop :=
  match kernel.made label with
  | none =>
    next = kernel ∨
      ∃ index ops, label = .register index ops ∧ kernel.table index = none ∧
        (∀ other < index, kernel.table other ≠ none) ∧
        next.table = (fun other =>
          if other = index then some ⟨ops, 0⟩ else kernel.table other) ∧
        next.mounted = kernel.mounted
  | some call =>
    ∃ answer, kernel.table.call call = .ok (answer, next.table) ∧
      (next.mounted = kernel.mounted ∨
        ∃ stRdev, label = .sysMount false stRdev ∧ answer = .ok 0 ∧
          next.mounted = stRdev :: kernel.mounted)

/-- No device, no mount. -/
def boot : BdevKernel := ⟨fun _ => none, []⟩

end BdevKernel

/-- A number taken from a vnode has a major number. -/
def MajorGiven (_ : BdevKernel) : BdevLabel → Prop
  | .sysOpen isBlk isFree rdev =>
    isBlk = true → isFree = true → DEV_MAJOR rdev ≠ 0
  | .sysMount nodev stRdev => nodev = false → DEV_MAJOR stRdev ≠ 0
  | .register _ _ | .driver _ _ _ _ => True

theorem BdevCall.safe_iff (call : BdevCall) (table : BdevTable) :
    call.Safe table ↔ DEV_MAJOR call.dev ≠ 0 := by
  have byte : DEV_MAJOR call.dev < 256 := by
    unfold DEV_MAJOR
    rw [BitVec.toNat_ushiftRight, Nat.shiftRight_eq_div_pow]
    omega
  by_cases isZero : DEV_MAJOR call.dev = 0
  · have strays : table.get ((DEV_MAJOR call.dev : Int) - 1) =
        .error .strays := by
      unfold BdevTable.get
      rw [dif_neg (by omega)]
    refine iff_of_false ?_ (not_not_intro isZero)
    rintro ⟨answer, after, isAnswer, -⟩
    have faults : table.call call = .error .strays := by
      cases call <;> exact congrArg (Except.map _) strays
    cases faults.symm.trans isAnswer
  · refine iff_of_true ?_ isZero
    have inside : ((DEV_MAJOR call.dev : Int) - 1).toNat < DEV_BLOCK_MAX := by
      unfold DEV_BLOCK_MAX
      omega
    have isEntry : table.get ((DEV_MAJOR call.dev : Int) - 1) =
        .ok (table ⟨((DEV_MAJOR call.dev : Int) - 1).toNat, inside⟩) := by
      unfold BdevTable.get
      rw [dif_pos (by omega)]
    have missing (unregistered : ¬ table.Registered call.dev) :
        table ⟨((DEV_MAJOR call.dev : Int) - 1).toNat, inside⟩ = none := by
      refine Classical.byContradiction fun isThere =>
        unregistered ⟨_, ?_, isThere⟩
      dsimp only
      omega
    cases call with
    | bdevOpen dev =>
      refine ⟨_, _, congrArg (Except.map _) isEntry, fun unregistered => ?_⟩
      rw [missing unregistered]
      exact ⟨_, rfl⟩
    | bdevRead dev len offset | bdevWrite dev len offset =>
      refine ⟨_, _, congrArg (Except.map _) isEntry, fun unregistered => ?_⟩
      rw [missing unregistered]
      exact ⟨_, rfl⟩

/--
As long as every number taken from a vnode has a major number, exactly such a
number is used safely, and the drivers use no other.
-/
theorem bdevCalls_safe_iff {labels : List BdevLabel} {kernel : BdevKernel}
    (ran : Run (Guarded MajorGiven BdevKernel.Step) .boot labels kernel)
    (label : BdevLabel) :
    (∀ call ∈ kernel.made label, call.Safe kernel.table) ↔
      MajorGiven kernel label := by
  have given : ∀ dev ∈ kernel.mounted, DEV_MAJOR dev ≠ 0 := by
    refine ran.invariant
      (fun _ kernel => ∀ dev ∈ kernel.mounted, DEV_MAJOR dev ≠ 0)
      (fun _ isMounted => absurd isMounted List.not_mem_nil) ?_
    rintro past source label next given ⟨isGiven, steps⟩
    unfold BdevKernel.Step at steps
    split at steps
    · rcases steps with rfl | ⟨index, ops, -, -, -, -, same⟩
      · exact given
      · exact same ▸ given
    · obtain ⟨answer, -, same | ⟨stRdev, rfl, -, isMounted⟩⟩ := steps
      · exact same ▸ given
      · rw [isMounted]
        exact List.forall_mem_cons.mpr ⟨isGiven rfl, given⟩
  cases label with
  | register index ops =>
    exact iff_of_true nofun trivial
  | sysOpen isBlk isFree rdev =>
    cases isBlk <;> cases isFree <;>
      simp [BdevKernel.made, MajorGiven, BdevCall.safe_iff, BdevCall.dev]
  | sysMount nodev stRdev =>
    cases nodev <;>
      simp [BdevKernel.made, MajorGiven, BdevCall.safe_iff, BdevCall.dev]
  | driver mount writes len offset =>
    refine iff_of_true (fun call isMade => ?_) trivial
    obtain ⟨dev, isMounted, rfl⟩ := Option.map_eq_some_iff.mp isMade
    refine (BdevCall.safe_iff _ _).mpr ?_
    have isGiven := given dev (List.mem_of_getElem? isMounted)
    cases writes <;> exact isGiven

/-- A device that is not there is opened safely. -/
theorem openMissing_safe :
    Run (Guarded MajorGiven BdevKernel.Step) .boot [] .boot ∧
      ∀ call ∈ BdevKernel.boot.made (.sysOpen true true 0x0100),
        call.Safe BdevKernel.boot.table :=
  ⟨.start, (bdevCalls_safe_iff .start _).mpr fun _ _ => by decide⟩

/-- A regular file, whose `st_rdev` is 0, is mounted. -/
theorem mountFile_strays :
    ¬ ∀ labels kernel label,
      Run BdevKernel.Step .boot labels kernel →
        ∀ call ∈ kernel.made label, call.Safe kernel.table := by
  intro safe
  have isSafe := safe [] .boot (.sysMount false 0) .start (.bdevOpen 0) rfl
  exact (BdevCall.safe_iff _ _).mp isSafe (by decide)

end Idylla.Kernel
