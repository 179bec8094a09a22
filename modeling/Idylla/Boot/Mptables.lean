import Idylla.Lib.AddressSpace
import Mathlib.Algebra.GroupWithZero.Nat

namespace Idylla.Boot

open Idylla.Lib

/-!
# The tables of multiprocessor machines

`mptables_setup` of `arch/x86/mptables.c`: the search for the floating pointer
structure, the tests of the configuration table and the loop over its entries.
What is printed is left out.
-/

/-- `MP_FPS_MAGIC` -/
def MP_FPS_MAGIC : BitVec 32 := 0x5F504D5F

/-- `MP_CTH_MAGIC` -/
def MP_CTH_MAGIC : BitVec 32 := 0x504D4350

/-- `MP_ENTRY_CPU` -/
def MP_ENTRY_CPU : BitVec 8 := 0

/-- `MP_ENTRY_IOAPIC` -/
def MP_ENTRY_IOAPIC : BitVec 8 := 2

/-- `MP_CPU_FLAGS_EN` -/
def MP_CPU_FLAGS_EN : BitVec 8 := 1

/-- `sizeof(struct mp_fps)` -/
def sizeofFps : Nat := 16

/-- `sizeof(struct mp_ctable_header)` -/
def sizeofHeader : Nat := 44

/-- `sizeof(struct mp_entry_cpu)` -/
def sizeofEntryCpu : Nat := 20

/-- `KERNEL_PHYS2VIRT` -/
def KERNEL_PHYS2VIRT (address : BitVec 32) : BitVec 32 := address + 0xC0000000

/-- The address space of the kernel. -/
abbrev KernelBytes := AddressSpace 32

namespace KernelBytes

variable (memory : KernelBytes)

/-- A byte at an offset from an address. -/
def byteAt (address : BitVec 32) (offset : Nat) : BitVec 8 :=
  memory (address + BitVec.ofNat 32 offset)

/-- A `uint16_t` at an offset from an address. -/
def halfAt (address : BitVec 32) (offset : Nat) : BitVec 16 :=
  memory.load (address + BitVec.ofNat 32 offset) 2

/-- A `uint32_t` at an offset from an address. -/
def wordAt (address : BitVec 32) (offset : Nat) : BitVec 32 :=
  memory.load (address + BitVec.ofNat 32 offset) 4

/-- The sum in `mp_checksum` behind so many bytes. -/
def byteSum (ptr : BitVec 32) : Nat → BitVec 32
  | 0 => 0
  | len + 1 => byteSum ptr len + (memory.byteAt ptr len).setWidth 32

/-- `mp_checksum` -/
def mpChecksum (ptr : BitVec 32) (len : Nat) : BitVec 8 :=
  (memory.byteSum ptr len).setWidth 8

/-- `spec_rev` is one of those that are known. -/
def KnownRev (rev : BitVec 8) : Prop := rev = 1 ∨ rev = 4

instance (rev : BitVec 8) : Decidable (KnownRev rev) :=
  inferInstanceAs (Decidable (_ ∨ _))

/-- The tests of a floating pointer structure. -/
def isFps (fps : BitVec 32) : Bool :=
  memory.wordAt fps 0 = MP_FPS_MAGIC ∧ memory.byteAt fps 8 = 1 ∧
    memory.mpChecksum fps sizeofFps = 0 ∧ KnownRev (memory.byteAt fps 9)

/-- `bios_get_ebda` -/
def biosGetEbda : BitVec 32 :=
  (memory.halfAt (KERNEL_PHYS2VIRT 0x40E) 0).setWidth 32 <<< 4

/-- The first structure among so many places from an address on. -/
def searchFps (start : BitVec 32) (places : Nat) : Option (BitVec 32) :=
  ((List.range places).map fun place =>
    start + BitVec.ofNat 32 (place * sizeofFps)).find? memory.isFps

/-- `_mp_fps` behind the loops over the EBDA and the memory of the BIOS. -/
def mpFps : Option (BitVec 32) :=
  let ebda := memory.biosGetEbda
  let inEbda :=
    if 0 < ebda then memory.searchFps (KERNEL_PHYS2VIRT ebda) (1024 / sizeofFps)
    else none
  -- the last place is the one below 0xFFFFF
  inEbda.or (memory.searchFps (KERNEL_PHYS2VIRT 0xE0000) (0x20000 / sizeofFps))

/-- `_mp_ctable_header->base_length` -/
def baseLength (header : BitVec 32) : Nat := (memory.halfAt header 4).toNat

/-- `_mp_ctable_header->entry_count` -/
def entryCount (header : BitVec 32) : Nat := (memory.halfAt header 34).toNat

/-- `_mp_ctable_header` behind its tests. -/
def mpCtableHeader : Option (BitVec 32) :=
  memory.mpFps.bind fun fps =>
    let header := KERNEL_PHYS2VIRT (memory.wordAt fps 4)
    if header = 0 ∨ memory.wordAt header 0 ≠ MP_CTH_MAGIC ∨
        ¬ KnownRev (memory.byteAt header 6) ∨
        memory.mpChecksum header (memory.baseLength header) ≠ 0 then
      none
    else
      some header

/-- `MPC_NEXT_ENTRY` -/
def mpcNextEntry (ptr : BitVec 32) : BitVec 32 :=
  if memory ptr = MP_ENTRY_CPU then ptr + BitVec.ofNat 32 sizeofEntryCpu
  else ptr + 8

end KernelBytes

/--
`_mp_cpus`, the calls of `ioapic_add`, and where entries have been examined.
-/
structure MpScan where
  cpus : Nat
  ioapics : List (BitVec 8 × BitVec 32) := []
  examined : List (BitVec 32) := []
  deriving Repr, DecidableEq

section Setup

variable (enableIoapic : Bool) (memory : KernelBytes)

/-- The `switch` on an entry. -/
def examine (ptr : BitVec 32) (scan : MpScan) : MpScan :=
  let scan := { scan with examined := scan.examined ++ [ptr] }
  if memory ptr = MP_ENTRY_CPU then
    if memory.byteAt ptr 3 &&& MP_CPU_FLAGS_EN ≠ MP_CPU_FLAGS_EN then scan
    else { scan with cpus := scan.cpus + 1 }
  else if enableIoapic ∧ memory ptr = MP_ENTRY_IOAPIC then
    let ioapic := (memory.byteAt ptr 1, memory.wordAt ptr 4)
    { scan with ioapics := scan.ioapics ++ [ioapic] }
  else
    scan

/-- The loop over the entries, with so many turns to go. -/
def scanEntries : Nat → BitVec 32 → MpScan → MpScan
  | 0, _, scan => scan
  | left + 1, ptr, scan =>
    scanEntries left (memory.mpcNextEntry ptr)
      (examine enableIoapic memory ptr scan)

/-- `mptables_setup`.  The loop runs from 1 up to `entry_count`. -/
def mptablesSetup (cpus : Nat) : MpScan :=
  match memory.mpCtableHeader with
  | none => { cpus }
  | some header =>
    scanEntries enableIoapic memory (memory.entryCount header - 1)
      (header + BitVec.ofNat 32 sizeofHeader) { cpus }

end Setup

/-- An entry: 20 bytes for a processor, 8 for anything else. -/
structure MpEntry where
  bytes : List (BitVec 8)
  sized :
    bytes.length = if bytes.head? = some MP_ENTRY_CPU then sizeofEntryCpu else 8

namespace MpEntry

/-- A processor with the enabled flag. -/
def enabled (entry : MpEntry) : Bool :=
  entry.bytes.head? = some MP_ENTRY_CPU ∧
    entry.bytes.getD 3 0 &&& MP_CPU_FLAGS_EN = MP_CPU_FLAGS_EN

end MpEntry

/-- Entries one behind another from an address on. -/
def LaidOut (memory : KernelBytes) : BitVec 32 → List MpEntry → Prop
  | _, [] => True
  | ptr, entry :: rest =>
    (∀ offset, offset < entry.bytes.length →
      memory.byteAt ptr offset = entry.bytes.getD offset 0) ∧
      LaidOut memory (ptr + BitVec.ofNat 32 entry.bytes.length) rest

/-- Where entries start that lie one behind another. -/
def entryStarts : BitVec 32 → List MpEntry → List (BitVec 32)
  | _, [] => []
  | ptr, entry :: rest =>
    ptr :: entryStarts (ptr + BitVec.ofNat 32 entry.bytes.length) rest

/-- A machine with a valid configuration table. -/
structure MpMachine where
  memory : KernelBytes
  header : BitVec 32
  entries : List MpEntry
  found : memory.mpCtableHeader = some header
  counted : memory.entryCount header = entries.length
  covered : memory.baseLength header =
      sizeofHeader + (entries.map fun entry => entry.bytes.length).sum
  laidOut : LaidOut memory (header + BitVec.ofNat 32 sizeofHeader) entries

/-- Every entry is examined once where it starts, and nothing else is. -/
structure ScansCompletely
    (machine : MpMachine) (enableIoapic : Bool)
    (cpus : Nat) : Prop where
  examined : (mptablesSetup enableIoapic machine.memory cpus).examined =
      entryStarts (machine.header + BitVec.ofNat 32 sizeofHeader)
        machine.entries
  counted : (mptablesSetup enableIoapic machine.memory cpus).cpus =
      cpus + machine.entries.countP MpEntry.enabled

section Loop

variable {enableIoapic : Bool} {memory : KernelBytes} {ptr : BitVec 32}
  {entry : MpEntry} {entries : List MpEntry} {scan : MpScan}

namespace MpEntry

theorem length_pos (entry : MpEntry) : 3 < entry.bytes.length := by
  rw [entry.sized]
  split <;> decide

theorem head?_eq (entry : MpEntry) :
    entry.bytes.head? = some (entry.bytes.getD 0 0) := by
  have long := entry.length_pos
  cases isBytes : entry.bytes with
  | nil =>
    rw [isBytes] at long
    exact absurd long (Nat.not_lt_zero 3)
  | cons first rest =>
    rfl

end MpEntry

theorem type_of_laidOut (laid : LaidOut memory ptr (entry :: entries)) :
    memory ptr = MP_ENTRY_CPU ↔ entry.bytes.head? = some MP_ENTRY_CPU := by
  have long := entry.length_pos
  have type := laid.1 0 (by omega)
  rw [KernelBytes.byteAt, BitVec.add_zero] at type
  rw [type, entry.head?_eq, Option.some.injEq]

theorem mpcNextEntry_eq (laid : LaidOut memory ptr (entry :: entries)) :
    memory.mpcNextEntry ptr = ptr + BitVec.ofNat 32 entry.bytes.length := by
  have type := type_of_laidOut laid
  unfold KernelBytes.mpcNextEntry
  rw [entry.sized]
  by_cases isCpu : entry.bytes.head? = some MP_ENTRY_CPU
  · rw [if_pos isCpu, if_pos (type.mpr isCpu)]
  · rw [if_neg isCpu, if_neg (mt type.mp isCpu)]
    rfl

theorem examine_examined :
    (examine enableIoapic memory ptr scan).examined =
      scan.examined ++ [ptr] := by
  unfold examine
  split
  · split <;> rfl
  · split <;> rfl

theorem examine_cpus (laid : LaidOut memory ptr (entry :: entries)) :
    (examine enableIoapic memory ptr scan).cpus =
      scan.cpus + if entry.enabled then 1 else 0 := by
  have type := type_of_laidOut laid
  have flags := laid.1 3 entry.length_pos
  unfold examine MpEntry.enabled
  rw [flags]
  generalize entry.bytes.getD 3 0 &&& MP_CPU_FLAGS_EN = masked
  by_cases isCpu : entry.bytes.head? = some MP_ENTRY_CPU
  · rw [if_pos (type.mpr isCpu)]
    by_cases isEnabled : masked = MP_CPU_FLAGS_EN
    · simp [isCpu, isEnabled]
    · simp [isCpu, isEnabled]
  · rw [if_neg (mt type.mp isCpu)]
    simp only [isCpu, false_and, decide_false]
    split <;> rfl

theorem scanEntries_eq {turns : Nat} (laid : LaidOut memory ptr entries)
    (enough : turns ≤ entries.length) :
    (scanEntries enableIoapic memory turns ptr scan).examined =
        scan.examined ++ entryStarts ptr (entries.take turns) ∧
      (scanEntries enableIoapic memory turns ptr scan).cpus =
        scan.cpus + (entries.take turns).countP MpEntry.enabled := by
  induction turns generalizing entries ptr scan with
  | zero =>
    simp [scanEntries, entryStarts]
  | succ turns ih =>
    cases entries with
    | nil =>
      exact absurd enough (Nat.not_succ_le_zero turns)
    | cons entry rest =>
      rw [scanEntries, mpcNextEntry_eq laid]
      obtain ⟨examined, cpus⟩ :=
        @ih _ rest (examine enableIoapic memory ptr scan) laid.2
          (Nat.le_of_succ_le_succ enough)
      rw [examined, cpus, examine_examined, examine_cpus laid,
        List.take_succ_cons, entryStarts, List.countP_cons]
      refine ⟨by simp, ?_⟩
      omega

end Loop

theorem length_entryStarts (ptr : BitVec 32) (entries : List MpEntry) :
    (entryStarts ptr entries).length = entries.length := by
  induction entries generalizing ptr with
  | nil =>
    rfl
  | cons entry rest ih =>
    exact congrArg (· + 1) (ih _)

section Machine

variable (machine : MpMachine) (enableIoapic : Bool) (cpus : Nat)

theorem mptablesSetup_eq :
    (mptablesSetup enableIoapic machine.memory cpus).examined =
        entryStarts (machine.header + BitVec.ofNat 32 sizeofHeader)
          machine.entries.dropLast ∧
      (mptablesSetup enableIoapic machine.memory cpus).cpus =
        cpus + machine.entries.dropLast.countP MpEntry.enabled := by
  unfold mptablesSetup
  rw [machine.found]
  dsimp only
  rw [machine.counted, List.dropLast_eq_take]
  have loop :=
    @scanEntries_eq enableIoapic machine.memory _ machine.entries { cpus } _
      machine.laidOut (Nat.sub_le machine.entries.length 1)
  simpa using loop

/-- The scan is complete exactly when there is no entry to be examined. -/
theorem scansCompletely_iff :
    ScansCompletely machine enableIoapic cpus ↔ machine.entries = [] := by
  obtain ⟨examined, counted⟩ := mptablesSetup_eq machine enableIoapic cpus
  constructor
  · intro complete
    have same := congrArg List.length (examined.symm.trans complete.examined)
    rw [length_entryStarts, length_entryStarts, List.length_dropLast] at same
    exact List.length_eq_zero_iff.mp (by omega)
  · intro none
    exact ⟨by rw [examined, none]; rfl, by rw [counted, none]; rfl⟩

/-- The last entry alone may be missed. -/
theorem cpus_counted_iff :
    (mptablesSetup enableIoapic machine.memory cpus).cpus =
        cpus + machine.entries.countP MpEntry.enabled ↔
      ∀ entry, machine.entries.getLast? = some entry →
        entry.enabled = false := by
  rw [(mptablesSetup_eq machine enableIoapic cpus).2, Nat.add_left_cancel_iff]
  rcases List.eq_nil_or_concat machine.entries with none | ⟨front, last, split⟩
  · simp [none]
  · rw [split, List.concat_eq_append, List.dropLast_concat, List.countP_append,
      List.countP_singleton, List.getLast?_concat]
    cases isEnabled : last.enabled <;> simp [isEnabled]

end Machine

/-- Bytes put into memory. -/
def putBytes (first : BitVec 32) (bytes : List (BitVec 8))
    (memory : KernelBytes) : KernelBytes :=
  fun address =>
    if AddressSpace.offset first address < bytes.length then
      bytes.getD (AddressSpace.offset first address) 0
    else
      memory address

/-- The processor that the machine is booted with. -/
def bootProcessor : MpEntry where
  bytes := [0, 0, 0x14, 3, 0, 0, 0, 0, 0, 0, 0, 0, 0, 0, 0, 0, 0, 0, 0, 0]
  sized := rfl

/-- The floating pointer structure in the EBDA, and a table of one entry. -/
def uniprocessorMemory : KernelBytes :=
  putBytes 0xC000040E [0xC0, 0x9F]
    (putBytes 0xC009FC00
      [0x5F, 0x4D, 0x50, 0x5F, 0, 0, 0x0F, 0, 1, 4, 0x91, 0, 0, 0, 0, 0]
      (putBytes 0xC00F0000
        ([0x50, 0x43, 0x4D, 0x50, 64, 0, 4, 0x96] ++ List.replicate 26 0 ++
          [1, 0, 0, 0, 0xE0, 0xFE, 0, 0, 0, 0] ++ bootProcessor.bytes)
        fun _ => 0))

/-- A machine with one processor. -/
def uniprocessor : MpMachine where
  memory := uniprocessorMemory
  header := 0xC00F0000
  entries := [bootProcessor]
  found := by decide +kernel
  counted := by decide
  covered := by decide
  laidOut := ⟨by decide, trivial⟩

/-- The only processor of a machine is not counted. -/
theorem uniprocessor_missed :
    mptablesSetup false uniprocessor.memory 0 = { cpus := 0 } ∧
      ¬ ScansCompletely uniprocessor false 0 := by
  have none : mptablesSetup false uniprocessor.memory 0 = { cpus := 0 } := by
    decide +kernel
  refine ⟨none, fun complete => ?_⟩
  have counted := complete.counted
  rw [none] at counted
  exact absurd counted (by decide)

end Idylla.Boot
