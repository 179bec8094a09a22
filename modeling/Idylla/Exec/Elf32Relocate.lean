import Idylla.Exec.ArgumentPassing
import Idylla.Lib.Memory

namespace Idylla.Exec

open Idylla.Lib

/-!
# Relocation of modules

`elf32_relocate`.  The tables of an image are given as what is read from them:
no relocation of a well formed image changes one.
-/

/-- `Elf32_Rela`; of an `Elf32_Rel` the addend is not used. -/
structure Elf32Rela where
  rOffset : BitVec 32
  rInfo : BitVec 32
  rAddend : BitVec 32

/-- `Elf32_Sym`, with its name from the table of strings. -/
structure Elf32Sym where
  name : List Char
  stValue : BitVec 32
  stShndx : Nat

/-- The values of `sh_type` that matter. -/
inductive ShType where
  | nobits
  | rela
  | rel
  | other
  deriving DecidableEq

/-- `Elf32_Shdr`, with the entries of a table. -/
structure Elf32Shdr where
  shType : ShType
  shOffset : BitVec 32 := 0
  shSize : Nat := 0
  shLink : Nat := 0
  shInfo : Nat := 0
  relocs : Nat → Elf32Rela := fun _ => ⟨0, 0, 0⟩
  symbols : Nat → Elf32Sym := fun _ => ⟨[], 0, 0⟩

/-- `struct kld_module`, what `kalloc` gives for a section, and `kld_import`. -/
structure KldModule where
  isElf : Bool
  image : BitVec 32
  shnum : Nat
  sections : Nat → Elf32Shdr
  bss : Nat → BitVec 32
  kldImport : List Char → BitVec 32

/-- An entry with the header of its section. -/
abbrev RelocJob := Elf32Shdr × Elf32Rela

namespace KldModule

variable (kld : KldModule)

/-- A section header behind the loop for `.bss`. -/
def sectionById (id : Nat) : Elf32Shdr :=
  let sect := kld.sections id
  if sect.shType = .nobits then
    { sect with shOffset := kld.bss id - kld.image }
  else
    sect

/-- `memset(module->bss, 0, sect->sh_size)` for every such section. -/
def clearBss (memory : Memory (BitVec 8)) : Memory (BitVec 8) :=
  (List.range kld.shnum).foldl
    (fun memory id =>
      let sect := kld.sections id
      if sect.shType = .nobits then
        memory.fill (kld.bss id).toNat 0 sect.shSize
      else
        memory)
    memory

/-- `elf32_lookup` -/
def elf32Lookup (index symtabSect : Nat) : Except Errno (BitVec 32) :=
  if kld.shnum ≤ symtabSect then .error .EFAULT
  else if (kld.sectionById symtabSect).shSize ≤ index then .error .EFAULT
  else
    let sym := (kld.sectionById symtabSect).symbols index
    if sym.stShndx = 0 then
      let val := kld.kldImport sym.name
      if val = 0 then .error .ENOTSUP else .ok val
    else if kld.shnum ≤ sym.stShndx then .error .EFAULT
    else
      .ok (kld.image + sym.stValue + (kld.sectionById sym.stShndx).shOffset)

/-- The word that an entry names. -/
def place (job : RelocJob) : BitVec 32 :=
  kld.image + (kld.sectionById job.1.shInfo).shOffset + job.2.rOffset

/-- A word stored, the lowest byte first. -/
def putWord (memory : Memory (BitVec 8)) (place value : BitVec 32) :
    Memory (BitVec 8) :=
  memory.copy place.toNat (fun k => (wordBytes value).getD k 0) 0 4

/-- `elf32_do_relocation` -/
def elf32DoRelocation (job : RelocJob) (memory : Memory (BitVec 8)) :
    Except Errno (Memory (BitVec 8)) := do
  let val ← kld.elf32Lookup (job.2.rInfo >>> 8).toNat job.1.shLink
  let symVal := if job.1.shType = .rela then val + job.2.rAddend else val
  let old := littleEndian memory (kld.place job).toNat
  if job.2.rInfo &&& 0xff#32 = 1 then
    .ok (putWord memory (kld.place job) (symVal + old))
  else if job.2.rInfo &&& 0xff#32 = 2 then
    .ok (putWord memory (kld.place job) (symVal + old - kld.place job))
  else
    .error .ENOTSUP

/-- The entries in the order in which they are walked through. -/
def jobs : List RelocJob :=
  (List.range kld.shnum).flatMap fun id =>
    let sect := kld.sectionById id
    match sect.shType with
    | .rela =>
      (List.range (sect.shSize / 12)).map fun j => (sect, sect.relocs j)
    | .rel =>
      (List.range (sect.shSize / 8)).map fun j => (sect, sect.relocs j)
    | _ => []

/-- The loops over the sections and their entries. -/
def relocateAll :
    List RelocJob → Memory (BitVec 8) → Except Errno (Memory (BitVec 8))
  | [], memory => .ok memory
  | job :: rest, memory => do
    let relocated ← kld.elf32DoRelocation job memory
    relocateAll rest relocated

/-- `elf32_relocate` -/
def elf32Relocate (memory : Memory (BitVec 8)) :
    Except Errno (Memory (BitVec 8)) :=
  if kld.isElf then kld.relocateAll kld.jobs (kld.clearBss memory)
  else .error .ENOEXEC

/-- S, the final address of the symbol. -/
def symbolAddress (job : RelocJob) : BitVec 32 :=
  let sym := (kld.sections job.1.shLink).symbols (job.2.rInfo >>> 8).toNat
  if sym.stShndx = 0 then
    kld.kldImport sym.name
  else
    let sect := kld.sections sym.stShndx
    if sect.shType = .nobits then kld.bss sym.stShndx + sym.stValue
    else kld.image + sect.shOffset + sym.stValue

/-- A, what the entry adds. -/
def addend (before : Memory (BitVec 8)) (job : RelocJob) : BitVec 32 :=
  if job.1.shType = .rela then job.2.rAddend
  else littleEndian before (kld.place job).toNat

/-- The byte belongs to the word that the entry names. -/
def Names (job : RelocJob) (address : Nat) : Prop :=
  (kld.place job).toNat ≤ address ∧ address < (kld.place job).toNat + 4

/-- Every word is relocated, and nothing else is changed. -/
structure Relocated (before after : Memory (BitVec 8)) : Prop where
  absolute : ∀ job ∈ kld.jobs, job.2.rInfo &&& 0xff#32 = 1 →
    littleEndian after (kld.place job).toNat =
      kld.symbolAddress job + kld.addend before job
  relative : ∀ job ∈ kld.jobs, job.2.rInfo &&& 0xff#32 = 2 →
    littleEndian after (kld.place job).toNat =
      kld.symbolAddress job + kld.addend before job - kld.place job
  others : ∀ address, (∀ job ∈ kld.jobs, ¬ kld.Names job address) →
    after address = before address

/-- The words of two entries share no byte. -/
def Apart (job other : RelocJob) : Prop :=
  (kld.place job).toNat + 4 ≤ (kld.place other).toNat ∨
    (kld.place other).toNat + 4 ≤ (kld.place job).toNat

/-- The words that the entries name are there, and apart. -/
structure WellFormed : Prop where
  targets : ∀ job ∈ kld.jobs, job.1.shInfo < kld.shnum
  inside : ∀ job ∈ kld.jobs, (kld.place job).toNat + 4 ≤ 2 ^ 32
  apart : kld.jobs.Pairwise kld.Apart

variable {kld : KldModule} {job : RelocJob}
variable {memory before after : Memory (BitVec 8)}

@[simp] theorem littleEndian_putWord (place value : BitVec 32) :
    littleEndian (putWord memory place value) place.toNat = value := by
  have byte (k : Nat) (below : k < 4) :
      putWord memory place value (place.toNat + k) =
        (wordBytes value).getD k 0 := by
    unfold putWord
    rw [Memory.copy_inside (by omega) (by omega)]
    congr 1
    omega
  unfold littleEndian
  rw [byte 3 (by omega), byte 2 (by omega), byte 1 (by omega)]
  rw [show putWord memory place value place.toNat = _ from byte 0 (by omega)]
  exact wordBytes_append value

theorem putWord_outside {place value : BitVec 32} {address : Nat}
    (outside : address < place.toNat ∨ place.toNat + 4 ≤ address) :
    putWord memory place value address = memory address :=
  Memory.copy_outside outside

theorem littleEndian_congr {address : Nat}
    (same : ∀ k < 4, after (address + k) = before (address + k)) :
    littleEndian after address = littleEndian before address := by
  unfold littleEndian
  rw [same 3 (by omega), same 2 (by omega), same 1 (by omega)]
  rw [show after address = before address from same 0 (by omega)]

@[simp] theorem sectionById_symbols (id : Nat) :
    (kld.sectionById id).symbols = (kld.sections id).symbols := by
  unfold sectionById
  grind

theorem elf32Lookup_ok {val : BitVec 32}
    (returns :
      kld.elf32Lookup (job.2.rInfo >>> 8).toNat job.1.shLink = .ok val) :
    val = kld.symbolAddress job := by
  unfold elf32Lookup at returns
  rw [sectionById_symbols] at returns
  unfold symbolAddress sectionById at *
  grind

/-- What is stored for an entry, by the word that was there. -/
def relocatedWord
    (kld : KldModule) (job : RelocJob) (old : BitVec 32) : BitVec 32 :=
  let symVal :=
    if job.1.shType = .rela then kld.symbolAddress job + job.2.rAddend
    else kld.symbolAddress job
  if job.2.rInfo &&& 0xff#32 = 1 then symVal + old
  else symVal + old - kld.place job

theorem elf32DoRelocation_ok
    (returns : kld.elf32DoRelocation job memory = .ok after) :
    (job.2.rInfo &&& 0xff#32 = 1 ∨ job.2.rInfo &&& 0xff#32 = 2) ∧
      after = putWord memory (kld.place job)
        (kld.relocatedWord job
          (littleEndian memory (kld.place job).toNat)) := by
  unfold elf32DoRelocation at returns
  cases found : kld.elf32Lookup (job.2.rInfo >>> 8).toNat job.1.shLink with
  | error errno =>
    rw [found] at returns
    cases returns
  | ok val =>
    rw [found, elf32Lookup_ok found] at returns
    simp only [bind, Except.bind] at returns
    unfold relocatedWord
    grind

theorem relocateAll_ok {jobs : List RelocJob} (apart : jobs.Pairwise kld.Apart)
    (returns : kld.relocateAll jobs before = .ok after) :
    (∀ job ∈ jobs,
      (job.2.rInfo &&& 0xff#32 = 1 ∨ job.2.rInfo &&& 0xff#32 = 2) ∧
        littleEndian after (kld.place job).toNat =
          kld.relocatedWord job (littleEndian before (kld.place job).toNat)) ∧
      ∀ address, (∀ job ∈ jobs, ¬ kld.Names job address) →
        after address = before address := by
  induction jobs generalizing before with
  | nil =>
    cases returns
    exact ⟨nofun, fun _ _ => rfl⟩
  | cons first rest ih =>
    obtain ⟨fromFirst, apartRest⟩ := List.pairwise_cons.mp apart
    unfold relocateAll at returns
    cases isFirst : kld.elf32DoRelocation first before with
    | error errno =>
      rw [isFirst] at returns
      cases returns
    | ok relocated =>
      rw [isFirst] at returns
      obtain ⟨hasType, stored⟩ := elf32DoRelocation_ok isFirst
      obtain ⟨words, others⟩ := ih apartRest returns
      refine ⟨fun job member => ?_, fun address unnamed => ?_⟩
      · rcases List.mem_cons.mp member with rfl | later
        · -- no later entry names a byte of this word
          have kept : littleEndian after (kld.place job).toNat =
                littleEndian relocated (kld.place job).toNat := by
            refine littleEndian_congr fun k below => others _ ?_
            intro other isOther ⟨lower, upper⟩
            have disjoint := fromFirst other isOther
            unfold Apart at disjoint
            omega
          rw [kept, stored, littleEndian_putWord]
          exact ⟨hasType, rfl⟩
        · -- the first entry has changed no byte of this word
          refine ⟨(words job later).1, ?_⟩
          rw [(words job later).2, stored]
          congr 1
          refine littleEndian_congr fun k below => putWord_outside ?_
          have disjoint := fromFirst job later
          unfold Apart at disjoint
          omega
      · rw [others address fun job later =>
          unnamed job (List.mem_cons_of_mem _ later), stored]
        refine putWord_outside ?_
        have outside := unnamed first List.mem_cons_self
        unfold Names at outside
        omega

theorem relocatedWord_absolute (before : Memory (BitVec 8))
    (absolute : job.2.rInfo &&& 0xff#32 = 1) :
    kld.relocatedWord job (littleEndian before (kld.place job).toNat) =
        kld.symbolAddress job + kld.addend before job ↔
      (job.1.shType = .rela →
        littleEndian before (kld.place job).toNat = 0) := by
  unfold relocatedWord addend
  by_cases isRela : job.1.shType = .rela
  · simp [isRela, absolute]
  · simp [isRela, absolute]

theorem relocatedWord_relative (before : Memory (BitVec 8))
    (relative : job.2.rInfo &&& 0xff#32 = 2) :
    kld.relocatedWord job (littleEndian before (kld.place job).toNat) =
        kld.symbolAddress job + kld.addend before job - kld.place job ↔
      (job.1.shType = .rela →
        littleEndian before (kld.place job).toNat = 0) := by
  unfold relocatedWord addend
  by_cases isRela : job.1.shType = .rela
  · simp [isRela, relative]
  · simp [isRela, relative]

/-- Exactly when relocation does what it is for. -/
theorem relocated_iff (wellFormed : kld.WellFormed)
    (returns : kld.elf32Relocate memory = .ok after) :
    kld.Relocated (kld.clearBss memory) after ↔
      ∀ job ∈ kld.jobs, job.1.shType = .rela →
        littleEndian (kld.clearBss memory) (kld.place job).toNat = 0 := by
  unfold elf32Relocate at returns
  split at returns
  · obtain ⟨words, others⟩ := relocateAll_ok wellFormed.apart returns
    constructor
    · intro relocated job member
      obtain ⟨absolute | relative, stored⟩ := words job member
      · rw [← relocatedWord_absolute _ absolute, ← stored]
        exact relocated.absolute job member absolute
      · rw [← relocatedWord_relative _ relative, ← stored]
        exact relocated.relative job member relative
    · intro cleared
      refine ⟨fun job member absolute => ?_, fun job member relative => ?_,
        others⟩
      · rw [(words job member).2, relocatedWord_absolute _ absolute]
        exact cleared job member
      · rw [(words job member).2, relocatedWord_relative _ relative]
        exact cleared job member
  · cases returns

/-- A module with one entry, which adds zero to the address of its word. -/
def relaModule : KldModule where
  isElf := true
  image := 0x1000
  shnum := 3
  sections := fun id =>
    match id with
    | 0 => { shType := .other, shSize := 1, symbols := fun _ => ⟨[], 0, 2⟩ }
    | 1 => {
        shType := .rela, shSize := 12, shInfo := 2
        relocs := fun _ => ⟨0, 1, 0⟩ }
    | _ => { shType := .other, shOffset := 0x100 }
  bss := fun _ => 0
  kldImport := fun _ => 0

theorem relaModule_wellFormed : relaModule.WellFormed where
  targets := by
    decide
  inside := by
    decide
  apart := List.pairwise_singleton _ _

theorem relaModule_relocate (memory : Memory (BitVec 8)) :
    relaModule.elf32Relocate memory =
      .ok (putWord memory 0x1100 (0x1100 + littleEndian memory 0x1100)) :=
  rfl

theorem clearedWord_relocated :
    relaModule.Relocated (relaModule.clearBss fun _ => 0)
      (putWord (fun _ => 0) 0x1100 0x1100) := by
  have relocates := relocated_iff relaModule_wellFormed
    (relaModule_relocate fun _ => 0)
  refine relocates.mpr fun job _ _ => ?_
  show 0#8 ++ 0#8 ++ 0#8 ++ 0#8 = 0#32
  decide

/-- A word that is not zero before: the sum is off by what it was. -/
theorem heldWord_not_relocated :
    relaModule.WellFormed ∧
      relaModule.elf32Relocate (fun _ => 1) =
        .ok (putWord (fun _ => 1) 0x1100 0x1011201) ∧
      ¬ relaModule.Relocated (relaModule.clearBss fun _ => 1)
        (putWord (fun _ => 1) 0x1100 0x1011201) := by
  refine ⟨relaModule_wellFormed, rfl, fun relocated => ?_⟩
  have word := relocated.absolute (relaModule.sections 1, ⟨0, 1, 0⟩)
    (by exact List.mem_singleton_self _) rfl
  exact absurd word (by decide)

end KldModule

end Idylla.Exec
