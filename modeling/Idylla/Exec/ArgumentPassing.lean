import Idylla.Exec.Elf32
import Idylla.Exec.UserStack

namespace Idylla.Exec

open Idylla.Mm

/-!
# What the new program finds on its stack

Reading the initial stack back from its pointer, the way the program does:
`argc`, the pointers to the two tables, and for each table the strings up to
the `NULL`.  The writes of `sys_execve` do not overlap, so every one of them
is still there when the program starts.
-/

/-- The bytes of user memory. -/
abbrev UserBytes := Int → BitVec 8

/-- The memory after one write. -/
def applyWrite (memory : UserBytes) (write : StackWrite) : UserBytes :=
  fun address =>
    if write.addr ≤ address then
      write.bytes[(address - write.addr).toNat]?.getD (memory address)
    else
      memory address

/-- The memory shows the bytes of a write. -/
def Shown (memory : UserBytes) (write : StackWrite) : Prop :=
  ∀ (k : Nat) (below : k < write.bytes.length),
    memory (write.addr + k) = write.bytes[k]

/-- Two writes have no address in common. -/
def StackWrite.Disjoint (first second : StackWrite) : Prop :=
  first.addr + first.bytes.length ≤ second.addr ∨
    second.addr + second.bytes.length ≤ first.addr

/-- The word at an address. -/
def wordAt (memory : UserBytes) (address : Int) : BitVec 32 :=
  littleEndian (fun offset => memory (address + offset)) 0

/-- The bytes of a string up to its zero, of `limit` bytes at most. -/
def readString (memory : UserBytes) : Nat → Int → Option (List (BitVec 8))
  | 0, _ => none
  | limit + 1, address =>
    if memory address = 0 then
      some []
    else
      (readString memory limit (address + 1)).map (memory address :: ·)

/-- The strings of a table up to its `NULL`, of `slots` entries at most. -/
def readTable (memory : UserBytes) (limit : Nat) :
    Nat → Int → Option (List (List (BitVec 8)))
  | 0, _ => none
  | slots + 1, address =>
    if wordAt memory address = 0 then
      some []
    else
      (readString memory limit (wordAt memory address).toNat).bind
        fun string =>
          (readTable memory limit slots (address + 4)).map (string :: ·)

/-- `argc`, `argv` and `envp` as the program finds them. -/
structure Arguments where
  argc : Int
  argv : List (List (BitVec 8))
  envp : List (List (BitVec 8))
  deriving DecidableEq

/-- Decode the stack; no table or string is longer than `limit`. -/
def decodeStack (memory : UserBytes) (limit : Nat) (ustackPtr : Int) :
    Option Arguments :=
  (readTable memory limit limit (wordAt memory (ustackPtr + 4)).toNat).bind
    fun argv =>
      (readTable memory limit limit
        (wordAt memory (ustackPtr + 8)).toNat).map fun envp =>
        { argc := (wordAt memory ustackPtr).toInt
          argv := argv
          envp := envp }

theorem shown_applyWrite (memory : UserBytes) (write : StackWrite) :
    Shown (applyWrite memory write) write := by
  intro k below
  unfold applyWrite
  have index : (write.addr + k - write.addr).toNat = k := by omega
  rw [if_pos (by omega), index, List.getElem?_eq_getElem below]
  rfl

variable {memory : UserBytes}

theorem Shown.applyWrite {write other : StackWrite}
    (shown : Shown memory write) (disjoint : write.Disjoint other) :
    Shown (applyWrite memory other) write := by
  intro k below
  unfold Exec.applyWrite
  split
  next reached =>
    unfold StackWrite.Disjoint at disjoint
    rw [List.getElem?_eq_none (by omega)]
    exact shown k below
  next => exact shown k below

theorem shown_of_disjoint {writes : List StackWrite}
    (disjoint : writes.Pairwise StackWrite.Disjoint) (memory : UserBytes) :
    ∀ write ∈ writes, Shown (writes.foldl applyWrite memory) write := by
  have later (rest : List StackWrite) (memory : UserBytes) (write : StackWrite)
      (shown : Shown memory write)
      (apart : ∀ other ∈ rest, write.Disjoint other) :
      Shown (rest.foldl applyWrite memory) write := by
    induction rest generalizing memory with
    | nil => exact shown
    | cons next rest ih =>
      exact ih _ (shown.applyWrite (apart next List.mem_cons_self))
        fun other member => apart other (List.mem_cons_of_mem next member)
  induction writes generalizing memory with
  | nil => simp
  | cons first rest ih =>
    obtain ⟨apart, disjointRest⟩ := List.pairwise_cons.mp disjoint
    intro write member
    rcases List.mem_cons.mp member with rfl | member
    · exact later rest _ _ (shown_applyWrite memory write) apart
    · exact ih disjointRest _ write member

theorem wordBytes_append (value : BitVec 32) :
    value.extractLsb' 24 8 ++ value.extractLsb' 16 8 ++
        value.extractLsb' 8 8 ++ value.extractLsb' 0 8 = value := by
  ext i below
  simp only [BitVec.getElem_append, BitVec.getElem_extractLsb']
  have bit (start : Nat) (same : start = i) :
      value.getLsbD start = value[i] := by
    rw [same]
    exact BitVec.getLsbD_eq_getElem below
  split
  · exact bit _ (by omega)
  · split
    · exact bit _ (by omega)
    · split
      · exact bit _ (by omega)
      · exact bit _ (by omega)

theorem wordAt_storeWord {addr value : Int}
    (shown : Shown memory (storeWord addr value)) :
    wordAt memory addr = BitVec.ofInt 32 value := by
  have byte (k : Nat) (below : k < 4) :
      memory (addr + k) = (wordBytes (BitVec.ofInt 32 value))[k] :=
    shown k below
  unfold wordAt littleEndian
  dsimp only
  rw [Nat.zero_add, Nat.zero_add, Nat.zero_add, byte 3 (by omega),
    byte 2 (by omega), byte 1 (by omega), byte 0 (by omega)]
  exact wordBytes_append _

theorem wordAt_address {addr value : Int}
    (shown : Shown memory (storeWord addr value)) (lower : 0 ≤ value)
    (upper : value < 2 ^ 32) : ((wordAt memory addr).toNat : Int) = value := by
  rw [wordAt_storeWord shown, BitVec.toNat_ofInt]
  omega

theorem readString_shown {memory : UserBytes} (bytes : List (BitVec 8))
    (nonzero : ∀ byte ∈ bytes, byte ≠ 0) {addr : Int}
    (shown :
      ∀ (k : Nat) (below : k < (bytes ++ [0]).length),
        memory (addr + k) = (bytes ++ [0])[k]) {limit : Nat}
    (enough : bytes.length < limit) :
    readString memory limit addr = some bytes := by
  induction bytes generalizing addr limit with
  | nil =>
    obtain ⟨limit, rfl⟩ : ∃ left, limit = left + 1 :=
      ⟨limit - 1, by omega⟩
    have terminator := shown 0 (by simp)
    rw [Int.natCast_zero, Int.add_zero] at terminator
    change memory addr = 0 at terminator
    rw [readString, if_pos terminator]
  | cons byte rest ih =>
    obtain ⟨limit, rfl⟩ : ∃ left, limit = left + 1 :=
      ⟨limit - 1, by omega⟩
    have first := shown 0 (by simp)
    rw [Int.natCast_zero, Int.add_zero] at first
    have notZero : memory addr ≠ 0 := by
      rw [first]
      exact nonzero byte List.mem_cons_self
    have behind :=
      @ih (fun other member => nonzero other (List.mem_cons_of_mem byte member))
        (addr + 1)
        (fun k below => by
          have shift : addr + 1 + (k : Int) = addr + ((k + 1 : Nat)) := by
            omega
          rw [shift]
          exact shown (k + 1) (by simpa using below))
        limit (by simpa using enough)
    rw [readString, if_neg notZero, behind, first]
    rfl

theorem readTable_shown {memory : UserBytes} {table : Int}
    (strings : List CString) {i : Nat} {ustackPtr : Int}
    (shown :
      ∀ write ∈ (copyStrings table i ustackPtr strings).1, Shown memory write)
    (positive : 0 < ustackPtr - stringBytes strings)
    (bounded : ustackPtr ≤ 2 ^ 32) {limit slots : Nat}
    (longEnough : ∀ string ∈ strings, string.strlen < limit)
    (enough : strings.length < slots) :
    readTable memory limit slots (table + 4 * i) =
      some (strings.map CString.bytes) := by
  induction strings generalizing i ustackPtr slots with
  | nil =>
    obtain ⟨slots, rfl⟩ : ∃ left, slots = left + 1 :=
      ⟨slots - 1, by omega⟩
    have null : wordAt memory (table + 4 * i) = 0 :=
      wordAt_storeWord (shown _ (List.mem_singleton_self _))
    rw [readTable, if_pos null]
    rfl
  | cons string rest ih =>
    obtain ⟨slots, rfl⟩ : ∃ left, slots = left + 1 :=
      ⟨slots - 1, by omega⟩
    rw [stringBytes_cons] at positive
    have stored := shown _ List.mem_cons_self
    have pointer := shown _ (List.mem_cons_of_mem _ List.mem_cons_self)
    have address := wordAt_address pointer (by omega) (by omega)
    have notNull : wordAt memory (table + 4 * i) ≠ 0 := by
      intro isNull
      rw [isNull] at address
      change (0 : Int) = _ at address
      omega
    have bytes :=
      @readString_shown memory string.bytes string.nonzero _ stored limit
        (longEnough string List.mem_cons_self)
    have behind :=
      @ih (i + 1) (ustackPtr - (string.strlen + 1))
        (fun write member =>
          shown write (List.mem_cons_of_mem _ (List.mem_cons_of_mem _ member)))
        (by omega) (by omega) slots
        (fun other member =>
          longEnough other (List.mem_cons_of_mem string member))
        (by simpa using enough)
    have next : table + 4 * (i : Int) + 4 = table + 4 * ((i + 1 : Nat)) := by
      omega
    rw [readTable, if_neg notNull, address]
    rw [show ustackPtr - (string.strlen + 1 : Int) =
      (storeString (ustackPtr - (string.strlen + 1)) string).addr from rfl,
      bytes, next, behind]
    rfl

theorem copyStrings_disjoint
    {table : Int} (strings : List CString) {i : Nat} {ustackPtr : Int}
    (below : ustackPtr ≤ table + 4 * i) :
    (copyStrings table i ustackPtr strings).1.Pairwise StackWrite.Disjoint := by
  induction strings generalizing i ustackPtr with
  | nil => exact List.pairwise_singleton _ _
  | cons string rest ih =>
    have inside :=
      copyStrings_inside table (i + 1) (ustackPtr - (string.strlen + 1)) rest
    have apart := @ih (i + 1) (ustackPtr - (string.strlen + 1)) (by omega)
    rw [copyStrings, List.pairwise_cons, List.pairwise_cons]
    unfold StackWrite.Inside at inside
    unfold StackWrite.Disjoint
    refine ⟨fun other member => ?_, fun other member => ?_, apart⟩
    · rw [storeString_length]
      unfold storeString
      dsimp only
      rcases List.mem_cons.mp member with rfl | member
      · left
        unfold storeWord
        dsimp only
        omega
      · have range := inside other member
        omega
    · rw [storeWord_length, storeWord_addr]
      have range := inside other member
      omega

/-- No two writes of a stack that is large enough overlap. -/
theorem buildStack_disjoint {argv envp : List CString}
    (small : stackBytes argv envp < 2 ^ 32) (top : Int) :
    (buildStack argv envp argv.length envp.length top).1.Pairwise
      StackWrite.Disjoint := by
  obtain ⟨isArgv, isEnvp⟩ := tables_of_fit small top
  have argvInside :=
    copyStrings_inside (uargvOf top argv.length) 0
      (uargvOf top argv.length) argv
  have envpInside :=
    copyStrings_inside (uenvpOf top argv envp.length) 0
      (uenvpOf top argv envp.length) envp
  unfold StackWrite.Inside at argvInside envpInside
  rw [buildStack_eq]
  rw [List.pairwise_append, List.pairwise_append]
  refine ⟨⟨copyStrings_disjoint argv (by omega),
    copyStrings_disjoint envp (by omega), ?_⟩, ?_, ?_⟩
  · intro first inArgv second inEnvp
    have upper := argvInside first inArgv
    have lower := envpInside second inEnvp
    unfold StackWrite.Disjoint
    omega
  · simp only [List.pairwise_cons, List.mem_cons, List.not_mem_nil,
      or_false, forall_eq_or_imp, forall_eq, StackWrite.Disjoint,
      storeWord_length]
    unfold storeWord
    dsimp only
    refine ⟨⟨?_, ?_⟩, ?_, fun _ => False.elim, List.Pairwise.nil⟩ <;> omega
  · intro first inStrings second inHeader
    have above :
        uenvpOf top argv envp.length - stringBytes envp ≤ first.addr := by
      rcases List.mem_append.mp inStrings with inArgv | inEnvp
      · have lower := argvInside first inArgv
        omega
      · have lower := envpInside first inEnvp
        omega
    unfold StackWrite.Disjoint
    simp only [List.mem_cons, List.not_mem_nil, or_false] at inHeader
    rcases inHeader with rfl | rfl | rfl
    · rw [storeWord_length, storeWord_addr]
      omega
    · rw [storeWord_length, storeWord_addr]
      omega
    · rw [storeWord_length, storeWord_addr]
      omega

theorem strlen_lt_stringBytes {strings : List CString} {string : CString}
    (member : string ∈ strings) : string.strlen < stringBytes strings := by
  induction strings with
  | nil => cases member
  | cons first rest ih =>
    rw [stringBytes_cons]
    rcases List.mem_cons.mp member with rfl | member
    · omega
    · have := ih member
      omega

theorem decodeStack_buildStack
    {argv envp : List CString} {top : Int} {size : Nat}
    (fits : stackBytes argv envp ≤ size) (lower : 0 < top - size)
    (upper : top ≤ 2 ^ 32) (memory : UserBytes) :
    decodeStack
        ((buildStack argv envp argv.length envp.length top).1.foldl
          applyWrite memory)
        size (buildStack argv envp argv.length envp.length top).2 =
      some
        { argc := argv.length
          argv := argv.map CString.bytes
          envp := envp.map CString.bytes } := by
  have small : stackBytes argv envp < 2 ^ 32 := by omega
  obtain ⟨isArgv, isEnvp⟩ := tables_of_fit small top
  have shown := shown_of_disjoint (buildStack_disjoint small top) memory
  generalize (buildStack argv envp argv.length envp.length top).1.foldl
    applyWrite memory = final at shown ⊢
  have argcShown :=
    shown _ (header_mem (List.mem_cons_of_mem _
      (List.mem_cons_of_mem _ List.mem_cons_self)))
  have argvShown :=
    shown _ (header_mem (List.mem_cons_of_mem _ List.mem_cons_self))
  have envpShown := shown _ (header_mem List.mem_cons_self)
  have argvTable :
      ∀ write ∈ (copyStrings (uargvOf top argv.length) 0
        (uargvOf top argv.length) argv).1, Shown final write := by
    intro write member
    refine shown write ?_
    exact List.mem_append_left _ (List.mem_append_left _ member)
  have envpTable :
      ∀ write ∈ (copyStrings (uenvpOf top argv envp.length) 0
        (uenvpOf top argv envp.length) envp).1, Shown final write := by
    intro write member
    refine shown write ?_
    rw [buildStack_eq]
    exact List.mem_append_left _ (List.mem_append_right _ member)
  have counted := fits
  unfold stackBytes at counted
  have argvRead :=
    @readTable_shown final _ argv 0 _ argvTable (by omega) (by omega) size
      size (fun string member => by
        have := strlen_lt_stringBytes member
        omega) (by omega)
  have envpRead :=
    @readTable_shown final _ envp 0 _ envpTable (by omega) (by omega) size
      size (fun string member => by
        have := strlen_lt_stringBytes member
        omega) (by omega)
  simp only [Int.natCast_zero, Int.mul_zero, Int.add_zero] at argvRead envpRead
  have argvPointer := wordAt_address argvShown (by omega) (by omega)
  have envpPointer := wordAt_address envpShown (by omega) (by omega)
  have argcWord := wordAt_storeWord argcShown
  rw [buildStack_eq]
  unfold decodeStack
  have second : uenvpOf top argv envp.length - stringBytes envp - 12 + 4 =
        uenvpOf top argv envp.length - stringBytes envp - 8 := by
    omega
  have third : uenvpOf top argv envp.length - stringBytes envp - 12 + 8 =
        uenvpOf top argv envp.length - stringBytes envp - 4 := by
    omega
  rw [second, third, argvPointer, envpPointer, argvRead, envpRead, argcWord,
    Option.bind_some, Option.map_some, BitVec.ofInt_natCast,
    toInt_size _ (by omega), if_pos (by omega)]

/--
For all strings whose stack is mapped in user memory and holds every write:
the writes do not overlap, and the program decodes the count and the strings
it was started with.
-/
theorem execveStack_decodes {argv envp : List CString} {stack : UserStack}
    (built : execveStack argv envp = some stack)
    (mapped : (userMemory32.start.toNat : Int) ≤ stack.ustack)
    (inBounds : stack.InBounds) (memory : UserBytes) :
    decodeStack (stack.writes.foldl applyWrite memory) stack.ustackSize
        stack.ustackPtr =
      some
        { argc := argv.length
          argv := argv.map CString.bytes
          envp := envp.map CString.bytes } ∧
      stack.writes.Pairwise StackWrite.Disjoint := by
  have start : userMemory32.start.toNat = 0x400000 := by decide
  have top := userTop_eq
  have counts : argv.length + 1 < 2 ^ 31 ∧ envp.length + 1 < 2 ^ 31 := by
    apply Decidable.byContradiction
    intro overflows
    rw [execveStack_overflow (by omega)] at built
    cases built
  rw [execveStack_eq counts.1 counts.2] at built
  obtain ⟨size, -, rfl⟩ := Option.map_eq_some_iff.mp built
  have fits := (inBounds_iff argv envp size _).mp inBounds
  dsimp only at mapped ⊢
  exact ⟨decodeStack_buildStack fits (by omega) (by omega) memory,
    buildStack_disjoint (by omega) _⟩

/-- The argument `sh` is read back from the stack. -/
theorem shellName_decodes :
    ∃ stack, execveStack [shellName] [] = some stack ∧
      decodeStack (stack.writes.foldl applyWrite fun _ => 0)
          stack.ustackSize stack.ustackPtr =
        some { argc := 1, argv := [[0x73, 0x68]], envp := [] } := by
  have built := @execveStack_eq [shellName] [] (by decide) (by decide)
  have inBounds := (inBounds_iff [shellName] [] 0x9000
    (buildStack [shellName] [] 1 0 userTop).2).mpr (by decide)
  exact ⟨_, built,
    (execveStack_decodes built (by decide) inBounds fun _ => 0).1⟩

end Idylla.Exec
