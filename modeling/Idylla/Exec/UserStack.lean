import Mathlib.Algebra.GroupWithZero.Nat
import Idylla.Mm.VmSpace

namespace Idylla.Exec

open Idylla.Mm

/-!
# The initial user stack

`sys_execve` adds up the lengths of the argument and environment strings in
two `int`s, maps a stack of that size and eight pages, and writes tables,
strings and three header words downwards from its end.  `none` is an `int`
that overflows.  Pointers are integers, so that one that has left the stack
is below or above it.
-/

/-- `USERMEM_START + USERMEM_SIZE` -/
def userTop : Nat :=
  userMemory32.start.toNat + userMemory32.size.toNat

/-- A string of the C language, without the zero byte that ends it. -/
structure CString where
  bytes : List (BitVec 8)
  nonzero : ∀ byte ∈ bytes, byte ≠ 0

/-- `strlen` -/
def CString.strlen (string : CString) : Nat :=
  string.bytes.length

/-- An `int` result; `none` where it overflows. -/
def checkedInt (value : Int) : Option Int :=
  if -2 ^ 31 ≤ value ∧ value < 2 ^ 31 then
    some value
  else
    none

/--
The loops over `argv` and `envp`: the count and the size, an `int` to which a
`size_t` is added.
-/
def countStrings :
    List CString → Int × BitVec 32 → Option (Int × BitVec 32)
  | [], counted => some counted
  | string :: rest, (count, size) =>
    (checkedInt (count + 1)).bind fun count =>
      countStrings rest (count, size + BitVec.ofNat 32 (string.strlen + 1))

/-- `ROUND_UP(value, PAGE_SIZE)` of an `int`. -/
def roundUpInt (value : Int) : Option Int :=
  if value.tmod PAGE_SIZE ≠ 0 then
    checkedInt (value + (PAGE_SIZE - value.tmod PAGE_SIZE))
  else
    some value

/-- `ROUND_UP(8 * PAGE_SIZE + uargv_size + uenv_size, PAGE_SIZE)`. -/
def ustackSize (uargvSize uenvSize : BitVec 32) : Option (BitVec 32) :=
  (checkedInt (8 * PAGE_SIZE + uargvSize.toInt)).bind fun sum =>
    (checkedInt (sum + uenvSize.toInt)).bind fun sum =>
      (roundUpInt sum).map (BitVec.ofInt 32)

/-- Bytes stored to consecutive addresses. -/
structure StackWrite where
  addr : Int
  bytes : List (BitVec 8)

/-- The four bytes of a word, the lowest first. -/
def wordBytes (value : BitVec 32) : List (BitVec 8) :=
  [value.extractLsb' 0 8, value.extractLsb' 8 8,
    value.extractLsb' 16 8, value.extractLsb' 24 8]

/-- A pointer or an `int` stored to memory. -/
def storeWord (addr value : Int) : StackWrite where
  addr := addr
  bytes := wordBytes (BitVec.ofInt 32 value)

/-- `strcpy` -/
def storeString (addr : Int) (string : CString) : StackWrite where
  addr := addr
  bytes := string.bytes ++ [0]

/--
The loop that copies the strings from the `i`-th on below `ustack_ptr` and
fills their table, with the `NULL` behind it; and `ustack_ptr` after it.
-/
def copyStrings (table : Int) :
    Nat → Int → List CString → List StackWrite × Int
  | i, ustackPtr, [] => ([storeWord (table + 4 * i) 0], ustackPtr)
  | i, ustackPtr, string :: rest =>
    let ustackPtr := ustackPtr - (string.strlen + 1)
    let copied := copyStrings table (i + 1) ustackPtr rest
    (storeString ustackPtr string ::
      storeWord (table + 4 * i) ustackPtr :: copied.1, copied.2)

/-- `sizeof(char *) * slots`, a `size_t`. -/
def tableSize (slots : Int) : Nat :=
  (4 * slots % 2 ^ 32).toNat

/-- The stack that is mapped, what is written to it, and its pointer. -/
structure UserStack where
  ustack : Int
  ustackSize : Nat
  writes : List StackWrite
  ustackPtr : Int

/-- The writes from `top` down, with `ustack_ptr` at the end. -/
def buildStack (argv envp : List CString) (uargc uenvc top : Int) :
    List StackWrite × Int :=
  let uargv := top - tableSize (uargc + 1)
  let arguments := copyStrings uargv 0 uargv argv
  let uenvp := arguments.2 - tableSize (uenvc + 1)
  let environment := copyStrings uenvp 0 uenvp envp
  (arguments.1 ++ environment.1 ++
    [storeWord (environment.2 - 4) uenvp, storeWord (environment.2 - 8) uargv,
      storeWord (environment.2 - 12) uargc],
    environment.2 - 12)

/-- The part of `sys_execve` that lays out the initial user stack. -/
def execveStack (argv envp : List CString) : Option UserStack :=
  (countStrings argv (0, 0)).bind fun (uargc, uargvSize) =>
    (countStrings envp (0, 0)).bind fun (uenvc, uenvSize) =>
      (ustackSize uargvSize uenvSize).bind fun size =>
        (checkedInt (uargc + 1)).bind fun _ =>
          (checkedInt (uenvc + 1)).map fun _ =>
            let built := buildStack argv envp uargc uenvc userTop
            { ustack := userTop - size.toNat
              ustackSize := size.toNat
              writes := built.1
              ustackPtr := built.2 }

/-- The address range of a write. -/
def StackWrite.Inside (write : StackWrite) (lower upper : Int) : Prop :=
  lower ≤ write.addr ∧ write.addr + write.bytes.length ≤ upper

/-- Every write stays inside of the stack that is mapped. -/
def UserStack.InBounds (stack : UserStack) : Prop :=
  ∀ write ∈ stack.writes,
    write.Inside stack.ustack (stack.ustack + stack.ustackSize)

/-- The bytes of the strings, with the zero that ends each. -/
def stringBytes (strings : List CString) : Nat :=
  (strings.map fun string => string.strlen + 1).sum

variable {value : Int}

theorem checkedInt_of_range (lower : -2 ^ 31 ≤ value) (upper : value < 2 ^ 31) :
    checkedInt value = some value :=
  if_pos ⟨lower, upper⟩

theorem checkedInt_of_overflow {value : Int} (overflows : 2 ^ 31 ≤ value) :
    checkedInt value = none :=
  if_neg fun range => absurd range.2 (Int.not_lt.mpr overflows)

@[simp] theorem stringBytes_nil : stringBytes [] = 0 := rfl

@[simp] theorem stringBytes_cons (string : CString) (rest : List CString) :
    stringBytes (string :: rest) = string.strlen + 1 + stringBytes rest := rfl

theorem countStrings_eq
    (strings : List CString) (count : Int) (size : BitVec 32)
    (lower : 0 ≤ count) (upper : count < 2 ^ 31) :
    countStrings strings (count, size) =
      if count + strings.length < 2 ^ 31 then
        some (count + strings.length,
          size + BitVec.ofNat 32 (stringBytes strings))
      else
        none := by
  induction strings generalizing count size with
  | nil =>
    rw [countStrings, if_pos (by simpa using upper)]
    simp
  | cons string rest ih =>
    rw [countStrings, List.length_cons, stringBytes_cons]
    by_cases counts : count + 1 < 2 ^ 31
    · have together : size + BitVec.ofNat 32 (string.strlen + 1) +
              BitVec.ofNat 32 (stringBytes rest) =
            size + BitVec.ofNat 32 (string.strlen + 1 + stringBytes rest) := by
        rw [BitVec.add_assoc, BitVec.ofNat_add_ofNat]
      have length : count + 1 + (rest.length : Int) =
            count + ((rest.length + 1 : Nat) : Int) := by
        omega
      rw [checkedInt_of_range (by omega) counts, Option.bind_some,
        ih (count + 1) _ (by omega) counts, together,
        length]
    · rw [checkedInt_of_overflow (by omega), Option.bind_none,
        if_neg (by omega)]

theorem copyStrings_last
    (table : Int) (i : Nat) (ustackPtr : Int) (strings : List CString) :
    (copyStrings table i ustackPtr strings).2 =
      ustackPtr - stringBytes strings := by
  induction strings generalizing i ustackPtr with
  | nil => simp [copyStrings]
  | cons string rest ih =>
    rw [copyStrings, stringBytes_cons]
    rw [ih]
    omega

@[simp] theorem storeWord_length (addr value : Int) :
    (storeWord addr value).bytes.length = 4 := rfl

theorem storeWord_addr (addr value : Int) :
    (storeWord addr value).addr = addr := rfl

@[simp] theorem storeString_length (addr : Int) (string : CString) :
    (storeString addr string).bytes.length = string.strlen + 1 := by
  simp [storeString, CString.strlen]

theorem copyStrings_inside
    (table : Int) (i : Nat) (ustackPtr : Int) (strings : List CString) :
    ∀ write ∈ (copyStrings table i ustackPtr strings).1,
      write.Inside (ustackPtr - stringBytes strings) ustackPtr ∨
        write.Inside (table + 4 * i)
          (table + 4 * (i + strings.length + 1)) := by
  unfold StackWrite.Inside
  induction strings generalizing i ustackPtr with
  | nil =>
    intro write member
    obtain rfl := List.mem_singleton.mp member
    right
    rw [storeWord_length, List.length_nil]
    change table + 4 * i ≤ table + 4 * i ∧ table + 4 * i + _ ≤ _
    omega
  | cons string rest ih =>
    intro write member
    rw [stringBytes_cons, List.length_cons]
    rcases List.mem_cons.mp member with rfl | member
    · left
      rw [storeString_length]
      change _ ≤ ustackPtr - (string.strlen + 1 : Int) ∧
        ustackPtr - (string.strlen + 1 : Int) + _ ≤ _
      omega
    rcases List.mem_cons.mp member with rfl | member
    · right
      rw [storeWord_length]
      change table + 4 * i ≤ table + 4 * i ∧ table + 4 * i + _ ≤ _
      omega
    · have inside := ih _ _ write member
      omega

theorem copyStrings_null
    (table : Int) (i : Nat) (ustackPtr : Int) (strings : List CString) :
    storeWord (table + 4 * (i + strings.length : Nat)) 0 ∈
      (copyStrings table i ustackPtr strings).1 := by
  induction strings generalizing i ustackPtr with
  | nil => exact List.mem_singleton_self _
  | cons string rest ih =>
    have null := ih (i + 1) (ustackPtr - (string.strlen + 1))
    have index : i + 1 + rest.length = i + (rest.length + 1) := by
      omega
    rw [index] at null
    exact List.mem_cons_of_mem _ (List.mem_cons_of_mem _ null)

theorem copyStrings_lowest (table : Int) (i : Nat) (ustackPtr : Int)
    {strings : List CString} (some : strings ≠ []) :
    ∃ write ∈ (copyStrings table i ustackPtr strings).1,
      write.addr = ustackPtr - stringBytes strings := by
  induction strings generalizing i ustackPtr with
  | nil => exact absurd rfl some
  | cons string rest ih =>
    rw [copyStrings, stringBytes_cons]
    cases rest with
    | nil =>
      refine ⟨_, List.mem_cons_self, ?_⟩
      rfl
    | cons next later =>
      obtain ⟨write, member, lowest⟩ :=
        ih (i + 1) (ustackPtr - (string.strlen + 1)) (List.cons_ne_nil _ _)
      refine ⟨write, List.mem_cons_of_mem _ (List.mem_cons_of_mem _ member), ?_⟩
      omega

/-- The bytes that are written: strings, tables and header. -/
def stackBytes (argv envp : List CString) : Nat :=
  stringBytes argv + stringBytes envp + 4 * (argv.length + envp.length + 2) + 12

theorem tableSize_of_lt {slots : Nat} (small : 4 * slots < 2 ^ 32) :
    tableSize slots = 4 * slots := by
  unfold tableSize
  omega

theorem tableSize_wraps {slots : Nat} (wraps : tableSize slots ≠ 4 * slots) :
    tableSize slots + 2 ^ 32 ≤ 4 * slots := by
  unfold tableSize at *
  omega

/-- `uargv` and `uenvp` of a stack that ends at `top`. -/
def uargvOf (top : Int) (argc : Nat) : Int :=
  top - tableSize ((argc + 1 : Nat))

def uenvpOf (top : Int) (argv : List CString) (envc : Nat) : Int :=
  uargvOf top argv.length - stringBytes argv - tableSize ((envc + 1 : Nat))

theorem buildStack_eq (argv envp : List CString) (top : Int) :
    buildStack argv envp argv.length envp.length top =
      ((copyStrings (uargvOf top argv.length) 0
            (uargvOf top argv.length) argv).1 ++
          (copyStrings (uenvpOf top argv envp.length) 0
            (uenvpOf top argv envp.length) envp).1 ++
          [storeWord (uenvpOf top argv envp.length - stringBytes envp - 4)
              (uenvpOf top argv envp.length),
            storeWord (uenvpOf top argv envp.length - stringBytes envp - 8)
              (uargvOf top argv.length),
            storeWord (uenvpOf top argv envp.length - stringBytes envp - 12)
              argv.length],
        uenvpOf top argv envp.length - stringBytes envp - 12) := by
  unfold buildStack uenvpOf uargvOf
  simp only [copyStrings_last, Int.natCast_succ]

variable {argv envp : List CString}

theorem header_mem {top : Int} {write : StackWrite}
    (member :
      write ∈
        [storeWord (uenvpOf top argv envp.length - stringBytes envp - 4)
            (uenvpOf top argv envp.length),
          storeWord (uenvpOf top argv envp.length - stringBytes envp - 8)
            (uargvOf top argv.length),
          storeWord (uenvpOf top argv envp.length - stringBytes envp - 12)
            argv.length]) :
    write ∈ (buildStack argv envp argv.length envp.length top).1 := by
  rw [buildStack_eq]
  exact List.mem_append_right _ member

theorem tables_of_fit (small : stackBytes argv envp < 2 ^ 32) (top : Int) :
    uargvOf top argv.length = top - 4 * (argv.length + 1) ∧
      uenvpOf top argv envp.length =
        top - 4 * (argv.length + 1) - stringBytes argv -
          4 * (envp.length + 1) := by
  unfold stackBytes at small
  have argvTable := @tableSize_of_lt (argv.length + 1) (by omega)
  have envpTable := @tableSize_of_lt (envp.length + 1) (by omega)
  unfold uenvpOf uargvOf
  omega

theorem buildStack_inside (small : stackBytes argv envp < 2 ^ 32) (top : Int) :
    ∀ write ∈ (buildStack argv envp argv.length envp.length top).1,
      write.Inside (top - stackBytes argv envp) top := by
  obtain ⟨isArgv, isEnvp⟩ := tables_of_fit small top
  unfold stackBytes at small ⊢
  intro write member
  rw [buildStack_eq] at member
  rcases List.mem_append.mp member with member | member
  · rcases List.mem_append.mp member with member | member
    · have inside := copyStrings_inside _ 0 _ argv write member
      unfold StackWrite.Inside at inside ⊢
      omega
    · have inside := copyStrings_inside _ 0 _ envp write member
      unfold StackWrite.Inside at inside ⊢
      omega
  · unfold StackWrite.Inside
    simp only [List.mem_cons, List.not_mem_nil, or_false] at member
    rcases member with rfl | rfl | rfl
    · rw [storeWord_length, storeWord_addr]
      omega
    · rw [storeWord_length, storeWord_addr]
      omega
    · rw [storeWord_length, storeWord_addr]
      omega

/-- A table that wraps sends its `NULL` or a string out of the stack. -/
theorem tables_full_of_inBounds {top : Int} {size : Nat} (small : size < 2 ^ 32)
    (inBounds :
      ∀ write ∈ (buildStack argv envp argv.length envp.length top).1,
        write.Inside (top - size) top) :
    tableSize (argv.length + 1 : Nat) = 4 * (argv.length + 1) ∧
      tableSize (envp.length + 1 : Nat) = 4 * (envp.length + 1) := by
  rw [buildStack_eq] at inBounds
  have argvNull :=
    inBounds _ (List.mem_append_left _ (List.mem_append_left _
      (copyStrings_null _ 0 _ argv)))
  have envpNull :=
    inBounds _ (List.mem_append_left _ (List.mem_append_right _
      (copyStrings_null _ 0 _ envp)))
  have argvUpper := argvNull.2
  have envpUpper := envpNull.2
  rw [storeWord_length] at argvUpper envpUpper
  unfold storeWord at argvUpper envpUpper
  dsimp only at argvUpper envpUpper
  have argvTable :
      tableSize (argv.length + 1 : Nat) = 4 * (argv.length + 1) := by
    apply Decidable.byContradiction
    intro wraps
    have lacks := tableSize_wraps wraps
    unfold uargvOf at argvUpper
    omega
  refine ⟨argvTable, ?_⟩
  apply Decidable.byContradiction
  intro wraps
  have lacks := tableSize_wraps wraps
  unfold uenvpOf uargvOf at envpUpper
  cases isArgv : argv with
  | nil =>
    have noTable : argv.length = 0 := by rw [isArgv]; rfl
    have noBytes : stringBytes argv = 0 := by rw [isArgv]; rfl
    omega
  | cons string rest =>
    have notEmpty : argv ≠ [] := by
      rw [isArgv]
      exact List.cons_ne_nil _ _
    obtain ⟨write, member, lowest⟩ :=
      copyStrings_lowest (uargvOf top argv.length) 0
        (uargvOf top argv.length) notEmpty
    have inside :=
      inBounds write (List.mem_append_left _ (List.mem_append_left _ member))
    have lower := inside.1
    omega

theorem buildStack_inBounds_iff (argv envp : List CString) (top : Int)
    {size : Nat} (small : size < 2 ^ 32) :
    (∀ write ∈ (buildStack argv envp argv.length envp.length top).1,
        write.Inside (top - size) top) ↔
      stackBytes argv envp ≤ size := by
  constructor
  · intro inBounds
    obtain ⟨argvTable, envpTable⟩ := tables_full_of_inBounds small inBounds
    have lowest :=
      inBounds _ (header_mem (List.mem_cons_of_mem _
        (List.mem_cons_of_mem _ List.mem_cons_self)))
    have lower := lowest.1
    unfold storeWord uenvpOf uargvOf at lower
    dsimp only at lower
    unfold stackBytes
    omega
  · intro fits write member
    have inside := buildStack_inside (by omega) top write member
    unfold StackWrite.Inside at inside ⊢
    omega

/-- The bytes that round the size up to whole pages. -/
def stackPad (total : Nat) : Nat :=
  (PAGE_SIZE - total % PAGE_SIZE) % PAGE_SIZE

/-- `ustack_size` before it is rounded, in exact numbers. -/
def stackTotal (argv envp : List CString) : Nat :=
  8 * PAGE_SIZE + stringBytes argv + stringBytes envp

theorem roundUpInt_whole (whole : value.tmod PAGE_SIZE = 0) :
    roundUpInt value = some value := by
  unfold roundUpInt
  rw [whole]
  rfl

theorem roundUpInt_part {remainder : Int}
    (isRemainder : value.tmod PAGE_SIZE = remainder)
    (notWhole : remainder ≠ 0) :
    roundUpInt value = checkedInt (value + (PAGE_SIZE - remainder)) := by
  unfold roundUpInt
  rw [isRemainder, if_pos notWhole]

variable {total : Nat}

theorem stackPad_whole (whole : total % PAGE_SIZE = 0) :
    stackPad total = 0 := by
  unfold stackPad
  rw [whole]
  rfl

theorem stackPad_part (notWhole : total % PAGE_SIZE ≠ 0) :
    stackPad total = PAGE_SIZE - total % PAGE_SIZE ∧ 0 < stackPad total := by
  have below : total % PAGE_SIZE < PAGE_SIZE := Nat.mod_lt total (by decide)
  have pad : stackPad total = PAGE_SIZE - total % PAGE_SIZE :=
    Nat.mod_eq_of_lt (by omega)
  exact ⟨pad, by omega⟩

theorem roundUpInt_of_nonneg (small : total < 2 ^ 31) :
    roundUpInt total = checkedInt ((total + stackPad total : Nat)) := by
  have remainder :
      (total : Int).tmod PAGE_SIZE = (total % PAGE_SIZE : Nat) := by
    rfl
  by_cases whole : total % PAGE_SIZE = 0
  · rw [whole] at remainder
    rw [roundUpInt_whole remainder, stackPad_whole whole, Nat.add_zero,
      checkedInt_of_range (by omega) (by omega)]
  · obtain ⟨pad, -⟩ := stackPad_part whole
    have below : total % PAGE_SIZE < PAGE_SIZE := Nat.mod_lt total (by decide)
    rw [roundUpInt_part remainder (by omega)]
    congr 1
    omega

theorem tmod_page_of_neg (negative : total < 2 ^ 32) :
    ((total : Int) - 2 ^ 32).tmod PAGE_SIZE =
      if total % PAGE_SIZE = 0 then (0 : Int)
      else ((total % PAGE_SIZE : Nat) : Int) - PAGE_SIZE := by
  have isPage : (PAGE_SIZE : Int) = 0x1000 := rfl
  have page : PAGE_SIZE = 0x1000 := rfl
  rw [Int.tmod_eq_emod, isPage, page]
  split <;> split <;> omega

theorem roundUpInt_of_neg (negative : total < 2 ^ 32) :
    roundUpInt (total - 2 ^ 32) =
      if stackPad total = 0 then some (total - 2 ^ 32 : Int)
      else checkedInt (total + stackPad total + PAGE_SIZE - 2 ^ 32) := by
  have remainder := tmod_page_of_neg negative
  by_cases whole : total % PAGE_SIZE = 0
  · rw [if_pos whole] at remainder
    rw [roundUpInt_whole remainder, stackPad_whole whole, if_pos rfl]
  · obtain ⟨pad, positive⟩ := stackPad_part whole
    rw [if_neg whole] at remainder
    have rounded : (total : Int) - 2 ^ 32 +
            (PAGE_SIZE - ((total % PAGE_SIZE : Nat) - (PAGE_SIZE : Int))) =
          total + stackPad total + PAGE_SIZE - 2 ^ 32 := by
      omega
    rw [roundUpInt_part remainder (by omega), if_neg (by omega), rounded]

theorem toInt_size (size : Nat) (small : size < 2 ^ 32) :
    (BitVec.ofNat 32 size).toInt =
      if size < 2 ^ 31 then (size : Int) else (size : Int) - 2 ^ 32 := by
  rw [BitVec.toInt_eq_toNat_cond, BitVec.toNat_ofNat, Nat.mod_eq_of_lt small]
  split <;> split <;> omega

theorem ustackSize_of_small {argvBytes envpBytes : Nat}
    (argvSmall : argvBytes < 2 ^ 31) (envpSmall : envpBytes < 2 ^ 31) :
    ustackSize (BitVec.ofNat 32 argvBytes) (BitVec.ofNat 32 envpBytes) =
      (checkedInt
        ((8 * PAGE_SIZE + argvBytes + envpBytes +
          stackPad (8 * PAGE_SIZE + argvBytes + envpBytes) : Nat))).map
        (BitVec.ofInt 32) := by
  unfold ustackSize
  rw [toInt_size _ (by omega), toInt_size _ (by omega), if_pos argvSmall,
    if_pos envpSmall]
  by_cases fits : 8 * PAGE_SIZE + argvBytes + envpBytes < 2 ^ 31
  · have sum : (8 * (PAGE_SIZE : Int) + argvBytes + envpBytes : Int) =
          ((8 * PAGE_SIZE + argvBytes + envpBytes : Nat) : Int) := by
      omega
    rw [checkedInt_of_range (by omega) (by omega), Option.bind_some,
      checkedInt_of_range (by omega) (by omega), Option.bind_some, sum,
      roundUpInt_of_nonneg fits]
  · rw [@checkedInt_of_overflow
      ((8 * PAGE_SIZE + argvBytes + envpBytes +
        stackPad (8 * PAGE_SIZE + argvBytes + envpBytes) : Nat) : Int)
      (by omega)]
    by_cases first : 8 * PAGE_SIZE + argvBytes < 2 ^ 31
    · rw [checkedInt_of_range (by omega) (by omega), Option.bind_some,
        checkedInt_of_overflow (by omega)]
      rfl
    · rw [checkedInt_of_overflow (by omega)]
      rfl

theorem ofInt_wrapped (size : Nat) :
    BitVec.ofInt 32 ((size : Int) - 2 ^ 32) = BitVec.ofNat 32 size := by
  apply BitVec.eq_of_toNat_eq
  rw [BitVec.toNat_ofInt, BitVec.toNat_ofNat]
  omega

/-- One of the sums is a negative `int`. -/
theorem ustackSize_of_large {argvBytes envpBytes : Nat}
    (userBytes : argvBytes + envpBytes ≤ 0xBFC00000)
    (large : 2 ^ 31 ≤ argvBytes ∨ 2 ^ 31 ≤ envpBytes) :
    ustackSize (BitVec.ofNat 32 argvBytes) (BitVec.ofNat 32 envpBytes) =
      some (BitVec.ofNat 32
        (8 * PAGE_SIZE + argvBytes + envpBytes +
          stackPad (8 * PAGE_SIZE + argvBytes + envpBytes) +
          if stackPad (8 * PAGE_SIZE + argvBytes + envpBytes) = 0 then 0
          else PAGE_SIZE)) := by
  have page : PAGE_SIZE = 0x1000 := rfl
  have sum :
      (8 * (PAGE_SIZE : Int) + (BitVec.ofNat 32 argvBytes).toInt +
          (BitVec.ofNat 32 envpBytes).toInt : Int) =
        ((8 * PAGE_SIZE + argvBytes + envpBytes : Nat) : Int) - 2 ^ 32 := by
    rw [toInt_size _ (by omega), toInt_size _ (by omega)]
    split <;> split <;> omega
  have first :
      checkedInt (8 * (PAGE_SIZE : Int) + (BitVec.ofNat 32 argvBytes).toInt) =
        some (8 * (PAGE_SIZE : Int) + (BitVec.ofNat 32 argvBytes).toInt) := by
    rw [toInt_size _ (by omega)]
    refine checkedInt_of_range ?_ ?_ <;> split <;> omega
  unfold ustackSize
  rw [first, Option.bind_some, sum,
    checkedInt_of_range (by omega) (by omega), Option.bind_some,
    roundUpInt_of_neg (by omega)]
  have padded : stackPad (8 * PAGE_SIZE + argvBytes + envpBytes) < PAGE_SIZE :=
    Nat.mod_lt _ (by decide)
  by_cases whole : stackPad (8 * PAGE_SIZE + argvBytes + envpBytes) = 0
  · rw [if_pos whole, if_pos whole, whole, Option.map_some, ofInt_wrapped]
    rfl
  · have rounded :
        (((8 * PAGE_SIZE + argvBytes + envpBytes : Nat) : Int) +
            stackPad (8 * PAGE_SIZE + argvBytes + envpBytes) + PAGE_SIZE -
            2 ^ 32 : Int) =
          ((8 * PAGE_SIZE + argvBytes + envpBytes +
            stackPad (8 * PAGE_SIZE + argvBytes + envpBytes) +
            PAGE_SIZE : Nat) : Int) - 2 ^ 32 := by
      omega
    rw [if_neg whole, if_neg whole, rounded,
      checkedInt_of_range (by omega) (by omega), Option.map_some,
      ofInt_wrapped]

theorem userTop_eq : userTop = 0xC0000000 := by decide

theorem inBounds_iff
    (argv envp : List CString) (size : BitVec 32) (ustackPtr : Int) :
    UserStack.InBounds
        { ustack := userTop - size.toNat
          ustackSize := size.toNat
          writes := (buildStack argv envp argv.length envp.length userTop).1
          ustackPtr := ustackPtr } ↔
      stackBytes argv envp ≤ size.toNat := by
  have top : (userTop : Int) - size.toNat + size.toNat = userTop := by
    omega
  unfold UserStack.InBounds
  rw [top]
  exact buildStack_inBounds_iff argv envp userTop size.isLt

theorem execveStack_eq {argv envp : List CString}
    (argvCounts : argv.length + 1 < 2 ^ 31)
    (envpCounts : envp.length + 1 < 2 ^ 31) :
    execveStack argv envp =
      (ustackSize (BitVec.ofNat 32 (stringBytes argv))
        (BitVec.ofNat 32 (stringBytes envp))).map fun size =>
        { ustack := userTop - size.toNat
          ustackSize := size.toNat
          writes := (buildStack argv envp argv.length envp.length userTop).1
          ustackPtr :=
            (buildStack argv envp argv.length envp.length userTop).2 } := by
  have argvCounted : countStrings argv (0, 0) =
        some ((argv.length : Int), BitVec.ofNat 32 (stringBytes argv)) := by
    rw [countStrings_eq argv 0 0 (by omega) (by omega),
      if_pos (by omega), Int.zero_add]
    simp
  have envpCounted : countStrings envp (0, 0) =
        some ((envp.length : Int), BitVec.ofNat 32 (stringBytes envp)) := by
    rw [countStrings_eq envp 0 0 (by omega) (by omega),
      if_pos (by omega), Int.zero_add]
    simp
  unfold execveStack
  rw [argvCounted, Option.bind_some]
  dsimp only
  rw [envpCounted, Option.bind_some]
  cases ustackSize (BitVec.ofNat 32 (stringBytes argv))
      (BitVec.ofNat 32 (stringBytes envp)) with
  | none => rfl
  | some size =>
    rw [Option.bind_some, checkedInt_of_range (by omega) (by omega),
      Option.bind_some, checkedInt_of_range (by omega) (by omega)]
    rfl

theorem execveStack_overflow
    (overflows : 2 ^ 31 ≤ argv.length + 1 ∨ 2 ^ 31 ≤ envp.length + 1) :
    execveStack argv envp = none := by
  unfold execveStack
  by_cases argvCounts : argv.length < 2 ^ 31
  · rw [countStrings_eq argv 0 0 (by omega) (by omega),
      if_pos (by omega), Option.bind_some]
    dsimp only
    by_cases envpCounts : envp.length < 2 ^ 31
    · rw [countStrings_eq envp 0 0 (by omega) (by omega),
        if_pos (by omega), Option.bind_some]
      rw [Option.bind_eq_none_iff]
      intro size _
      rw [Option.bind_eq_none_iff]
      intro slots isSlots
      rw [Option.map_eq_none_iff]
      refine checkedInt_of_overflow ?_
      rcases overflows with argvOverflows | envpOverflows
      · rw [checkedInt_of_overflow (by omega)] at isSlots
        cases isSlots
      · omega
    · rw [countStrings_eq envp 0 0 (by omega) (by omega),
        if_neg (by omega), Option.bind_none]
  · rw [countStrings_eq argv 0 0 (by omega) (by omega),
      if_neg (by omega), Option.bind_none]

theorem execveStack_inBounds (argv envp : List CString) :
    (∃ stack, execveStack argv envp = some stack ∧ stack.InBounds) ↔
      ∃ size,
        ustackSize (BitVec.ofNat 32 (stringBytes argv))
            (BitVec.ofNat 32 (stringBytes envp)) = some size ∧
          stackBytes argv envp ≤ size.toNat := by
  constructor
  · rintro ⟨stack, built, inBounds⟩
    by_cases counts : argv.length + 1 < 2 ^ 31 ∧ envp.length + 1 < 2 ^ 31
    · rw [execveStack_eq counts.1 counts.2] at built
      obtain ⟨size, isSize, rfl⟩ := Option.map_eq_some_iff.mp built
      exact ⟨size, isSize, (inBounds_iff argv envp size _).mp inBounds⟩
    · rw [execveStack_overflow (by omega)] at built
      cases built
  · rintro ⟨size, isSize, fits⟩
    have counts := fits
    unfold stackBytes at counts
    rw [execveStack_eq (by omega) (by omega), isSize]
    exact ⟨_, rfl, (inBounds_iff argv envp size _).mpr fits⟩

/--
The condition on the strings: no `int` overflows, and tables and header fit in
eight pages and what the rounding adds.  A sum of 2 GiB or more is a negative
`int`, which rounding moves up by one more page.
-/
def StackSuffices (argv envp : List CString) : Prop :=
  (stringBytes argv < 2 ^ 31 ∧ stringBytes envp < 2 ^ 31 ∧
      stackTotal argv envp + stackPad (stackTotal argv envp) < 2 ^ 31 ∧
      4 * (argv.length + envp.length + 2) + 12 ≤
        8 * PAGE_SIZE + stackPad (stackTotal argv envp)) ∨
    ((2 ^ 31 ≤ stringBytes argv ∨ 2 ^ 31 ≤ stringBytes envp) ∧
      4 * (argv.length + envp.length + 2) + 12 ≤
        8 * PAGE_SIZE + stackPad (stackTotal argv envp) +
          if stackPad (stackTotal argv envp) = 0 then 0 else PAGE_SIZE)

theorem ustackSize_suffices_of_small (argvSmall : stringBytes argv < 2 ^ 31)
    (envpSmall : stringBytes envp < 2 ^ 31) (needed : Nat) :
    (∃ size,
      ustackSize (BitVec.ofNat 32 (stringBytes argv))
          (BitVec.ofNat 32 (stringBytes envp)) = some size ∧
        needed ≤ size.toNat) ↔
      stackTotal argv envp + stackPad (stackTotal argv envp) < 2 ^ 31 ∧
        needed ≤ stackTotal argv envp + stackPad (stackTotal argv envp) := by
  rw [ustackSize_of_small argvSmall envpSmall]
  change (∃ size, Option.map _ (checkedInt
    ((stackTotal argv envp + stackPad (stackTotal argv envp) : Nat) : Int)) =
      some size ∧ _) ↔ _
  by_cases range :
      stackTotal argv envp + stackPad (stackTotal argv envp) < 2 ^ 31
  · rw [checkedInt_of_range (by omega) (by omega), Option.map_some]
    have size :
        (BitVec.ofInt 32 ((stackTotal argv envp +
          stackPad (stackTotal argv envp) : Nat) : Int)).toNat =
          stackTotal argv envp + stackPad (stackTotal argv envp) := by
      rw [BitVec.ofInt_natCast, BitVec.toNat_ofNat]
      omega
    constructor
    · rintro ⟨_, isSize, enough⟩
      cases isSize
      rw [size] at enough
      exact ⟨range, enough⟩
    · rintro ⟨-, enough⟩
      refine ⟨_, rfl, ?_⟩
      rw [size]
      exact enough
  · rw [checkedInt_of_overflow (by omega), Option.map_none]
    constructor
    · rintro ⟨_, isSize, _⟩
      cases isSize
    · rintro ⟨isInt, -⟩
      exact absurd isInt range

theorem ustackSize_suffices_of_large
    (large : 2 ^ 31 ≤ stringBytes argv ∨ 2 ^ 31 ≤ stringBytes envp)
    (fits : stringBytes argv + stringBytes envp ≤ userMemory32.size.toNat)
    (needed : Nat) :
    (∃ size,
      ustackSize (BitVec.ofNat 32 (stringBytes argv))
          (BitVec.ofNat 32 (stringBytes envp)) = some size ∧
        needed ≤ size.toNat) ↔
      needed ≤
        stackTotal argv envp + stackPad (stackTotal argv envp) +
          if stackPad (stackTotal argv envp) = 0 then 0 else PAGE_SIZE := by
  have userBytes : userMemory32.size.toNat = 0xBFC00000 := by decide
  have page : PAGE_SIZE = 0x1000 := rfl
  have padded : stackPad (stackTotal argv envp) < PAGE_SIZE :=
    Nat.mod_lt _ (by decide)
  rw [ustackSize_of_large (by omega) (by omega)]
  change (∃ size, some (BitVec.ofNat 32
    (stackTotal argv envp + stackPad (stackTotal argv envp) +
      if stackPad (stackTotal argv envp) = 0 then 0 else PAGE_SIZE)) =
      some size ∧ _) ↔ _
  have size :
      (BitVec.ofNat 32
        (stackTotal argv envp + stackPad (stackTotal argv envp) +
          if stackPad (stackTotal argv envp) = 0 then 0
          else PAGE_SIZE)).toNat =
        stackTotal argv envp + stackPad (stackTotal argv envp) +
          if stackPad (stackTotal argv envp) = 0 then 0
          else PAGE_SIZE := by
    rw [BitVec.toNat_ofNat]
    unfold stackTotal at padded ⊢
    split <;> omega
  constructor
  · rintro ⟨_, isSize, enough⟩
    cases isSize
    rw [size] at enough
    exact enough
  · intro enough
    refine ⟨_, rfl, ?_⟩
    rw [size]
    exact enough

/--
For all strings that fit in user memory: building the initial stack is defined
and every write is inside of the stack exactly when the stack suffices.
-/
theorem execveStack_inBounds_iff (argv envp : List CString)
    (fits : stringBytes argv + stringBytes envp ≤ userMemory32.size.toNat) :
    (∃ stack, execveStack argv envp = some stack ∧ stack.InBounds) ↔
      StackSuffices argv envp := by
  rw [execveStack_inBounds]
  have total : stackTotal argv envp =
        8 * PAGE_SIZE + stringBytes argv + stringBytes envp :=
    rfl
  unfold StackSuffices stackBytes
  by_cases small : stringBytes argv < 2 ^ 31 ∧ stringBytes envp < 2 ^ 31
  · rw [ustackSize_suffices_of_small small.1 small.2]
    omega
  · have large : 2 ^ 31 ≤ stringBytes argv ∨ 2 ^ 31 ≤ stringBytes envp := by
      omega
    rw [ustackSize_suffices_of_large large fits]
    omega

/-- The argument `sh`. -/
def shellName : CString where
  bytes := [0x73, 0x68]
  nonzero := by decide

/-- One argument leaves every write inside. -/
theorem shellName_inBounds :
    ∃ stack, execveStack [shellName] [] = some stack ∧ stack.InBounds :=
  (execveStack_inBounds_iff [shellName] [] (by decide)).mpr (Or.inl (by decide))

/-- The empty string. -/
def emptyString : CString where
  bytes := []
  nonzero := by simp

theorem stringBytes_replicate (count : Nat) :
    stringBytes (List.replicate count emptyString) = count := by
  induction count with
  | zero => rfl
  | succ count ih =>
    rw [List.replicate_succ, stringBytes_cons, ih]
    change 0 + 1 + count = count + 1
    omega

/-- Not all strings that fit in user memory stay inside of the stack. -/
theorem execveStack_not_inBounds :
    ¬ ∀ argv envp : List CString,
      stringBytes argv + stringBytes envp ≤ userMemory32.size.toNat →
      ∃ stack, execveStack argv envp = some stack ∧ stack.InBounds := by
  intro always
  have bytes := stringBytes_replicate 8192
  have fits : stringBytes (List.replicate 8192 emptyString) + stringBytes [] ≤
        userMemory32.size.toNat := by
    rw [bytes]
    decide
  obtain ⟨size, isSize, enough⟩ :=
    (execveStack_inBounds _ []).mp (always _ [] fits)
  rw [bytes] at isSize
  cases isSize
  unfold stackBytes at enough
  rw [bytes, List.length_replicate] at enough
  exact absurd enough (by decide)

end Idylla.Exec
