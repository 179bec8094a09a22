namespace Idylla.Kernel

/-!
# User pointers of system calls

The stubs of `syscall.c` that look at a pointer of the caller before they pass
it on, on 32-bit x86.  What an implementation may touch through a pointer is a
range of bytes from it on, or the bytes of a string with its end.
-/

/-- `USERMEM_START` -/
def USERMEM_START : Nat := 0x00400000

/-- `USERMEM_SIZE`, up to `LOWMEM_START`. -/
def USERMEM_SIZE : Nat := 0xC0000000 - USERMEM_START

/-- `IS_IN_USERMEM` -/
def IS_IN_USERMEM (address : BitVec 32) : Bool :=
  USERMEM_START ≤ address.toNat && address.toNat < USERMEM_START + USERMEM_SIZE

/-- `sizeof(int)` -/
def sizeofInt : Nat := 4

/-- `sizeof(struct stat)` -/
def sizeofStat : Nat := 48

/-- `sizeof(struct termios)` -/
def sizeofTermios : Nat := 40

/-- `sizeof(struct winsize)` -/
def sizeofWinsize : Nat := 8

/-- What is read or written from an address on. -/
inductive UserRange where
  | bytes (start : BitVec 32) (length : Nat)
  | text (start : BitVec 32)

/-- The bytes of memory. -/
abbrev UserBytes := BitVec 32 → BitVec 8

/-- The range has a byte at a distance from its start. -/
def UserRange.Reaches (memory : UserBytes) (offset : Nat) : UserRange → Prop
  | .bytes _ length => offset < length
  | .text start =>
    ∀ before, before < offset → memory (start + BitVec.ofNat 32 before) ≠ 0

/-- The address that a range starts at. -/
def UserRange.start : UserRange → BitVec 32
  | .bytes start _ => start
  | .text start => start

/-- The whole range lies inside of user memory. -/
def UserRange.Inside (memory : UserBytes) (range : UserRange) : Prop :=
  ∀ offset, range.Reaches memory offset →
    IS_IN_USERMEM (range.start + BitVec.ofNat 32 offset) = true

/-- What the file of a descriptor hands `ioctl` to. -/
inductive IoctlTarget where
  | refused
  | null
  | tty
  deriving Repr, DecidableEq

/-- How much of `arg` `tty_ioctl` reads or writes. -/
def ttyIoctl (cmd : Int) : Nat :=
  -- TCGET, TCSANOW, TCSADRAIN
  if cmd = 1 ∨ cmd = 4 ∨ cmd = 3 then
    sizeofTermios
  -- TIOCGWINSZ
  else if cmd = 15 then
    sizeofWinsize
  else
    0

/-- How much of `arg` `sys_ioctl` reads or writes. -/
def sysIoctl (target : IoctlTarget) (cmd : Int) : Nat :=
  match target with
  | .refused => 0
  | .null => 0
  | .tty => ttyIoctl cmd

/-- The system calls with a pointer of the caller. -/
inductive UserCall where
  | read (fd : Int) (buf count : BitVec 32)
  | write (fd : Int) (buf count : BitVec 32)
  | getdents (fd : Int) (buf count : BitVec 32)
  | fstat (fd : Int) (stat : BitVec 32)
  | stat (path stat : BitVec 32)
  | waitpid (pid : Int) (status : BitVec 32) (options : Int)
  | ioctl (fd cmd : Int) (arg : BitVec 32)

/-- `_sys_read`, `_sys_write` and `_sys_getdents`; `none` is `-EFAULT`. -/
def passBuffer (buf count : BitVec 32) : Option (List UserRange) :=
  if ¬ IS_IN_USERMEM buf then none
  else some [.bytes buf count.toNat]

/-- `_sys_fstat` -/
def passFstat (stat : BitVec 32) : Option (List UserRange) :=
  if ¬ IS_IN_USERMEM stat then none
  else some [.bytes stat sizeofStat]

/-- `_sys_stat` -/
def passStat (path stat : BitVec 32) : Option (List UserRange) :=
  if ¬ IS_IN_USERMEM path ∨ ¬ IS_IN_USERMEM stat then none
  else some [.text path, .bytes stat sizeofStat]

/-- `_sys_waitpid`; the status is not stored through a null pointer. -/
def passWaitpid (status : BitVec 32) : Option (List UserRange) :=
  if status ≠ 0 ∧ ¬ IS_IN_USERMEM status then none
  else if status ≠ 0 then some [.bytes status sizeofInt]
  else some []

/-- `_sys_ioctl` -/
def passIoctl (target : IoctlTarget) (cmd : Int)
    (arg : BitVec 32) : Option (List UserRange) :=
  some [.bytes arg (sysIoctl target cmd)]

/--
What a stub passes on, as the ranges that the implementation may touch; `none`
where it returns `-EFAULT`.
-/
def UserCall.passes
    (targets : Int → IoctlTarget) : UserCall → Option (List UserRange)
  | .read _ buf count => passBuffer buf count
  | .write _ buf count => passBuffer buf count
  | .getdents _ buf count => passBuffer buf count
  | .fstat _ buf => passFstat buf
  | .stat path buf => passStat path buf
  | .waitpid _ status _ => passWaitpid status
  | .ioctl fd cmd arg => passIoctl (targets fd) cmd arg

/-- A call touches nothing but user memory. -/
def UserCall.TouchesUserMemory (memory : UserBytes)
    (targets : Int → IoctlTarget) (call : UserCall) : Prop :=
  ∀ ranges, call.passes targets = some ranges →
    ∀ range ∈ ranges, range.Inside memory

section Ranges

variable {start : BitVec 32} {offset length : Nat} {memory : UserBytes}

theorem inUsermem_iff :
    IS_IN_USERMEM start = true ↔
      0x00400000 ≤ start.toNat ∧ start.toNat < 0xC0000000 := by
  unfold IS_IN_USERMEM
  rw [Bool.and_eq_true, decide_eq_true_eq, decide_eq_true_eq]
  exact Iff.rfl

theorem inUsermem_add (inside : IS_IN_USERMEM start = true)
    (before : start.toNat + offset < 0xC0000000) :
    IS_IN_USERMEM (start + BitVec.ofNat 32 offset) = true := by
  rw [inUsermem_iff] at inside ⊢
  rw [BitVec.toNat_add, BitVec.toNat_ofNat]
  omega

theorem not_inUsermem_end (isEnd : start.toNat + offset = 0xC0000000) :
    IS_IN_USERMEM (start + BitVec.ofNat 32 offset) = false := by
  rw [Bool.eq_false_iff, Ne, inUsermem_iff, BitVec.toNat_add,
    BitVec.toNat_ofNat]
  omega

theorem bytes_inside_iff (inside : IS_IN_USERMEM start = true) :
    (UserRange.bytes start length).Inside memory ↔
      start.toNat + length ≤ 0xC0000000 := by
  have starts := inUsermem_iff.mp inside
  constructor
  · intro all
    refine Decidable.byContradiction fun tooLong => ?_
    have reaches : (UserRange.bytes start length).Reaches memory
          (0xC0000000 - start.toNat) := by
      show 0xC0000000 - start.toNat < length
      omega
    have outside :=
      @not_inUsermem_end start (0xC0000000 - start.toNat) (by omega)
    have isInside := all _ reaches
    rw [UserRange.start, outside] at isInside
    cases isInside
  · intro fits offset reaches
    have reaches : offset < length := reaches
    have before : start.toNat + offset < 0xC0000000 := by omega
    exact inUsermem_add inside before

theorem bytes_inside_iff_any :
    (UserRange.bytes start length).Inside memory ↔
      length = 0 ∨ IS_IN_USERMEM start = true ∧
        start.toNat + length ≤ 0xC0000000 := by
  by_cases isEmpty : length = 0
  · refine ⟨fun _ => .inl isEmpty, fun _ offset reaches => ?_⟩
    have reaches : offset < length := reaches
    omega
  · constructor
    · intro all
      have starts : IS_IN_USERMEM start = true := by
        have first := all 0 (Nat.pos_of_ne_zero isEmpty)
        simpa [UserRange.start] using first
      exact .inr ⟨starts, (bytes_inside_iff starts).mp all⟩
    · rintro (noBytes | ⟨starts, fits⟩)
      · exact absurd noBytes isEmpty
      · exact (bytes_inside_iff starts).mpr fits

theorem text_inside_iff (inside : IS_IN_USERMEM start = true) :
    (UserRange.text start).Inside memory ↔
      ∃ length, start.toNat + length < 0xC0000000 ∧
        memory (start + BitVec.ofNat 32 length) = 0 := by
  have starts := inUsermem_iff.mp inside
  constructor
  · intro all
    refine Classical.byContradiction fun noEnd => ?_
    have outside :=
      @not_inUsermem_end start (0xC0000000 - start.toNat) (by omega)
    have isInside := all (0xC0000000 - start.toNat)
      fun before isBefore isEnd => noEnd ⟨before, by omega, isEnd⟩
    rw [UserRange.start, outside] at isInside
    cases isInside
  · rintro ⟨length, fits, isEnd⟩ offset reaches
    have notBehind : offset ≤ length :=
      Nat.le_of_not_lt fun behind => reaches length behind isEnd
    have before : start.toNat + offset < 0xC0000000 := by omega
    exact inUsermem_add inside before

end Ranges

/--
The pointer is refused, or the bytes behind it end before user memory does.
-/
def Bounded (start : BitVec 32) (length : Nat) : Prop :=
  IS_IN_USERMEM start = false ∨ start.toNat + length ≤ 0xC0000000

/-- What the guards leave to the caller. -/
def UserCall.StaysInside (memory : UserBytes)
    (targets : Int → IoctlTarget) : UserCall → Prop
  | .read _ buf count => Bounded buf count.toNat
  | .write _ buf count => Bounded buf count.toNat
  | .getdents _ buf count => Bounded buf count.toNat
  | .fstat _ buf => Bounded buf sizeofStat
  | .stat path buf =>
    IS_IN_USERMEM path = false ∨ IS_IN_USERMEM buf = false ∨
      (∃ length, path.toNat + length < 0xC0000000 ∧
        memory (path + BitVec.ofNat 32 length) = 0) ∧
        buf.toNat + sizeofStat ≤ 0xC0000000
  | .waitpid _ status _ => Bounded status sizeofInt
  | .ioctl fd cmd arg =>
    -- nothing is looked at
    sysIoctl (targets fd) cmd = 0 ∨
      IS_IN_USERMEM arg = true ∧
        arg.toNat + sysIoctl (targets fd) cmd ≤ 0xC0000000

section Stubs

variable {memory : UserBytes} {targets : Int → IoctlTarget}
  {start : BitVec 32} {length : Nat}

theorem guarded_bytes_iff :
    (∀ ranges,
        (if ¬ IS_IN_USERMEM start then none
          else some [UserRange.bytes start length]) = some ranges →
        ∀ range ∈ ranges, range.Inside memory) ↔
      Bounded start length := by
  unfold Bounded
  cases isInside : IS_IN_USERMEM start with
  | false =>
    simp
  | true =>
    simp [bytes_inside_iff isInside]

/--
A call touches nothing but user memory exactly where what its guards leave to
the caller holds.
-/
theorem touchesUserMemory_iff (memory : UserBytes) (targets : Int → IoctlTarget)
    (call : UserCall) :
    call.TouchesUserMemory memory targets ↔
      call.StaysInside memory targets := by
  unfold UserCall.TouchesUserMemory
  cases call with
  | read fd buf count =>
    exact guarded_bytes_iff
  | write fd buf count | getdents fd buf count | fstat fd buf =>
    exact guarded_bytes_iff
  | stat path buf =>
    simp only [UserCall.passes, passStat, UserCall.StaysInside]
    cases isPath : IS_IN_USERMEM path with
    | false =>
      simp
    | true =>
      cases isBuf : IS_IN_USERMEM buf with
      | false =>
        simp
      | true =>
        simp [text_inside_iff isPath, bytes_inside_iff isBuf]
  | waitpid pid status options =>
    simp only [UserCall.passes, passWaitpid, UserCall.StaysInside]
    by_cases isNull : status = 0
    · simp [isNull, Bounded, sizeofInt]
    · simp only [isNull, ne_eq, not_false_eq_true, true_and, ↓reduceIte]
      exact guarded_bytes_iff
  | ioctl fd cmd arg =>
    simp [UserCall.passes, passIoctl, UserCall.StaysInside,
      bytes_inside_iff_any]

end Stubs

/-- A read of two pages into the last page of user memory. -/
theorem read_leaves_user_memory :
    ¬ ∀ memory targets call,
      UserCall.TouchesUserMemory memory targets call := by
  intro touches
  have bounded :=
    (bytes_inside_iff (by decide)).mp
      (touches (fun _ => 0) (fun _ => .refused)
        (.read 0 0xBFFFF000 0x2000) [.bytes 0xBFFFF000 0x2000] rfl _
        List.mem_cons_self)
  exact absurd bounded (by decide)

end Idylla.Kernel
