import Idylla.Lib.Run

namespace Idylla.Kernel

open Idylla.Lib

/-!
# Interrupt lines

`irq_register` and `irq_dispatcher` of `arch/x86/irq.c` over the masks of the
two controllers in `pic.c`.  The table has `IRQ_MAX` entries, but the number
`IRQ_MAX` passes the tests of both functions.
-/

/-- `IRQ_MAX` -/
def IRQ_MAX : Nat := 24

/-- `_irq_table` and `_irq_mask`, which the controllers get when it changes. -/
structure IrqTable (Handler : Type) where
  handlers : Nat → Option Handler
  mask1 : BitVec 8
  mask2 : BitVec 8

namespace IrqTable

variable {Handler : Type}

/-- `pic_enable_irq` -/
def picEnableIrq (table : IrqTable Handler) (num : Nat) : IrqTable Handler :=
  if num < 8 then
    { table with mask1 := table.mask1 &&& ~~~(1#8 <<< num) }
  else
    { table with mask2 := table.mask2 &&& ~~~(1#8 <<< (num % 8)) }

/-- The tables behind `pic_init`, which leaves the line of the second one open. -/
def boot (Handler : Type) : IrqTable Handler :=
  picEnableIrq
    { handlers := fun _ => none, mask1 := 0xFF, mask2 := 0xFF } 2

/-- `irq_register`; `none` where it looks behind the table. -/
def irqRegister (table : IrqTable Handler) (irq : Int) (handler : Handler) :
    Option (Int × IrqTable Handler) :=
  if (IRQ_MAX : Int) < irq ∨ irq < 0 then
    some (-1, table)
  else if irq.toNat = IRQ_MAX then
    none
  else if (table.handlers irq.toNat).isSome then
    some (-1, table)
  else
    let registered :=
      { table with
        handlers := fun other =>
          if other = irq.toNat then some handler else table.handlers other }
    some (0, registered.picEnableIrq irq.toNat)

/-- The handler that `irq_dispatcher` calls for the vector `IRQ_FIRST + irq`. -/
def irqDispatcher (table : IrqTable Handler) (irq : Nat) :
    Option (Option Handler) :=
  if IRQ_MAX < irq then
    some none
  else if irq = IRQ_MAX then
    none
  else
    some (table.handlers irq)

/-- The line of the controllers is masked; the second one has lines 8 to 15. -/
def masked (table : IrqTable Handler) (line : Nat) : Bool :=
  if line < 8 then table.mask1.getLsbD line
  else table.mask2.getLsbD (line - 8)

end IrqTable

/-- The calls, with what they return or call. -/
inductive IrqCall (Handler : Type) where
  | register (irq : Int) (handler : Handler) (result : Int)
  | dispatch (irq : Nat) (called : Option Handler)

/-- The calls that do not look behind the table. -/
inductive IrqStep {Handler : Type} :
    IrqTable Handler → IrqCall Handler → IrqTable Handler → Prop where
  | register {table after : IrqTable Handler} {irq result : Int}
      {handler : Handler}
      (ended : table.irqRegister irq handler = some (result, after)) :
      IrqStep table (.register irq handler result) after
  | dispatch {table : IrqTable Handler} {irq : Nat} {called : Option Handler}
      (ended : table.irqDispatcher irq = some called) :
      IrqStep table (.dispatch irq called) table

/-- The line that `pic_enable_irq` opens for a number. -/
def lineOf (irq : Nat) : Nat := if irq < 8 then irq else 8 + irq % 8

/--
The handlers are those of the calls that returned 0, only these are called, and
the lines that are open are theirs and that of the second controller.
-/
structure IrqSound {Handler : Type} (calls : List (IrqCall Handler))
    (table : IrqTable Handler) : Prop where
  registered : ∀ irq handler,
    table.handlers irq = some handler ↔
      irq < IRQ_MAX ∧ .register irq handler 0 ∈ calls
  called : ∀ irq handler, .dispatch irq (some handler) ∈ calls →
    table.handlers irq = some handler
  open_iff : ∀ line, line < 16 →
    (table.masked line = false ↔
      line = 2 ∨ ∃ irq handler,
        table.handlers irq = some handler ∧ lineOf irq = line)

section Irq

variable {Handler : Type} {table after : IrqTable Handler}
  {calls : List (IrqCall Handler)}

theorem getLsbD_clear {mask : BitVec 8} {num line : Nat} (inside : num < 8) :
    (mask &&& ~~~(1#8 <<< num)).getLsbD line =
      (mask.getLsbD line && decide (line ≠ num)) := by
  have oneBit : 1#8 <<< num = BitVec.twoPow 8 num := rfl
  rw [oneBit]
  by_cases small : line < 8
  · rw [BitVec.getLsbD_and, BitVec.getLsbD_not, BitVec.getLsbD_twoPow]
    simp [small, inside, eq_comm]
  · have outside := Nat.le_of_not_lt small
    rw [BitVec.getLsbD_of_ge _ _ outside, BitVec.getLsbD_of_ge _ _ outside]
    rfl

theorem masked_picEnableIrq (num : Nat) {line : Nat} :
    (table.picEnableIrq num).masked line = false ↔
      table.masked line = false ∨ line = lineOf num := by
  unfold IrqTable.picEnableIrq IrqTable.masked lineOf
  by_cases isFirst : num < 8
  · rw [if_pos isFirst, if_pos isFirst]
    split
    · rw [getLsbD_clear isFirst]
      simp only [Bool.and_eq_false_iff, decide_eq_false_iff_not, not_not]
    · exact (or_iff_left (by omega)).symm
  · rw [if_neg isFirst, if_neg isFirst]
    split
    · exact (or_iff_left (by omega)).symm
    next isSecond =>
      rw [getLsbD_clear (Nat.mod_lt _ (by decide))]
      simp only [Bool.and_eq_false_iff, decide_eq_false_iff_not, not_not]
      exact or_congr_right (by omega)

@[simp] theorem handlers_picEnableIrq (num : Nat) :
    (table.picEnableIrq num).handlers = table.handlers := by
  unfold IrqTable.picEnableIrq
  split <;> rfl

theorem irqSound_boot : IrqSound [] (.boot Handler) := by
  refine ⟨fun irq handler => ?_, fun irq handler => nofun, fun line inside => ?_⟩
  · simp [IrqTable.boot]
  · simp only [IrqTable.boot, masked_picEnableIrq, handlers_picEnableIrq,
      reduceCtorEq, false_and, exists_false, or_false]
    refine or_iff_right fun isOpen => ?_
    have closed : ∀ line < 8, (0xFF : BitVec 8).getLsbD line = true := by
      decide
    unfold IrqTable.masked at isOpen
    split at isOpen
    next isFirst =>
      rw [closed line isFirst] at isOpen
      cases isOpen
    next isSecond =>
      rw [closed (line - 8) (by omega)] at isOpen
      cases isOpen

theorem IrqSound.registers (sound : IrqSound calls table) {num : Nat}
    (handler : Handler) (inTable : num < IRQ_MAX)
    (isNone : table.handlers num = none)
    (handlers : ∀ other,
      after.handlers other =
        if other = num then some handler else table.handlers other)
    (masked : ∀ line,
      after.masked line = false ↔
        table.masked line = false ∨ line = lineOf num) :
    IrqSound (calls ++ [.register num handler 0]) after := by
  have kept {irq : Nat} {other : Handler}
      (isHandler : table.handlers irq = some other) :
      after.handlers irq = some other := by
    rw [handlers, if_neg, isHandler]
    rintro rfl
    rw [isNone] at isHandler
    cases isHandler
  refine ⟨fun irq other => ?_, fun irq other isCall => ?_,
    fun line inside => ?_⟩
  · rw [handlers, List.mem_append, List.mem_singleton, and_or_left]
    split
    next same =>
      subst same
      rw [← sound.registered, isNone]
      simp [inTable, eq_comm]
    next differs =>
      rw [sound.registered]
      refine (or_iff_left fun both => differs ?_).symm
      have same := both.2
      injection same with same
      exact Int.ofNat_inj.mp same
  · exact kept (sound.called irq other (by simpa using isCall))
  · rw [masked, sound.open_iff line inside, or_assoc]
    refine or_congr_right ⟨?_, ?_⟩
    · rintro (⟨irq, other, isHandler, isLine⟩ | isLine)
      · exact ⟨irq, other, kept isHandler, isLine⟩
      · exact ⟨num, handler, by rw [handlers, if_pos rfl], isLine.symm⟩
    · rintro ⟨irq, other, isHandler, isLine⟩
      rw [handlers] at isHandler
      split at isHandler
      next same => exact .inr (same ▸ isLine.symm)
      next differs => exact .inl ⟨irq, other, isHandler, isLine⟩

theorem IrqSound.step (sound : IrqSound calls table) {call : IrqCall Handler}
    (step : IrqStep table call after) : IrqSound (calls ++ [call]) after := by
  cases step with
  | @register _ irq result handler ended =>
    have unchanged (failed : result ≠ 0) :
        IrqSound (calls ++ [.register irq handler result]) table :=
      ⟨fun other kept => by simp [sound.registered, Ne.symm failed],
        fun other kept isCall => sound.called other kept (by simpa using isCall),
        sound.open_iff⟩
    unfold IrqTable.irqRegister at ended
    split at ended
    · cases ended
      exact unchanged (by decide)
    next inRange =>
      obtain ⟨num, rfl⟩ : ∃ num : Nat, irq = num :=
        Int.eq_ofNat_of_zero_le (by omega)
      rw [Int.toNat_natCast] at ended
      split at ended
      · cases ended
      next notMax =>
        split at ended
        · cases ended
          exact unchanged (by decide)
        next notSome =>
          cases ended
          exact sound.registers handler (by omega) (by simpa using notSome)
            (fun other => by rw [handlers_picEnableIrq])
            fun line => masked_picEnableIrq num
  | @dispatch irq called ended =>
    refine ⟨fun other kept => by simp [sound.registered],
      fun other kept isCall => ?_, sound.open_iff⟩
    rcases List.mem_append.mp isCall with before | isLast
    · exact sound.called other kept before
    · obtain ⟨rfl, rfl⟩ :=
        IrqCall.dispatch.inj (List.mem_singleton.mp isLast)
      unfold IrqTable.irqDispatcher at ended
      split at ended
      · cases ended
      · split at ended
        · cases ended
        · exact Option.some.inj ended

end Irq

/--
In every run of calls from `pic_init` the table holds exactly the handlers whose
registration returned 0, no other is called, and the lines that are open are
exactly those of the numbers registered and line 2.
-/
theorem irqSound_of_run {Handler : Type} {calls : List (IrqCall Handler)}
    {table : IrqTable Handler} (run : Run IrqStep (.boot Handler) calls table) :
    IrqSound calls table :=
  run.invariant IrqSound irqSound_boot fun sound step => sound.step step

/-- Number 17 opens line 9, for which there is no handler then. -/
theorem aliasedLine_irqSound :
    ∃ table : IrqTable Nat,
      IrqSound [.register 17 7 0, .dispatch 9 none] table ∧
        table.masked 9 = false := by
  have runs : ∃ table,
      Run IrqStep (.boot Nat) [.register 17 7 0, .dispatch 9 none] table ∧
        table.masked 9 = false :=
    ⟨_, .cons (.register rfl) (.single (.dispatch rfl)), by decide⟩
  obtain ⟨table, run, isOpen⟩ := runs
  exact ⟨table, irqSound_of_run run, isOpen⟩

end Idylla.Kernel
