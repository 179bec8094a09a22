import Mathlib.Algebra.Group.Int.Defs
import Mathlib.Algebra.Group.Nat.Defs

namespace Idylla.Storage

/-!
# Transfers of the ATA driver

`pata_do_rw` with a device that completes every command.  Blocks of 512 bytes
are counted from `buf`; a buffer of `len` of them is in the address space, so
that `len` is small.
-/

/-- Sectors one behind the other. -/
def sectorsFrom (sector : Int) (count : Nat) : List Int :=
  (List.range count).map fun (i : Nat) => sector + i

/-- Sectors, each with a block, one behind the other. -/
def blocksFrom (sector : Int) (block count : Nat) : List (Int × Nat) :=
  (List.range count).map fun (i : Nat) => (sector + i, block + i)

/-- The `ATA_CMD_` codes of transfers. -/
inductive AtaCmd where
  | readPio
  | readPioExt
  | readDma
  | readDmaExt
  | writePio
  | writePioExt
  | writeDma
  | writeDmaExt
  deriving DecidableEq

/-- The command takes a sector number of 48 bits. -/
def AtaCmd.extended : AtaCmd → Bool
  | .readPioExt | .readDmaExt | .writePioExt | .writeDmaExt => true
  | _ => false

/-- The command writes to the device. -/
def AtaCmd.writes : AtaCmd → Bool
  | .writePio | .writePioExt | .writeDma | .writeDmaExt => true
  | _ => false

/-- A command with the registers at that time, three bytes of a kind as one. -/
structure AtaIssued where
  cmd : AtaCmd
  low : Int
  high : Int
  seccount : Nat

/-- The sector at which the device starts. -/
def AtaIssued.first (issued : AtaIssued) : Int :=
  if issued.cmd.extended then issued.high * 2 ^ 24 + issued.low else issued.low

/-- The sectors that the device transfers, in that order. -/
def AtaIssued.sectors (issued : AtaIssued) : List Int :=
  sectorsFrom issued.first issued.seccount

/-- `lba_setup` and the choice of `cmd`. -/
def lbaSetup (write dma : Bool) (lba : Int) (seccount : Nat) : AtaIssued :=
  if 0x1000000 ≤ lba then
    { cmd :=
        if write then if dma then .writeDmaExt else .writePioExt
        else if dma then .readDmaExt else .readPioExt
      low := lba % 2 ^ 24
      high := lba / 2 ^ 24 % 2 ^ 24
      seccount := seccount }
  else
    { cmd :=
        if write then if dma then .writeDma else .writePio
        else if dma then .readDma else .readPio
      low := lba % 2 ^ 24
      high := 0
      seccount := seccount }

/--
The variables of `pata_do_rw`, the commands that it has issued, and the sectors
that have been moved, each to or from which block.
-/
structure PataLoop where
  len : Nat
  off : Int
  buf : Nat := 0
  done : Nat := 0
  issued : List AtaIssued := []
  moves : List (Int × Nat) := []

/-- The loop over the blocks of a command without DMA. -/
def pioLoop (first : Int) : Nat → Nat → PataLoop → PataLoop
  | 0, _, loop => loop
  | left + 1, i, loop =>
    pioLoop first left (i + 1)
      { loop with
        moves := loop.moves ++ [(first + i, loop.buf)]
        buf := loop.buf + 1
        done := loop.done + 1 }

/-- One turn of the loop. -/
def pataTurn (write dma : Bool) (loop : PataLoop) : PataLoop :=
  let doSects := min loop.len 128
  let issued := lbaSetup write dma loop.off doSects
  let started :=
    { loop with
      len := loop.len - doSects, issued := loop.issued ++ [issued] }
  let moved :=
    if dma then
      { started with
        moves := started.moves ++ blocksFrom issued.first started.buf doSects
        done := started.done + doSects }
    else
      pioLoop issued.first doSects 0 started
  { moved with off := moved.off + moved.done }

theorem blocksFrom_succ (sector : Int) (block count : Nat) :
    blocksFrom sector block (count + 1) =
      (sector, block) :: blocksFrom (sector + 1) (block + 1) count := by
  unfold blocksFrom
  rw [List.range_succ_eq_map]
  simp [Int.add_assoc, Nat.add_assoc, Int.add_comm 1, Nat.add_comm 1]

theorem pioLoop_eq (first : Int) (left i : Nat) (loop : PataLoop) :
    pioLoop first left i loop =
      { loop with
        moves := loop.moves ++ blocksFrom (first + i) loop.buf left
        buf := loop.buf + left
        done := loop.done + left } := by
  induction left generalizing i loop with
  | zero =>
    simp [pioLoop, blocksFrom]
  | succ left ih =>
    rw [pioLoop, ih, blocksFrom_succ]
    simp [Nat.add_right_comm, Nat.add_assoc, Int.add_assoc]

theorem pataTurn_eq (write dma : Bool) (loop : PataLoop) :
    pataTurn write dma loop = let doSects := min loop.len 128
      let issued := lbaSetup write dma loop.off doSects
      { len := loop.len - doSects
        off := loop.off + (loop.done + doSects : Nat)
        buf := if dma then loop.buf else loop.buf + doSects
        done := loop.done + doSects
        issued := loop.issued ++ [issued]
        moves := loop.moves ++ blocksFrom issued.first loop.buf doSects } := by
  cases dma
  · simp [pataTurn, pioLoop_eq]
  · simp [pataTurn]

/-- The loop of `pata_do_rw`. -/
def pataLoop (write dma : Bool) (loop : PataLoop) : PataLoop :=
  if 0 < loop.len then pataLoop write dma (pataTurn write dma loop) else loop
termination_by loop.len
decreasing_by
  rw [pataTurn_eq]
  dsimp only
  omega

/-- The arguments of `pata_do_rw`, and the mode of the device. -/
structure PataCall where
  write : Bool
  dma : Bool
  len : Nat
  off : Int

namespace PataCall

variable (call : PataCall)

/-- The variables in front of the loop. -/
def start : PataLoop := { len := call.len, off := call.off }

/-- `pata_do_rw` -/
def pata_do_rw : PataLoop := pataLoop call.write call.dma call.start

/-- The transfer hits the right sectors. -/
structure Hits : Prop where
  covers : call.pata_do_rw.issued.flatMap AtaIssued.sectors =
    sectorsFrom call.off call.len
  moves : call.pata_do_rw.moves = blocksFrom call.off 0 call.len
  direction : ∀ issued ∈ call.pata_do_rw.issued, issued.cmd.writes = call.write
  returns : call.pata_do_rw.done = call.len

/--
There are sector numbers of 48 bits, and one command is enough, or two where
they go without DMA.
-/
def Suits : Prop :=
  call.len = 0 ∨ 0 ≤ call.off ∧
    (call.len ≤ 128 ∧ call.off < 2 ^ 48 ∨
      call.dma = false ∧ call.len ≤ 256 ∧ call.off + 128 < 2 ^ 48)

end PataCall

variable {write dma : Bool} {lba : Int} {seccount : Nat} {loop : PataLoop}

theorem first_eq :
    (lbaSetup write dma lba seccount).first =
      if 0x1000000 ≤ lba then lba % 2 ^ 48 else lba % 2 ^ 24 := by
  unfold AtaIssued.first lbaSetup
  cases write <;> cases dma <;> split <;> simp [AtaCmd.extended] <;> omega

theorem first_eq_iff :
    (lbaSetup write dma lba seccount).first = lba ↔ 0 ≤ lba ∧ lba < 2 ^ 48 := by
  rw [first_eq]
  split <;> omega

theorem lbaSetup_writes :
    (lbaSetup write dma lba seccount).cmd.writes = write := by
  unfold lbaSetup
  cases write <;> cases dma <;> split <;> rfl

theorem lbaSetup_seccount :
    (lbaSetup write dma lba seccount).seccount = seccount := by
  unfold lbaSetup
  split <;> rfl

theorem pataLoop_more (isMore : 0 < loop.len) :
    pataLoop write dma loop = pataLoop write dma (pataTurn write dma loop) := by
  rw [pataLoop, if_pos isMore]

theorem pataLoop_done (isDone : loop.len = 0) :
    pataLoop write dma loop = loop := by
  rw [pataLoop, if_neg (by omega)]

theorem moves_prefix (write dma : Bool) (loop : PataLoop) :
    ∃ later, (pataLoop write dma loop).moves = loop.moves ++ later := by
  fun_induction pataLoop write dma loop with
  | case1 loop isMore ih =>
    obtain ⟨later, isLater⟩ := ih
    rw [isLater, pataTurn_eq]
    exact ⟨_, List.append_assoc _ _ _⟩
  | case2 loop =>
    exact ⟨[], (List.append_nil _).symm⟩

theorem next_move (isMore : 0 < loop.len) :
    (pataLoop write dma loop).moves[loop.moves.length]? =
      some ((lbaSetup write dma loop.off (min loop.len 128)).first, loop.buf) := by
  obtain ⟨later, isLater⟩ := moves_prefix write dma (pataTurn write dma loop)
  obtain ⟨more, isCount⟩ : ∃ more, min loop.len 128 = more + 1 :=
    ⟨min loop.len 128 - 1, by omega⟩
  rw [pataLoop_more isMore, isLater, pataTurn_eq]
  rw [List.append_assoc, List.getElem?_append_right (Nat.le_refl _),
    Nat.sub_self, isCount, blocksFrom_succ]
  simp

@[simp] theorem length_blocksFrom (sector : Int) (block count : Nat) :
    (blocksFrom sector block count).length = count := by
  simp [blocksFrom]

theorem blocksFrom_add (sector : Int) (block first second : Nat) :
    blocksFrom sector block (first + second) =
      blocksFrom sector block first ++
        blocksFrom (sector + first) (block + first) second := by
  simp [blocksFrom, List.range_add, Int.add_assoc, Nat.add_assoc]

theorem sectorsFrom_add (sector : Int) (first second : Nat) :
    sectorsFrom sector (first + second) =
      sectorsFrom sector first ++ sectorsFrom (sector + first) second := by
  simp [sectorsFrom, List.range_add, Int.add_assoc]

namespace PataCall

variable {call : PataCall}

theorem Hits.next (hits : call.Hits)
    (goesOn : call.pata_do_rw = pataLoop call.write call.dma loop)
    (isMore : 0 < loop.len) (below : loop.moves.length < call.len) :
    (lbaSetup call.write call.dma loop.off (min loop.len 128)).first =
        call.off + loop.moves.length ∧
      loop.buf = loop.moves.length := by
  have moved := @next_move call.write call.dma loop isMore
  have wanted : call.pata_do_rw.moves[loop.moves.length]? =
        some (call.off + (loop.moves.length : Int), loop.moves.length) := by
    rw [hits.moves]
    simp [blocksFrom, List.getElem?_range below]
  rw [← goesOn, wanted] at moved
  simp only [Option.some.injEq, Prod.mk.injEq] at moved
  exact ⟨moved.1.symm, moved.2.symm⟩

variable (call)

/-- The variables behind one turn. -/
def one : PataLoop := pataTurn call.write call.dma call.start

/-- The variables behind two turns. -/
def two : PataLoop := pataTurn call.write call.dma call.one

theorem goesOn_one (isMore : 0 < call.len) :
    call.pata_do_rw = pataLoop call.write call.dma call.one :=
  pataLoop_more isMore

theorem one_eq :
    call.one =
      { len := call.len - min call.len 128
        off := call.off + (min call.len 128 : Nat)
        buf := if call.dma then 0 else min call.len 128
        done := min call.len 128
        issued := [lbaSetup call.write call.dma call.off (min call.len 128)]
        moves := blocksFrom
          (lbaSetup call.write call.dma call.off (min call.len 128)).first 0
          (min call.len 128) } := by
  rw [one, pataTurn_eq]
  simp [start]

theorem two_eq (isMore : 128 < call.len) (noDma : call.dma = false) :
    call.two = let rest := min (call.len - 128) 128
      let first := lbaSetup call.write false call.off 128
      let second := lbaSetup call.write false (call.off + 128) rest
      { len := call.len - 128 - rest
        off := call.off + 128 + (128 + rest : Nat)
        buf := 128 + rest
        done := 128 + rest
        issued := [first, second]
        moves := blocksFrom first.first 0 128 ++
          blocksFrom second.first 128 rest } := by
  rw [two, one_eq, pataTurn_eq, show min call.len 128 = 128 by omega, noDma]
  rfl

theorem goesOn_two (isMore : 128 < call.len) :
    call.pata_do_rw = pataLoop call.write call.dma call.two := by
  rw [goesOn_one call (by omega)]
  exact pataLoop_more (by rw [one_eq]; dsimp only; omega)

theorem hits_of_empty (isEmpty : call.len = 0) : call.Hits := by
  have same : call.pata_do_rw = call.start := pataLoop_done isEmpty
  constructor <;> rw [same] <;> simp [start, isEmpty, sectorsFrom, blocksFrom]

theorem hits_of_one (isMore : 0 < call.len) (isOne : call.len ≤ 128)
    (lower : 0 ≤ call.off) (upper : call.off < 2 ^ 48) : call.Hits := by
  have isFirst :=
    (@first_eq_iff call.write call.dma call.off call.len).mpr ⟨lower, upper⟩
  have isCount : min call.len 128 = call.len := by omega
  have isOver := one_eq call
  rw [isCount, isFirst] at isOver
  have same : call.pata_do_rw = call.one := by
    rw [goesOn_one call isMore]
    exact pataLoop_done (by rw [isOver]; exact Nat.sub_self _)
  constructor <;> rw [same, isOver]
  · simp [AtaIssued.sectors, isFirst, lbaSetup_seccount]
  · simp [lbaSetup_writes]

theorem hits_of_two (noDma : call.dma = false) (isMore : 128 < call.len)
    (isTwo : call.len ≤ 256) (lower : 0 ≤ call.off)
    (upper : call.off + 128 < 2 ^ 48) : call.Hits := by
  obtain ⟨rest, isLen⟩ : ∃ rest, call.len = 128 + rest :=
    ⟨call.len - 128, by omega⟩
  have isFirst :=
    (@first_eq_iff call.write false call.off 128).mpr ⟨lower, by omega⟩
  have isSecond :=
    (@first_eq_iff call.write false (call.off + 128) rest).mpr ⟨by omega, upper⟩
  have isOver := two_eq call isMore noDma
  rw [show min (call.len - 128) 128 = rest by omega] at isOver
  dsimp only at isOver
  rw [isFirst, isSecond] at isOver
  have same : call.pata_do_rw = call.two := by
    rw [goesOn_two call isMore]
    exact pataLoop_done (by rw [isOver]; dsimp only; omega)
  constructor <;> rw [same, isOver, isLen]
  · simp [AtaIssued.sectors, isFirst, isSecond, lbaSetup_seccount,
      sectorsFrom_add]
  · exact (blocksFrom_add _ 0 128 rest).symm
  · simp [lbaSetup_writes]

/--
A transfer hits the right sectors exactly where the loop makes one turn, or two
turns without DMA.
-/
theorem hits_iff : call.Hits ↔ call.Suits := by
  constructor
  · intro hits
    by_cases isEmpty : call.len = 0
    · exact .inl isEmpty
    have someLeft : 0 < call.len := by omega
    have first := @Hits.next call.start call hits rfl someLeft someLeft
    obtain ⟨lower, upper⟩ := first_eq_iff.mp (first.1.trans (Int.add_zero _))
    refine .inr ⟨lower, ?_⟩
    by_cases isOne : call.len ≤ 128
    · exact .inl ⟨isOne, upper⟩
    have second := hits.next (goesOn_one call someLeft)
    rw [one_eq, show min call.len 128 = 128 by omega] at second
    simp only [length_blocksFrom] at second
    obtain ⟨isSecond, isBlock⟩ := second (by omega) (by omega)
    have noDma : call.dma = false := by
      cases isDma : call.dma with
      | false =>
        rfl
      | true =>
        rw [isDma, if_pos rfl] at isBlock
        cases isBlock
    refine .inr ⟨noDma, ?_, (first_eq_iff.mp isSecond).2⟩
    by_cases isTwo : call.len ≤ 256
    · exact isTwo
    -- The third command starts 128 sectors too far behind.
    have third := hits.next (goesOn_two call (by omega))
    rw [two_eq call (by omega) noDma,
      show min (call.len - 128) 128 = 128 by omega] at third
    simp only [List.length_append, length_blocksFrom, first_eq] at third
    have isThird := (third (by omega) (by omega)).1
    split at isThird <;> omega
  · intro suits
    by_cases isEmpty : call.len = 0
    · exact hits_of_empty call isEmpty
    obtain ⟨lower, fitting⟩ := suits.resolve_left isEmpty
    rcases fitting with ⟨isOne, upper⟩ | ⟨noDma, isTwo, upper⟩
    · exact hits_of_one call (by omega) isOne lower upper
    · by_cases isOne : call.len ≤ 128
      · exact hits_of_one call (by omega) isOne lower (by omega)
      · exact hits_of_two call noDma (by omega) isTwo lower upper

/-- A transfer of 256 sectors by DMA. -/
def longDma : PataCall where
  write := false
  dma := true
  len := 256
  off := 0

/-- The second command of a DMA transfer reads into the blocks of the first. -/
theorem longDma_misses : ¬ longDma.Hits := by
  intro hits
  have second := hits.next (goesOn_one longDma (by decide))
  rw [one_eq] at second
  have isBlock := (second (by decide) (by simp [longDma])).2
  simp [longDma] at isBlock

end PataCall

end Idylla.Storage
