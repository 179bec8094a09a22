import Mathlib.Algebra.Group.Nat.Defs

namespace Idylla.Kernel

/-!
# The virtual console

`vc_putch` with the parser of its escape sequences, over the driver of
`arch/x86/vga.c`.  What the driver draws is kept as the list of the calls.
-/

/-- `VC_MAX_SAVES` -/
def VC_MAX_SAVES : Nat := 8

/-- `VC_MAX_ARGS` -/
def VC_MAX_ARGS : Nat := 4

/-- `struct vc_csr` -/
structure VcCsr where
  col : BitVec 32
  row : BitVec 32
  deriving DecidableEq

/-- `struct vc`, without what only the driver uses. -/
structure Vc where
  width : BitVec 32
  height : BitVec 32
  csr : VcCsr
  isActive : Bool
  savesCount : Nat
  saves : Nat → VcCsr
  esc : BitVec 8
  argc : Nat
  argv : Nat → BitVec 32

/-- The calls of `vc->ops`, with the cursor that they read. -/
inductive VcCall where
  | setattr (attr : BitVec 32)
  | putc (csr : VcCsr) (c : BitVec 8)
  | scrollup (n : Nat)
  | clearline (csr : VcCsr) (mode : BitVec 32)
  | clearscreen (csr : VcCsr) (mode : BitVec 32)
  | movecsr (csr : VcCsr)
  deriving DecidableEq

/-- A console after a byte, the calls made for it, and what is returned. -/
structure VcEnds where
  vc : Vc
  calls : List VcCall := []
  err : Int := 0

/-- The byte of a character. -/
def code (char : Char) : BitVec 8 := BitVec.ofNat 8 char.toNat

/-- `isdigit` -/
def isdigit (c : BitVec 8) : Prop :=
  (code '0').toInt ≤ c.toInt ∧ c.toInt ≤ (code '9').toInt

instance (c : BitVec 8) : Decidable (isdigit c) :=
  inferInstanceAs (Decidable (_ ∧ _))

namespace Vc

variable (vc : Vc)

def moveTo (col row : BitVec 32) : Vc :=
  { vc with csr := ⟨col, row⟩ }

def setArg (i : Nat) (value : BitVec 32) : Vc :=
  { vc with
    argv := fun other => if other = i then value else vc.argv other }

/-- `if (!vc->argv[0]) vc->argv[0]++;` -/
def atLeastOne : Vc :=
  if vc.argv 0 = 0 then vc.setArg 0 1 else vc

/-- `if (vc->argv[i]) vc->argv[i]--;` -/
def fromZero (i : Nat) : Vc :=
  if vc.argv i = 0 then vc else vc.setArg i (vc.argv i - 1)

/-- A byte outside of sequences; `vga_putc` returns 1. -/
def ground (c : BitVec 8) : VcEnds :=
  if c = 0x1b then
    { vc := { vc with argc := 0, argv := fun _ => 0, esc := 1 } }
  else if c = 0x07 then
    { vc := vc }
  else if c = code '\t' then
    { vc := vc.moveTo ((vc.csr.col + 8) &&& ~~~7) vc.csr.row }
  else if c = 0x08 then
    { vc :=
        if 0 < vc.csr.col then vc.moveTo (vc.csr.col - 1) vc.csr.row
        else vc }
  else if c = code '\r' then
    { vc := vc.moveTo 0 vc.csr.row }
  else if c = code '\n' ∨ c = 0x0c then
    { vc := vc.moveTo 0 (vc.csr.row + 1) }
  else if (code ' ').toInt ≤ c.toInt then
    { vc := vc.moveTo (vc.csr.col + 1) vc.csr.row
      calls := [.putc vc.csr c]
      err := 1 }
  else
    { vc := vc }

/-- The cursor after a motion that counts from the arguments. -/
def motion (c : BitVec 8) : Vc :=
  if c = code 'A' then
    -- The comparison is one of unsigned numbers.
    if 0 ≤ vc.csr.row - vc.argv 0 then
      vc.moveTo vc.csr.col (vc.csr.row - vc.argv 0)
    else
      vc
  else if c = code 'B' then
    if vc.csr.row + vc.argv 0 < vc.height then
      vc.moveTo vc.csr.col (vc.csr.row + vc.argv 0)
    else
      vc
  else if c = code 'C' then
    if vc.csr.col + vc.argv 0 < vc.width then
      vc.moveTo (vc.csr.col + vc.argv 0) vc.csr.row
    else
      vc
  else if c = code 'D' then
    if 0 ≤ vc.csr.col - vc.argv 0 then
      vc.moveTo (vc.csr.col - vc.argv 0) vc.csr.row
    else
      vc
  else if c = code 'E' then
    if vc.csr.row + vc.argv 0 < vc.height then
      vc.moveTo 0 (vc.csr.row + vc.argv 0)
    else
      vc.moveTo 0 vc.csr.row
  else
    if 0 < vc.csr.row - vc.argv 0 then
      vc.moveTo 0 (vc.csr.row - vc.argv 0)
    else
      vc.moveTo 0 vc.csr.row

/-- The bytes `A` to `F`. -/
def IsMotion (c : BitVec 8) : Prop :=
  c ∈ [code 'A', code 'B', code 'C', code 'D', code 'E', code 'F']

instance (c : BitVec 8) : Decidable (IsMotion c) :=
  inferInstanceAs (Decidable (_ ∈ _))

/-- `ESC[x` up to the end of the switch. -/
def control (c : BitVec 8) : VcEnds :=
  if IsMotion c then
    { vc := vc.atLeastOne.motion c }
  else if c = code 'G' then
    let vc := vc.fromZero 0
    { vc :=
        if vc.argv 0 < vc.width then vc.moveTo (vc.argv 0) vc.csr.row
        else vc }
  else if c = code 'H' ∨ c = code 'f' then
    let vc := (vc.fromZero 0).fromZero 1
    { vc := vc.moveTo (vc.argv 1) (vc.argv 0) }
  else if c = code 's' then
    { vc :=
        if vc.savesCount < VC_MAX_SAVES - 1 then
          { vc with
            savesCount := vc.savesCount + 1
            saves := fun other =>
              if other = vc.savesCount then vc.csr else vc.saves other }
        else
          vc }
  else if c = code 'u' then
    { vc :=
        if 0 < vc.savesCount then
          { vc with
            savesCount := vc.savesCount - 1
            csr := vc.saves (vc.savesCount - 1) }
        else
          vc }
  else if c = code 'K' then
    { vc := if vc.argv 0 = 2 then vc.moveTo 0 vc.csr.row else vc
      calls := [.clearline vc.csr (vc.argv 0)] }
  else if c = code 'J' then
    { vc := if vc.argv 0 = 2 then vc.moveTo 0 0 else vc
      calls := [.clearscreen vc.csr (vc.argv 0)] }
  else if c = code 'm' then
    { vc := vc
      calls := if vc.argc = 0 then [.setattr 0]
        else (List.range vc.argc).map fun i => .setattr (vc.argv i) }
  else
    { vc := vc }

/-- `ESC[x` with the end of the sequence. -/
def final (c : BitVec 8) : VcEnds :=
  let ends := vc.control c
  { ends with vc := { ends.vc with esc := 0 } }

/-- `ESC[`, from where other bytes fall through. -/
def arguments (c : BitVec 8) : VcEnds :=
  if c = code ';' ∧ vc.argc < VC_MAX_ARGS - 1 then
    { vc := { vc with argc := vc.argc + 1 } }
  else if isdigit c then
    let argc := if vc.argc = 0 then 1 else vc.argc
    { vc :=
        { vc.setArg (argc - 1)
            (10 * vc.argv (argc - 1) + (c - code '0').setWidth 32) with
          argc := argc } }
  else
    vc.final c

/-- The switch over the state of the parser. -/
def parse (c : BitVec 8) : VcEnds :=
  if vc.esc = 0 then
    vc.ground c
  else if vc.esc = 1 then
    { vc := { vc with esc := if c = code '[' then 2 else 0 } }
  else if vc.esc = 2 then
    vc.arguments c
  else if vc.esc = 3 then
    vc.final c
  else
    { vc := vc }

/-- The end of a line that is full. -/
def wrap : Vc :=
  if vc.width ≤ vc.csr.col then vc.moveTo 0 (vc.csr.row + 1) else vc

/-- The end of a screen that is full. -/
def scroll : Vc :=
  if vc.height ≤ vc.csr.row then vc.moveTo vc.csr.col (vc.csr.row - 1)
  else vc

end Vc

/-- `vc_putch` -/
def vcPutch (c : BitVec 8) (vc : Vc) : VcEnds :=
  let ends := vc.parse c
  let wrapped := ends.vc.wrap
  { vc := wrapped.scroll
    calls :=
      ends.calls ++
        (if wrapped.height ≤ wrapped.csr.row then [.scrollup 1] else []) ++
        (if vc.isActive then [.movecsr wrapped.scroll.csr] else [])
    err := ends.err }

namespace Vc

variable (vc : Vc)

/-- The console after bytes. -/
def feed (bytes : List (BitVec 8)) : Vc :=
  bytes.foldl (fun vc c => (vcPutch c vc).vc) vc

@[simp] theorem feed_nil : vc.feed [] = vc := rfl

@[simp] theorem feed_cons (c : BitVec 8) (rest : List (BitVec 8)) :
    vc.feed (c :: rest) = (vcPutch c vc).vc.feed rest := rfl

theorem feed_append (before after : List (BitVec 8)) :
    vc.feed (before ++ after) = (vc.feed before).feed after :=
  List.foldl_append

end Vc

/-- `__vc_boot` behind `vga_init`. -/
def vcBoot : Vc where
  width := 80
  height := 25
  csr := ⟨0, 0⟩
  isActive := true
  savesCount := 0
  saves := fun _ => ⟨0, 0⟩
  esc := 0
  argc := 0
  argv := fun _ => 0

end Idylla.Kernel
