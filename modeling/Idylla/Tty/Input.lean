import Idylla.Kernel.Wait
import Idylla.Tty.Queue

namespace Idylla.Tty

open Idylla.Lib Idylla.Kernel

/-!
# Terminal input

`tty_input`, which works on the characters of `input_q` one by one, beside any
number of threads in `tty_read`.  The operations on `sec_q`, its tests for
emptiness, `wait_wakeup` and `wait_sleep` are steps of their own.  What is
echoed is left out.
-/

/-- `TTY_BUF_LEN` -/
def TTY_BUF_LEN : BitVec 32 := 256

/-- The flags and control characters of `struct termios` that are tested. -/
structure Termios where
  icrnl : Bool
  igncr : Bool
  ignbrk : Bool
  icanon : Bool
  isig : Bool
  echo : Bool
  echoe : Bool
  vstop : BitVec 8
  vstart : BitVec 8
  verase : BitVec 8
  vintr : BitVec 8
  vquit : BitVec 8
  veof : BitVec 8

/-- `'\n'` -/
def newline : BitVec 8 := 10

/-- `'\b'` -/
def backspace : BitVec 8 := 8

/-- The settings of `tty_create`; `ONLCR` has the bit of `IGNBRK`. -/
def createdTermios : Termios where
  icrnl := true
  igncr := false
  ignbrk := true
  icanon := true
  isig := true
  echo := true
  echoe := true
  vstop := 0x1a
  vstart := 0x13
  verase := 0o177
  vintr := 0x03
  vquit := 0x1c
  veof := 0x04

/-- A `char` is a control character: it is signed, and a `cc_t` is not. -/
def IsControl (char control : BitVec 8) : Prop :=
  char.toInt = control.toNat

instance (char control : BitVec 8) : Decidable (IsControl char control) :=
  inferInstanceAs (Decidable (_ = _))

/-- What happens to `sec_q` for a character. -/
inductive QueueEdit where
  | erase
  | store (data : BitVec 8)

/-- `tty_input` on a character: a wakeup, then an edit. -/
structure InputAction where
  wakes : Bool
  edit : Option QueueEdit

namespace Termios

variable (termios : Termios)

/-- A carriage return under `ICRNL` and `IGNCR`; nothing where it is dropped. -/
def translate (char : BitVec 8) : Option (BitVec 8) :=
  if char = 13 then
    if termios.icrnl then some newline
    else if termios.igncr then none
    else some char
  else
    some char

/-- The branches of `tty_input` behind that. -/
def action (char : BitVec 8) : InputAction :=
  if termios.icanon = true ∧
      (IsControl char termios.vstop ∨ IsControl char termios.vstart ∨
        IsControl char termios.verase) then
    { wakes := false, edit := none }
  else
    let wakes :=
      !termios.icanon || char == newline || IsControl char termios.veof
    if (termios.isig = false ∨ termios.ignbrk = true) ∧
        (IsControl char termios.vintr ∨ IsControl char termios.vquit) then
      { wakes := wakes, edit := none }
    else if termios.echo = true ∧ char = backspace ∧ termios.echoe = true then
      { wakes := wakes, edit := some .erase }
    else
      { wakes := wakes, edit := some (.store char) }

end Termios

/-- Where `tty_input` stands in the work on a character. -/
inductive InputPhase where
  | idle
  | waking (edit : Option QueueEdit)
  | editing (edit : QueueEdit)
  | unqueuing

/-- The phase in which an edit is due. -/
def InputPhase.of : Option QueueEdit → InputPhase
  | none => .idle
  | some edit => .editing edit

/-- Where a thread stands in the loop of `tty_read`. -/
inductive ReadPhase where
  | testing
  | sleeping
  | taking
  deriving DecidableEq

/-- The locals of `tty_read`, with the characters that have been counted. -/
structure TtyRead where
  len : Nat
  received : List (BitVec 8)
  phase : ReadPhase

/--
A terminal under its threads.  `typed` logs the characters that `tty_input` has
taken up, `taken` those that `tty_read` calls have taken out, `lastTaker` who
did last, and `returned` what the calls have returned.
-/
structure TtySystem where
  secQ : TtyQueue
  wait : List Nat
  input : InputPhase
  reads : Nat → Option TtyRead
  typed : List (BitVec 8)
  taken : List (BitVec 8)
  lastTaker : Option Nat
  returned : List (List (BitVec 8))

namespace TtySystem

variable (termios : Termios) (system : TtySystem)

/-- A new terminal. -/
def created (data : Nat → BitVec 8) : TtySystem where
  secQ := .empty TTY_BUF_LEN data
  wait := []
  input := .idle
  reads := fun _ => none
  typed := []
  taken := []
  lastTaker := none
  returned := []

/-- A thread's call replaced. -/
def setRead (thread : Nat) (read : Option TtyRead) : TtySystem :=
  { system with
    reads := fun other =>
      if other = thread then read else system.reads other }

/-- `tty_input` takes up the next character. -/
def fetch (char : BitVec 8) : TtySystem :=
  { system with
    typed := system.typed ++ [char]
    input := match termios.translate char with
      | none => .idle
      | some char =>
        let action := termios.action char
        if action.wakes then .waking action.edit else .of action.edit }

/-- The next step of `tty_input` on its character. -/
def continueInput : TtySystem :=
  match system.input with
  | .idle => system
  | .waking edit =>
    { system with
      wait := waitWakeup system.wait
      input := .of edit }
  | .editing .erase =>
    { system with
      input := if ttyEmptyq system.secQ then .idle else .unqueuing }
  | .unqueuing =>
    { system with
      secQ := (ttyUnq system.secQ).getD system.secQ
      input := .idle }
  | .editing (.store data) =>
    { system with
      secQ := (ttyInq system.secQ data).getD system.secQ
      input := .idle }

/-- A call returns. -/
def finishRead (thread : Nat) (received : List (BitVec 8)) : TtySystem :=
  { system.setRead thread none with
    returned := system.returned ++ [received] }

/-- What `tty_read` does with the character in its buffer. -/
def countChar (thread : Nat) (read : TtyRead) (char : BitVec 8) : TtySystem :=
  if termios.icanon = true ∧ IsControl char termios.veof then
    system.finishRead thread read.received
  else if termios.icanon = true ∧ char = newline then
    system.finishRead thread (read.received ++ [char])
  else
    system.setRead thread
      (some
        { read with
          received := read.received ++ [char]
          phase := .testing })

/--
The next step of a thread in `tty_read`; `stale` is what its buffer holds when
`tty_deq` fails.
-/
def continueRead (thread : Nat) (read : TtyRead)
    (stale : BitVec 8) : TtySystem :=
  match read.phase with
  | .testing =>
    if read.received.length < read.len then
      system.setRead thread
        (some
          { read with
            phase := if ttyEmptyq system.secQ then .sleeping else .taking })
    else
      system.finishRead thread read.received
  | .sleeping =>
    { system.setRead thread (some { read with phase := .taking }) with
      wait := waitSleep system.wait thread }
  | .taking =>
    let taken := (ttyDeq system.secQ).getD (stale, system.secQ)
    { system with
      secQ := taken.2
      taken := system.taken ++ [taken.1]
      lastTaker := some thread }.countChar termios thread read taken.1

end TtySystem

/-- The steps: a character is typed, the work on it or a call goes on. -/
inductive TtyLabel where
  | fetch (char : BitVec 8)
  | input
  | call (thread len : Nat)
  | read (thread : Nat) (stale : BitVec 8)

/-- One step of `tty_input` or of a thread that does not sleep. -/
inductive TtyStep (termios : Termios) :
    TtySystem → TtyLabel → TtySystem → Prop where
  | fetch {system : TtySystem} {char : BitVec 8}
      (idle : system.input = .idle) :
      TtyStep termios system (.fetch char) (system.fetch termios char)
  | input
      {system : TtySystem} :
      TtyStep termios system .input system.continueInput
  | call {system : TtySystem} {thread len : Nat}
      (outside : system.reads thread = none) :
      TtyStep termios system (.call thread len)
        (system.setRead thread
          (some { len := len, received := [], phase := .testing }))
  | read {system : TtySystem} {thread : Nat} {stale : BitVec 8} {read : TtyRead}
      (inside : system.reads thread = some read)
      (runs : thread ∉ system.wait) :
      TtyStep termios system (.read thread stale)
        (system.continueRead termios thread read stale)

end Idylla.Tty
