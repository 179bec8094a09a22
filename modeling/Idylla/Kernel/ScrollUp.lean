import Idylla.Lib.Loops
import Idylla.Lib.Memory
import Mathlib.Algebra.Group.Nat.Defs

namespace Idylla.Kernel

open Idylla.Lib

/-!
# Scrolling the text screen

`scroll_up` of `arch/x86/vga.c` with the `memcpy` and the `memsetw` that it
calls.  Addresses are counted from `_vga_buf`, which is aligned, and there is
nothing but the screen: an access behind its last cell strays.
-/

/-- The bytes of the screen. -/
abbrev ScreenBytes := Memory (BitVec 8)

/-- `*dst++ = *src++` for a unit of `count` bytes. -/
def moveUnit (size count dst src : Nat)
    (bytes : ScreenBytes) : Except Fault ScreenBytes :=
  if src + count ≤ size ∧ dst + count ≤ size then
    .ok (bytes.copy dst bytes src count)
  else
    .error .strays

/-- The last loop of `memcpy`. -/
def memcpyBytes (size : Nat) :
    Nat → Nat → Nat → ScreenBytes → Except Fault ScreenBytes
  | 0, _, _, bytes => .ok bytes
  | len + 1, dst, src, bytes => do
    let moved ← moveUnit size 1 dst src bytes
    memcpyBytes size len (dst + 1) (src + 1) moved

/-- The loop over whole words, with the last loop behind it. -/
def memcpyWords (size : Nat) :
    Nat → Nat → Nat → ScreenBytes → Except Fault ScreenBytes
  | len + 4, dst, src, bytes => do
    let moved ← moveUnit size 4 dst src bytes
    memcpyWords size len (dst + 4) (src + 4) moved
  | len, dst, src, bytes => memcpyBytes size len dst src bytes

/--
`memcpy`.  Its first loop ends at an aligned source, or returns when there is
nothing left, and then the others have nothing to do either.
-/
def memcpy (size : Nat) :
    Nat → Nat → Nat → ScreenBytes → Except Fault ScreenBytes
  | 0, _, _, bytes => .ok bytes
  | len + 1, dst, src, bytes =>
    if src % 4 ≠ 0 then do
      let moved ← moveUnit size 1 dst src bytes
      memcpy size len (dst + 1) (src + 1) moved
    else if 4 ≤ len + 1 ∧ dst % 4 = 0 then
      memcpyWords size (len + 1) dst src bytes
    else
      memcpyBytes size (len + 1) dst src bytes

/-- The bytes of a cell, over and over. -/
def cellBytes (c : BitVec 16) : ScreenBytes :=
  fun at' => if at' % 2 = 0 then c.setWidth 8 else (c >>> 8).setWidth 8

/-- `memsetw` -/
def memsetw (size : Nat) (c : BitVec 16) :
    Nat → Nat → ScreenBytes → Except Fault ScreenBytes
  | 0, _, bytes => .ok bytes
  | len + 1, buf, bytes =>
    if buf + 2 ≤ size then
      memsetw size c len (buf + 2) (bytes.copy buf (cellBytes c) 0 2)
    else
      .error .strays

/-- A screen that fits in the address space, and by how far to scroll it. -/
structure Scroll where
  width : BitVec 32
  height : BitVec 32
  attr : BitVec 32
  n : BitVec 32
  bytes : ScreenBytes
  inSpace : 2 * (width.toNat * height.toNat) < 2 ^ 32
  upTo : n.toNat ≤ height.toNat

namespace Scroll

variable (scroll : Scroll)

/-- The bytes of the screen in number. -/
def size : Nat := 2 * (scroll.width.toNat * scroll.height.toNat)

/-- `vc->attr << 8 | ' '` -/
def blank : BitVec 16 := (scroll.attr <<< 8 ||| 0x20#32).setWidth 16

/-- `scroll_up` -/
def scroll_up : Except Fault ScreenBytes := do
  let len := (scroll.width - scroll.n) * scroll.width * 2
  let src := scroll.n * scroll.width * 2
  let copied ← memcpy scroll.size len.toNat 0 src.toNat scroll.bytes
  memsetw scroll.size scroll.blank (scroll.n * scroll.width).toNat
    len.toNat copied

/-- The two bytes of a cell. -/
def cell (bytes : ScreenBytes) (row col : Nat) : BitVec 8 × BitVec 8 :=
  let index := row * scroll.width.toNat + col
  (bytes (2 * index), bytes (2 * index + 1))

/-- What scrolling is for. -/
structure Scrolled (after : ScreenBytes) : Prop where
  moved : ∀ row col,
    row < scroll.height.toNat - scroll.n.toNat → col < scroll.width.toNat →
      scroll.cell after row col =
        scroll.cell scroll.bytes (row + scroll.n.toNat) col
  cleared : ∀ row col, scroll.height.toNat - scroll.n.toNat ≤ row →
    row < scroll.height.toNat → col < scroll.width.toNat →
      scroll.cell after row col =
        (cellBytes scroll.blank 0, cellBytes scroll.blank 1)
  kept : ∀ address, scroll.size ≤ address → after address = scroll.bytes address

/-- Nothing but the screen is accessed, and it has been scrolled. -/
def ScrollsExactly : Prop :=
  ∃ after, scroll.scroll_up = .ok after ∧ scroll.Scrolled after

/-- The bytes of a square as wide as the screen, as the machine counts them. -/
def square : Nat := 2 * (scroll.width.toNat * scroll.width.toNat) % 2 ^ 32

/-- The bytes of the rows that are scrolled away. -/
def gone : Nat := 2 * (scroll.n.toNat * scroll.width.toNat)

/--
The square takes in the rows that are scrolled away and ends on the screen,
and what the screen has behind it is blank already.
-/
structure SquareSuits : Prop where
  rows : scroll.gone ≤ scroll.square
  ends : scroll.square ≤ scroll.size
  blank : scroll.gone = 0 ∨
    ∀ address, scroll.square ≤ address → address < scroll.size →
      scroll.bytes address = cellBytes scroll.blank address

end Scroll

theorem copy_source
    {target first second : ScreenBytes} {targetAt firstAt secondAt count : Nat}
    (same : ∀ at', at' < count →
      first (firstAt + at') = second (secondAt + at')) :
    target.copy targetAt first firstAt count =
      target.copy targetAt second secondAt count := by
  funext address
  unfold Memory.copy
  split
  · exact same _ (by omega)
  · rfl

theorem copy_forward {bytes : ScreenBytes} {dst src first second : Nat}
    (forward : dst ≤ src) :
    (bytes.copy dst bytes src first).copy (dst + first)
        (bytes.copy dst bytes src first) (src + first) second =
      bytes.copy dst bytes src (first + second) := by
  rw [← Memory.copy_copy_adjacent]
  refine copy_source fun at' _ => ?_
  exact Memory.copy_outside (by omega)

section Loops

variable {size len dst src count : Nat} {bytes : ScreenBytes}
  {later : ScreenBytes → Except Fault ScreenBytes}

theorem moveUnit_then (forward : dst ≤ src) (positive : 0 < count)
    (rest : ∀ moved,
      Checks (later moved) (len = 0 ∨ src + count + len ≤ size)
        (moved.copy (dst + count) moved (src + count) len)) :
    Checks (moveUnit size count dst src bytes >>= later)
      (len + count = 0 ∨ src + (len + count) ≤ size)
      (bytes.copy dst bytes src (len + count)) := by
  have unit : Checks (moveUnit size count dst src bytes)
        (src + count ≤ size ∧ dst + count ≤ size)
        (bytes.copy dst bytes src count) :=
    Checks.ite _ _
  refine (unit.bind (rest _)).congr (by omega) ?_
  rw [copy_forward forward, Nat.add_comm]

theorem nothing_left :
    Checks (.ok bytes) (0 = 0 ∨ src + 0 ≤ size) (bytes.copy dst bytes src 0) :=
  (Checks.pure bytes).congr (by simp) (by simp)

theorem memcpyBytes_checks (forward : dst ≤ src) :
    Checks (memcpyBytes size len dst src bytes)
      (len = 0 ∨ src + len ≤ size) (bytes.copy dst bytes src len) := by
  induction len generalizing dst src bytes with
  | zero =>
    exact nothing_left
  | succ len ih =>
    exact moveUnit_then forward Nat.one_pos fun _ => ih (by omega)

theorem memcpyWords_checks (forward : dst ≤ src) :
    Checks (memcpyWords size len dst src bytes)
      (len = 0 ∨ src + len ≤ size) (bytes.copy dst bytes src len) := by
  fun_induction memcpyWords size len dst src bytes with
  | case1 dst src bytes len ih =>
    exact moveUnit_then forward (by decide) fun moved => ih moved (by omega)
  | case2 len dst src bytes =>
    exact memcpyBytes_checks forward

theorem memcpy_checks (forward : dst ≤ src) :
    Checks (memcpy size len dst src bytes)
      (len = 0 ∨ src + len ≤ size) (bytes.copy dst bytes src len) := by
  induction len generalizing dst src bytes with
  | zero =>
    exact nothing_left
  | succ len ih =>
    unfold memcpy
    split
    · exact moveUnit_then forward Nat.one_pos fun _ => ih (by omega)
    · split
      · exact memcpyWords_checks forward
      · exact memcpyBytes_checks forward

theorem memsetw_checks (c : BitVec 16) :
    Checks (memsetw size c len dst bytes) (len = 0 ∨ dst + 2 * len ≤ size)
      (bytes.copy dst (cellBytes c) 0 (2 * len)) := by
  induction len generalizing dst bytes with
  | zero =>
    exact (Checks.pure bytes).congr (by simp) (by simp)
  | succ len ih =>
    have periodic : ∀ at', at' < 2 * len →
          cellBytes c (0 + at') = cellBytes c (0 + 2 + at') := by
      intro at' _
      unfold cellBytes
      rw [show (0 + 2 + at') % 2 = (0 + at') % 2 by omega]
    have whole : bytes.copy dst (cellBytes c) 0 (2 * (len + 1)) =
          (bytes.copy dst (cellBytes c) 0 2).copy (dst + 2) (cellBytes c) 0
            (2 * len) := by
      rw [copy_source periodic, Memory.copy_copy_adjacent, Nat.mul_succ,
        Nat.add_comm 2]
    unfold memsetw
    split
    · exact ih.congr (by omega) whole
    · refine (Checks.throw _ _).congr ⟨fun fits => ?_, False.elim⟩ whole
      omega

end Loops

namespace Scroll

variable (scroll : Scroll)

/-- The bytes that are copied, and the offset from which on it is filled. -/
def copied : Nat :=
  ((scroll.width - scroll.n) * scroll.width * 2).toNat

/-- The screen behind the call where nothing strays. -/
def filled : ScreenBytes :=
  (scroll.bytes.copy 0 scroll.bytes scroll.gone scroll.copied).copy
    scroll.copied (cellBytes scroll.blank) 0 scroll.gone

theorem gone_le : scroll.gone ≤ scroll.size :=
  Nat.mul_le_mul_left 2 (Nat.mul_comm scroll.n.toNat _ ▸
    Nat.mul_le_mul_left _ scroll.upTo)

theorem gone_lt : scroll.gone < 2 ^ 32 :=
  Nat.lt_of_le_of_lt scroll.gone_le scroll.inSpace

theorem toNat_gone : (scroll.n * scroll.width * 2).toNat = scroll.gone := by
  have small := scroll.gone_lt
  unfold gone at small ⊢
  rw [BitVec.toNat_mul, BitVec.toNat_mul, Nat.mod_mul_mod, Nat.mul_comm 2]
  exact Nat.mod_eq_of_lt (Nat.mul_comm 2 _ ▸ small)

theorem toNat_rows :
    2 * (scroll.n * scroll.width).toNat = scroll.gone := by
  have small := scroll.gone_lt
  unfold gone at small ⊢
  rw [BitVec.toNat_mul, Nat.mod_eq_of_lt (by omega)]

theorem copied_eq :
    scroll.copied < 2 ^ 32 ∧
      (scroll.copied + scroll.gone) % 2 ^ 32 = scroll.square := by
  refine ⟨BitVec.isLt _, ?_⟩
  rw [← scroll.toNat_gone]
  unfold copied square
  rw [← BitVec.toNat_add, ← BitVec.add_mul, ← BitVec.add_mul,
    BitVec.sub_add_cancel]
  rw [BitVec.toNat_mul, BitVec.toNat_mul, Nat.mod_mul_mod, Nat.mul_comm 2]
  rfl

theorem fits_iff :
    scroll.gone + scroll.copied ≤ scroll.size ↔
      scroll.gone ≤ scroll.square ∧ scroll.square ≤ scroll.size := by
  obtain ⟨isSmall, same⟩ := scroll.copied_eq
  have inSpace : scroll.size < 2 ^ 32 := scroll.inSpace
  omega

theorem scroll_up_checks :
    Checks scroll.scroll_up (scroll.gone + scroll.copied ≤ scroll.size)
      scroll.filled := by
  have copies :=
    @memcpy_checks scroll.size scroll.copied 0 scroll.gone scroll.bytes
      (Nat.zero_le _)
  have fills (bytes : ScreenBytes) :=
    @memsetw_checks scroll.size (scroll.n * scroll.width).toNat scroll.copied
      bytes scroll.blank
  simp only [toNat_rows] at fills
  have isLess := scroll.gone_le
  unfold scroll_up
  dsimp only
  rw [toNat_gone]
  exact (copies.bind (fills _)).congr (by omega) rfl

theorem cells_iff {width first last : Nat} {holds : Nat → Prop} :
    (∀ row col, first ≤ row → row < last → col < width →
      holds (2 * (row * width + col)) ∧ holds (2 * (row * width + col) + 1)) ↔
      ∀ address, 2 * (first * width) ≤ address →
        address < 2 * (last * width) → holds address := by
  constructor
  · intro cells address lower upper
    have wide : 0 < width := by
      refine Nat.pos_of_ne_zero fun isZero => ?_
      rw [isZero] at upper
      omega
    have both :=
      cells (address / 2 / width) (address / 2 % width)
        ((Nat.le_div_iff_mul_le wide).mpr (by omega))
        ((Nat.div_lt_iff_lt_mul wide).mpr (by omega))
        (Nat.mod_lt _ wide)
    rw [Nat.div_add_mod'] at both
    rcases Nat.mod_two_eq_zero_or_one address with even | odd
    · have same : 2 * (address / 2) = address := by omega
      exact same ▸ both.1
    · have same : 2 * (address / 2) + 1 = address := by omega
      exact same ▸ both.2
  · intro bytes row col lower upper inRow
    have below := Nat.mul_le_mul_right width lower
    have above := Nat.mul_le_mul_right width (Nat.succ_le_of_lt upper)
    rw [Nat.succ_mul] at above
    exact ⟨bytes _ (by omega) (by omega), bytes _ (by omega) (by omega)⟩

section Cells

variable {scroll} {after : ScreenBytes} {row col : Nat}

theorem cellMoved_iff :
    scroll.cell after row col =
        scroll.cell scroll.bytes (row + scroll.n.toNat) col ↔
      after (2 * (row * scroll.width.toNat + col)) =
          scroll.bytes (2 * (row * scroll.width.toNat + col) + scroll.gone) ∧
        after (2 * (row * scroll.width.toNat + col) + 1) =
          scroll.bytes
            (2 * (row * scroll.width.toNat + col) + 1 + scroll.gone) := by
  have shifted : 2 * ((row + scroll.n.toNat) * scroll.width.toNat + col) =
        2 * (row * scroll.width.toNat + col) + scroll.gone := by
    unfold gone
    rw [Nat.add_mul]
    omega
  unfold cell
  rw [Prod.mk.injEq, shifted, Nat.add_right_comm]

theorem cellCleared_iff :
    scroll.cell after row col =
        (cellBytes scroll.blank 0, cellBytes scroll.blank 1) ↔
      after (2 * (row * scroll.width.toNat + col)) =
          cellBytes scroll.blank (2 * (row * scroll.width.toNat + col)) ∧
        after (2 * (row * scroll.width.toNat + col) + 1) =
          cellBytes scroll.blank
            (2 * (row * scroll.width.toNat + col) + 1) := by
  unfold cell cellBytes
  simp

end Cells

theorem scrolled_iff {after : ScreenBytes} :
    scroll.Scrolled after ↔
      (∀ address, address < scroll.size - scroll.gone →
        after address = scroll.bytes (address + scroll.gone)) ∧
      (∀ address, scroll.size - scroll.gone ≤ address →
        address < scroll.size →
          after address = cellBytes scroll.blank address) ∧
      ∀ address, scroll.size ≤ address →
        after address = scroll.bytes address := by
  have before : scroll.size - scroll.gone =
        2 * ((scroll.height.toNat - scroll.n.toNat) * scroll.width.toNat) := by
    unfold size gone
    rw [Nat.sub_mul, Nat.mul_comm scroll.width.toNat, Nat.mul_sub]
  have ends : scroll.size = 2 * (scroll.height.toNat * scroll.width.toNat) := by
    unfold size
    rw [Nat.mul_comm scroll.width.toNat]
  rw [before]
  have movedIff :=
    @cells_iff scroll.width.toNat 0 (scroll.height.toNat - scroll.n.toNat)
      fun address => after address = scroll.bytes (address + scroll.gone)
  have clearedIff :=
    @cells_iff scroll.width.toNat (scroll.height.toNat - scroll.n.toNat)
      scroll.height.toNat
      fun address => after address = cellBytes scroll.blank address
  rw [← ends] at clearedIff
  simp only [Nat.zero_mul, Nat.zero_le, Nat.mul_zero, true_implies] at movedIff
  rw [← movedIff, ← clearedIff]
  constructor
  · intro scrolled
    refine ⟨fun row col upper inRow => ?_, fun row col lower upper inRow => ?_,
      scrolled.kept⟩
    · exact cellMoved_iff.mp (scrolled.moved row col upper inRow)
    · exact cellCleared_iff.mp (scrolled.cleared row col lower upper inRow)
  · rintro ⟨moved, cleared, kept⟩
    exact
      { moved := fun row col upper inRow =>
          cellMoved_iff.mpr (moved row col upper inRow)
        cleared := fun row col lower upper inRow =>
          cellCleared_iff.mpr (cleared row col lower upper inRow)
        kept := kept }

theorem filled_eq (rows : scroll.copied + scroll.gone = scroll.square)
    (address : Nat) :
    scroll.filled address =
      if address < scroll.copied then scroll.bytes (address + scroll.gone)
      else if address < scroll.square then cellBytes scroll.blank address
      else scroll.bytes address := by
  have even : scroll.copied % 2 = 0 := by
    unfold square gone at rows
    omega
  unfold filled
  split
  next isCopied =>
    rw [Memory.copy_outside (.inl isCopied),
      Memory.copy_inside (Nat.zero_le _) (by omega), Nat.sub_zero,
      Nat.add_comm]
  next notCopied =>
    split
    · rw [Memory.copy_inside (by omega) (by omega)]
      unfold cellBytes
      rw [show (0 + (address - scroll.copied)) % 2 = address % 2 by omega]
    · rw [Memory.copy_outside (by omega), Memory.copy_outside (by omega)]

theorem cellBytes_add_gone (c : BitVec 16) (address : Nat) :
    cellBytes c (address + scroll.gone) = cellBytes c address := by
  unfold cellBytes gone
  rw [Nat.add_mul_mod_self_left]

theorem blank_of_scrolled (rows : scroll.copied + scroll.gone = scroll.square)
    (scrolled : scroll.Scrolled scroll.filled) (someGone : 0 < scroll.gone)
    (address : Nat) (lower : scroll.square ≤ address)
    (upper : address < scroll.size) :
    scroll.bytes address = cellBytes scroll.blank address := by
  obtain ⟨moved, cleared, -⟩ := scroll.scrolled_iff.mp scrolled
  have stays : scroll.filled address = scroll.bytes address := by
    rw [scroll.filled_eq rows, if_neg (by omega), if_neg (by omega)]
  by_cases isLast : scroll.size - scroll.gone ≤ address
  · rw [← stays, cleared address isLast upper]
  · have further :=
      blank_of_scrolled rows scrolled someGone (address + scroll.gone)
        (by omega) (by omega)
    rw [← stays, moved address (by omega), further, cellBytes_add_gone]
termination_by scroll.size - address

/--
Scrolling moves exactly the screen when the width stands in for the height
without a difference.
-/
theorem scrollsExactly_iff : scroll.ScrollsExactly ↔ scroll.SquareSuits := by
  have whole : scroll.gone + scroll.copied ≤ scroll.size →
        scroll.copied + scroll.gone = scroll.square := by
    have inSpace : scroll.size < 2 ^ 32 := scroll.inSpace
    obtain ⟨-, same⟩ := scroll.copied_eq
    omega
  constructor
  · rintro ⟨after, returns, scrolled⟩
    have fits : scroll.gone + scroll.copied ≤ scroll.size := by
      refine Classical.byContradiction fun unfit => ?_
      obtain ⟨fault, isWrong⟩ := scroll.scroll_up_checks.wrong unfit
      rw [isWrong] at returns
      cases returns
    rw [scroll.scroll_up_checks.ok fits] at returns
    cases returns
    obtain ⟨rows, ends⟩ := scroll.fits_iff.mp fits
    refine ⟨rows, ends, ?_⟩
    rcases Nat.eq_zero_or_pos scroll.gone with none | some
    · exact .inl none
    · exact .inr (scroll.blank_of_scrolled (whole fits) scrolled some)
  · intro suits
    have fits := scroll.fits_iff.mpr ⟨suits.rows, suits.ends⟩
    have rows := whole fits
    refine ⟨_, scroll.scroll_up_checks.ok fits, scroll.scrolled_iff.mpr ?_⟩
    simp only [scroll.filled_eq rows]
    refine ⟨fun address upper => ?_, fun address lower upper => ?_,
      fun address behind => ?_⟩
    · by_cases isCopied : address < scroll.copied
      · rw [if_pos isCopied]
      · rw [if_neg isCopied]
        rcases suits.blank with none | blank
        · rw [if_neg (by omega), none, Nat.add_zero]
        · rw [blank (address + scroll.gone) (by omega) (by omega),
            cellBytes_add_gone]
          split
          · rfl
          · exact blank address (by omega) (by omega)
    · rw [if_neg (by omega)]
      split
      · rfl
      · exact suits.blank.resolve_left (by omega) address (by omega) upper
    · rw [if_neg (by omega), if_neg (by omega)]

end Scroll

/-- An empty screen of 80 columns and 25 rows, by one row. -/
def textMode : Scroll where
  width := 80
  height := 25
  attr := 7
  n := 1
  bytes := fun _ => 0
  inSpace := by decide
  upTo := by decide

/-- The copy for the text mode goes on far behind the screen. -/
theorem textMode_strays : ¬ textMode.ScrollsExactly := by
  rintro ⟨after, returns, -⟩
  have far : ¬ textMode.gone + textMode.copied ≤ textMode.size := by
    have isCopied : textMode.copied = 12640 := by
      decide
    have isSize : textMode.size = 2 * (80 * 25) := rfl
    omega
  obtain ⟨fault, isWrong⟩ := textMode.scroll_up_checks.wrong far
  rw [isWrong] at returns
  cases returns

end Idylla.Kernel
