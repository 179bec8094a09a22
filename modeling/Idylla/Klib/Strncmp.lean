import Idylla.Lib.CStrings
import Idylla.WordSize

namespace Idylla.Klib

open Idylla.Lib

/-!
# Comparing the front of two strings

`strncmp` of the kernel with every byte that it reads.
-/

/-- The bytes of a `char *`. -/
abbrev Text := CString (BitVec 8) 0

/-- The variables of `strncmp`: how far both strings have moved on, and `n`. -/
structure StrncmpVars (size : WordSize) where
  moved : Nat
  n : BitVec size.bits

/-- What `strncmp` returns, and how many bytes it has looked at. -/
structure StrncmpResult where
  value : Int
  reads : Nat
  deriving Repr, DecidableEq

section Model

variable {size : WordSize} (s1 s2 : Text)

/-- One turn of the loop.  `continue` goes on with the condition at its end. -/
def strncmpBody (vars : StrncmpVars size) :
    Except Fault (Turn (StrncmpVars size) StrncmpResult) := do
  let c1 ← s1.charAt vars.moved
  let c2 ← s2.charAt vars.moved
  if c1 = c2 then
    let next : StrncmpVars size := ⟨vars.moved + 1, vars.n - 1⟩
    if next.n = 0 then
      return .leave ⟨0, next.moved⟩
    else
      let c ← s1.charAt next.moved
      if c = 0 then
        return .leave ⟨0, next.moved + 1⟩
      else
        return .again next
  else
    return .leave ⟨c1.toInt - c2.toInt, vars.moved + 1⟩

/-- `strncmp` -/
def strncmp (n : BitVec size.bits) (turns : Nat) : Except Fault StrncmpResult :=
  loop (strncmpBody s1 s2) turns ⟨0, n⟩

/--
The strings agree on their first characters exactly if the result is zero, and
nothing else is read.
-/
def StrncmpExact (n : BitVec size.bits) : Prop :=
  ∃ result, Returns (strncmp s1 s2 n) result ∧
    (result.value = 0 ↔ s1.chars.take n.toNat = s2.chars.take n.toNat) ∧
    result.reads ≤ n.toNat

end Model

section Turns

variable {size : WordSize} {s1 s2 : Text} {vars : StrncmpVars size}

theorem strncmpBody_differs (inside1 : vars.moved ≤ s1.chars.length)
    (inside2 : vars.moved ≤ s2.chars.length)
    (differs : s1.chars.getD vars.moved 0 ≠ s2.chars.getD vars.moved 0) :
    strncmpBody s1 s2 vars =
      .ok (.leave ⟨(s1.chars.getD vars.moved 0).toInt -
        (s2.chars.getD vars.moved 0).toInt, vars.moved + 1⟩) := by
  unfold strncmpBody
  rw [CString.charAt_inside inside1, CString.charAt_inside inside2]
  simp only [bind, Except.bind, if_neg differs]
  rfl

theorem strncmpBody_last (inside1 : vars.moved ≤ s1.chars.length)
    (inside2 : vars.moved ≤ s2.chars.length)
    (same : s1.chars.getD vars.moved 0 = s2.chars.getD vars.moved 0)
    (isLast : vars.n - 1 = 0) :
    strncmpBody s1 s2 vars = .ok (.leave ⟨0, vars.moved + 1⟩) := by
  unfold strncmpBody
  rw [CString.charAt_inside inside1, CString.charAt_inside inside2]
  simp only [bind, Except.bind, if_pos same, if_pos isLast]
  rfl

theorem strncmpBody_same (inside1 : vars.moved ≤ s1.chars.length)
    (inside2 : vars.moved ≤ s2.chars.length)
    (same : s1.chars.getD vars.moved 0 = s2.chars.getD vars.moved 0)
    (notLast : vars.n - 1 ≠ 0) :
    strncmpBody s1 s2 vars = (do
      let c ← s1.charAt (vars.moved + 1)
      if c = 0 then return .leave ⟨0, vars.moved + 2⟩
      else return .again ⟨vars.moved + 1, vars.n - 1⟩) := by
  unfold strncmpBody
  rw [CString.charAt_inside inside1, CString.charAt_inside inside2]
  simp only [bind, Except.bind, if_pos same, if_neg notLast]

theorem strncmpBody_reads {result : StrncmpResult}
    (turn : strncmpBody s1 s2 vars = .ok (.leave result)) :
    0 < result.reads := by
  obtain ⟨c1, -, turn⟩ := bind_eq_ok turn
  obtain ⟨c2, -, turn⟩ := bind_eq_ok turn
  split at turn
  · dsimp only at turn
    split at turn
    · cases turn
      exact Nat.succ_pos _
    · obtain ⟨c, -, turn⟩ := bind_eq_ok turn
      split at turn
      · cases turn
        exact Nat.succ_pos _
      · cases turn
  · cases turn
    exact Nat.succ_pos _

end Turns

section Fronts

variable {Item : Type} {first second : List Item} {place count : Nat}

theorem take_ne_of_getElem?_ne (inside : place < count)
    (differs : first[place]? ≠ second[place]?) :
    first.take count ≠ second.take count := by
  intro same
  have sameItem := congrArg (fun items => items[place]?) same
  simp only [List.getElem?_take, if_pos inside] at sameItem
  exact differs sameItem

theorem take_succ_eq (same : first.take place = second.take place)
    (sameItem : first[place]? = second[place]?) :
    first.take (place + 1) = second.take (place + 1) := by
  rw [List.take_add_one, List.take_add_one, same, sameItem]

end Fronts

/-- The first string ends in front of the second, and that goes unnoticed. -/
def EndsFirst (s1 s2 : Text) (n : Nat) : Prop :=
  s1.chars ≠ [] ∧ s1.chars <+: s2.chars ∧ s1.chars.length < n

section Walk

variable {size : WordSize} {s1 s2 : Text} {vars : StrncmpVars size}

/-- How far the loop has got: up to a character that is not the terminator. -/
structure Walked (s1 s2 : Text) (moved : Nat) : Prop where
  inside : moved = 0 ∨ moved < s1.chars.length
  same : s1.chars.take moved = s2.chars.take moved

namespace Walked

variable {moved : Nat}

theorem inside1 (walked : Walked s1 s2 moved) : moved ≤ s1.chars.length := by
  rcases walked.inside with rfl | below
  · exact Nat.zero_le _
  · exact Nat.le_of_lt below

theorem inside2 (walked : Walked s1 s2 moved) : moved ≤ s2.chars.length := by
  have sameLength := congrArg List.length walked.same
  rw [List.length_take, List.length_take,
    Nat.min_eq_left walked.inside1] at sameLength
  omega

theorem below (walked : Walked s1 s2 moved)
    (notEmpty : s1.chars ≠ [] ∨ s2.chars ≠ [])
    (sameChar : s1.chars.getD moved 0 = s2.chars.getD moved 0) :
    moved < s1.chars.length ∧ moved < s2.chars.length := by
  have ends1 := CString.getD_eq_nul_iff walked.inside1
  have ends2 := CString.getD_eq_nul_iff walked.inside2
  rw [sameChar] at ends1
  have sameEnd : moved = s1.chars.length ↔ moved = s2.chars.length :=
    ends1.symm.trans ends2
  have notEnd : moved ≠ s1.chars.length := by
    intro isEnd
    have isStart : moved = 0 := walked.inside.resolve_right (by omega)
    have isEnd2 := sameEnd.mp isEnd
    rw [isStart] at isEnd isEnd2
    rcases notEmpty with some1 | some2
    · exact some1 (List.length_eq_zero_iff.mp isEnd.symm)
    · exact some2 (List.length_eq_zero_iff.mp isEnd2.symm)
  have inside1 := walked.inside1
  have inside2 := walked.inside2
  omega

theorem next (walked : Walked s1 s2 moved)
    (notEmpty : s1.chars ≠ [] ∨ s2.chars ≠ [])
    (sameChar : s1.chars.getD moved 0 = s2.chars.getD moved 0) :
    s1.chars.take (moved + 1) = s2.chars.take (moved + 1) := by
  obtain ⟨below1, below2⟩ := walked.below notEmpty sameChar
  refine take_succ_eq walked.same ?_
  rw [List.getD_eq_getElem?_getD, List.getD_eq_getElem?_getD,
    List.getElem?_eq_getElem below1,
    List.getElem?_eq_getElem below2] at sameChar
  rw [List.getElem?_eq_getElem below1, List.getElem?_eq_getElem below2]
  exact congrArg some sameChar

end Walked

theorem count_ne_zero {count : BitVec size.bits} {left : Nat}
    (isLeft : count.toNat = left + 1) : count ≠ 0 := by
  rintro rfl
  exact absurd isLeft (Nat.succ_ne_zero left).symm

theorem toNat_next {count : BitVec size.bits} {left : Nat}
    (isLeft : count.toNat = left + 1) : (count - 1).toNat = left := by
  have pred := WordSize.toNat_pred (count_ne_zero isLeft)
  rw [isLeft] at pred
  exact Nat.succ.inj pred

theorem strncmp_differs {bound : Nat} (walked : Walked s1 s2 vars.moved)
    (inside : vars.moved < bound)
    (differs : s1.chars.getD vars.moved 0 ≠ s2.chars.getD vars.moved 0) :
    ∃ result,
      Returns (fun turns => loop (strncmpBody s1 s2) turns vars) result ∧
        (result.value = 0 ↔
          s1.chars.take bound = s2.chars.take bound ∨ EndsFirst s1 s2 bound) ∧
        result.reads ≤ bound := by
  have turn := strncmpBody_differs walked.inside1 walked.inside2 differs
  refine ⟨_, ⟨1, loop_leave turn 0⟩, ?_, inside⟩
  have notZero : (s1.chars.getD vars.moved 0).toInt -
        (s2.chars.getD vars.moved 0).toInt ≠ 0 := by
    intro isZero
    exact differs (BitVec.eq_of_toInt_eq (by omega))
  have differsItem : s1.chars[vars.moved]? ≠ s2.chars[vars.moved]? := by
    intro same
    rw [List.getD_eq_getElem?_getD, List.getD_eq_getElem?_getD, same] at differs
    exact differs rfl
  refine iff_of_false notZero (not_or.mpr ⟨?_, ?_⟩)
  · exact take_ne_of_getElem?_ne inside differsItem
  · rintro ⟨someChar, ⟨rest, isRest⟩, -⟩
    have below : vars.moved < s1.chars.length :=
      walked.inside.elim
        (fun isStart => isStart ▸ List.length_pos_iff.mpr someChar) id
    rw [← isRest, List.getElem?_append_left below] at differsItem
    exact differsItem rfl

/--
From a place up to which the strings agree the loop comes to its end with zero
if they agree on all of the characters, or if the first one has ended.
-/
theorem strncmp_walk (notEmpty : s1.chars ≠ [] ∨ s2.chars ≠ [])
    {bound left : Nat} (isLeft : vars.n.toNat = left + 1)
    (isBound : vars.moved + (left + 1) = bound)
    (walked : Walked s1 s2 vars.moved) :
    ∃ result,
      Returns (fun turns => loop (strncmpBody s1 s2) turns vars) result ∧
        (result.value = 0 ↔
          s1.chars.take bound = s2.chars.take bound ∨ EndsFirst s1 s2 bound) ∧
        result.reads ≤ bound := by
  induction left generalizing vars with
  | zero =>
    by_cases sameChar : s1.chars.getD vars.moved 0 = s2.chars.getD vars.moved 0
    · have isLast : vars.n - 1 = 0 := BitVec.eq_of_toNat_eq (toNat_next isLeft)
      have turn :=
        strncmpBody_last walked.inside1 walked.inside2 sameChar isLast
      have agree := walked.next notEmpty sameChar
      exact ⟨_, ⟨1, loop_leave turn 0⟩, by simp [← isBound, agree],
        Nat.le_of_eq isBound⟩
    · exact strncmp_differs walked (by omega) sameChar
  | succ left ih =>
    by_cases sameChar : s1.chars.getD vars.moved 0 = s2.chars.getD vars.moved 0
    · have isNext := toNat_next isLeft
      have notLast : vars.n - 1 ≠ 0 := count_ne_zero isNext
      have agree := walked.next notEmpty sameChar
      obtain ⟨below1, below2⟩ := walked.below notEmpty sameChar
      have turn :=
        strncmpBody_same walked.inside1 walked.inside2 sameChar notLast
      rw [CString.charAt_inside below1] at turn
      simp only [bind, Except.bind] at turn
      have ends := CString.getD_eq_nul_iff below1
      by_cases isEnd : vars.moved + 1 = s1.chars.length
      · rw [if_pos (ends.mpr isEnd)] at turn
        have isFront : s1.chars <+: s2.chars := by
          rw [isEnd, List.take_length] at agree
          exact agree ▸ List.take_prefix _ _
        have endsFirst : EndsFirst s1 s2 bound :=
          ⟨List.length_pos_iff.mp (by omega), isFront, by omega⟩
        refine ⟨_, ⟨1, loop_leave turn 0⟩, ?_, by dsimp only; omega⟩
        exact iff_of_true rfl (.inr endsFirst)
      · rw [if_neg fun isNul => isEnd (ends.mp isNul)] at turn
        obtain ⟨result, returns, exact'⟩ :=
          @ih ⟨vars.moved + 1, vars.n - 1⟩ isNext (by dsimp only; omega)
            ⟨.inr (by dsimp only; omega), agree⟩
        exact ⟨result, Reaches.returns (.again .start turn) returns, exact'⟩
    · exact strncmp_differs walked (by omega) sameChar

end Walk

section Exactly

variable {size : WordSize} {s1 s2 : Text} {n : BitVec size.bits}
  {result : StrncmpResult}

theorem strncmp_reads (returns : Returns (strncmp s1 s2 n) result) :
    0 < result.reads := by
  obtain ⟨vars, -, turn⟩ := returns_iff.mp returns
  exact strncmpBody_reads turn

theorem strncmp_empty (isEmpty1 : s1.chars = []) (isEmpty2 : s2.chars = [])
    (returns : Returns (strncmp s1 s2 n) result) : n = 1 := by
  refine Classical.byContradiction fun notOne => ?_
  have notLast : n - 1 ≠ 0 := by
    intro isZero
    exact notOne
      ((BitVec.sub_eq_iff_eq_add.mp isZero).trans (BitVec.zero_add 1))
  have turn :=
    @strncmpBody_same size s1 s2 ⟨0, n⟩ (Nat.zero_le _) (Nat.zero_le _)
      (by rw [isEmpty1, isEmpty2]) notLast
  have behind : s1.charAt 1 = .error .strays :=
    CString.charAt_behind (by rw [isEmpty1]; exact Nat.one_pos)
  rw [behind] at turn
  obtain ⟨turns, ends⟩ := returns
  cases turns with
  | zero =>
    cases ends
  | succ turns =>
    simp only [strncmp, loop, turn] at ends
    cases ends

theorem strncmp_empty_one (isEmpty1 : s1.chars = []) (isEmpty2 : s2.chars = [])
    (isOne : n = 1) : StrncmpExact s1 s2 n := by
  have turn :=
    @strncmpBody_last size s1 s2 ⟨0, n⟩ (Nat.zero_le _) (Nat.zero_le _)
      (by rw [isEmpty1, isEmpty2]) (by rw [isOne]; exact BitVec.sub_self 1)
  have one : n.toNat = 1 := by
    rw [isOne]
    cases size <;> rfl
  exact ⟨⟨0, 1⟩, ⟨1, loop_leave turn 0⟩, by simp [isEmpty1, isEmpty2],
    Nat.le_of_eq one.symm⟩

theorem strncmp_returns (notEmpty : s1.chars ≠ [] ∨ s2.chars ≠ [])
    (notZero : n ≠ 0) :
    ∃ result, Returns (strncmp s1 s2 n) result ∧
      (result.value = 0 ↔
        s1.chars.take n.toNat = s2.chars.take n.toNat ∨
          EndsFirst s1 s2 n.toNat) ∧
      result.reads ≤ n.toNat := by
  have isLeft := (WordSize.toNat_pred notZero).symm
  exact @strncmp_walk size s1 s2 ⟨0, n⟩ notEmpty n.toNat _ isLeft
    (by rw [Nat.zero_add, isLeft]) ⟨.inl rfl, rfl⟩

theorem EndsFirst.same {count : Nat} (ends : EndsFirst s1 s2 count)
    (agree : s1.chars.take count = s2.chars.take count) :
    s1.chars = s2.chars := by
  obtain ⟨-, ⟨rest, isRest⟩, short⟩ := ends
  rw [← isRest, List.take_of_length_le (Nat.le_of_lt short), List.take_append,
    List.take_of_length_le (Nat.le_of_lt short)] at agree
  have noRest : rest.take (count - s1.chars.length) = [] := by
    simpa using agree.symm
  have isNil : rest = [] := by
    rcases List.take_eq_nil_iff.mp noRest with isZero | isNil
    · omega
    · exact isNil
  rw [← isRest, isNil, List.append_nil]

/--
`strncmp` compares the front of two strings, unless no character is wanted,
the first string ends before the second and in front of the last character
wanted, or both are empty and more than one character is wanted.
-/
theorem strncmp_exact_iff (s1 s2 : Text) (n : BitVec size.bits) :
    StrncmpExact s1 s2 n ↔
      n ≠ 0 ∧ (s1.chars = [] → s2.chars = [] → n = 1) ∧
        ¬ (EndsFirst s1 s2 n.toNat ∧ s1.chars ≠ s2.chars) := by
  constructor
  · rintro ⟨result, returns, agrees, inside⟩
    have notZero : n ≠ 0 := by
      rintro rfl
      have reads := strncmp_reads returns
      have none : (0 : BitVec size.bits).toNat = 0 := BitVec.toNat_zero
      omega
    refine ⟨notZero, fun isEmpty1 isEmpty2 =>
      strncmp_empty isEmpty1 isEmpty2 returns, ?_⟩
    rintro ⟨ends, differ⟩
    obtain ⟨other, returnsOther, value, -⟩ :=
      strncmp_returns (.inl ends.1) notZero
    obtain rfl := returns.unique (loop_stable _) returnsOther
    exact differ (ends.same (agrees.mp (value.mpr (.inr ends))))
  · rintro ⟨notZero, empties, noEnd⟩
    by_cases notEmpty : s1.chars ≠ [] ∨ s2.chars ≠ []
    · obtain ⟨result, returns, value, inside⟩ :=
        strncmp_returns notEmpty notZero
      refine ⟨result, returns, value.trans ⟨?_, .inl⟩, inside⟩
      rintro (agree | ends)
      · exact agree
      · have same : s1.chars = s2.chars :=
          Classical.byContradiction fun differ => noEnd ⟨ends, differ⟩
        rw [same]
    · obtain ⟨isEmpty1, isEmpty2⟩ : s1.chars = [] ∧ s2.chars = [] := by
        simpa only [not_or, ne_eq, Classical.not_not] using notEmpty
      exact strncmp_empty_one isEmpty1 isEmpty2 (empties isEmpty1 isEmpty2)

end Exactly

/-- `"a"` -/
def textA : Text := ⟨[0x61], by decide⟩

/-- `"ab"` -/
def textAb : Text := ⟨[0x61, 0x62], by decide⟩

/-- The first two characters of `"a"` and `"ab"` compare equal. -/
theorem strncmp_misses_end :
    Returns (strncmp textA textAb (2 : BitVec WordSize.four.bits)) ⟨0, 2⟩ ∧
      ¬ StrncmpExact textA textAb (2 : BitVec WordSize.four.bits) := by
  have returns :
      Returns (strncmp textA textAb (2 : BitVec WordSize.four.bits)) ⟨0, 2⟩ :=
    ⟨1, rfl⟩
  refine ⟨returns, ?_⟩
  rintro ⟨result, returnsOther, agrees, -⟩
  obtain rfl := returns.unique (loop_stable _) returnsOther
  exact absurd (agrees.mp rfl) (by decide)

end Idylla.Klib
