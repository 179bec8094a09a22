import Idylla.WordSize

namespace Idylla.Kernel

/-!
# Operations on the bits of a word

`kernel/bitops.h` for a port without operations of its own, and
`arch/bitops.h` of x86 with the instructions that it is made of.
-/

variable {size : WordSize}

/-- `1 << idx`, an `int`: C gives it no meaning from its width on. -/
def shiftedOne (idx : Nat) : Option (BitVec 32) :=
  if idx < 32 then some (1#32 <<< idx) else none

namespace Portable

/-- The constant as an `unsigned long`: the sign of the `int` is extended. -/
def mask (idx : Nat) : Option (BitVec size.bits) :=
  (shiftedOne idx).map fun one => one.signExtend size.bits

/-- `set_bit` -/
def setBit (base : BitVec size.bits) (idx : Nat) : Option (BitVec size.bits) :=
  (mask idx).map fun mask => base ||| mask

/-- `clear_bit`, with the complement of an `int`. -/
def clearBit (base : BitVec size.bits)
    (idx : Nat) : Option (BitVec size.bits) :=
  (shiftedOne idx).map fun one => base &&& (~~~one).signExtend size.bits

/-- `test_bit` -/
def testBit (base : BitVec size.bits) (idx : Nat) : Option Int :=
  (mask idx).map fun mask => if base &&& mask ≠ 0 then 0 else -1

/-- The loops of `ffz_bit` and `ffs_bit` from `i` on. -/
def findBit (base : BitVec size.bits)
    (found : BitVec size.bits → Bool) : (left i : Nat) → Option Int
  | 0, _ => some (-1)
  | left + 1, i =>
    (mask i).bind fun mask =>
      if found (base &&& mask) then some i
      else findBit base found left (i + 1)

/-- `ffz_bit` -/
def ffzBit (base : BitVec size.bits) : Option Int :=
  findBit base (fun masked => masked = 0) size.bits 0

/-- `ffs_bit` -/
def ffsBit (base : BitVec size.bits) : Option Int :=
  findBit base (fun masked => masked ≠ 0) size.bits 0

end Portable

namespace X86

/-- The carry flag behind `bt`. -/
def bt (base : BitVec size.bits) (idx : Nat) : Bool := base.getLsbD idx

/-- `bts` -/
def bts (base : BitVec size.bits) (idx : Nat) : BitVec size.bits :=
  base ||| BitVec.twoPow size.bits idx

/-- `btr` -/
def btr (base : BitVec size.bits) (idx : Nat) : BitVec size.bits :=
  base &&& ~~~BitVec.twoPow size.bits idx

/-- `sbb` of a register and itself. -/
def sbb (carry : Bool) : Int := if carry then -1 else 0

/-- `bsf`, which leaves nothing of use for a source of zero. -/
def bsf (source : BitVec size.bits) : Option Nat :=
  (List.range size.bits).find? fun place => source.getLsbD place

/-- `set_bit` -/
def setBit (base : BitVec size.bits) (idx : Nat) : BitVec size.bits :=
  bts base idx

/-- `clear_bit` -/
def clearBit (base : BitVec size.bits) (idx : Nat) : BitVec size.bits :=
  btr base idx

/-- `test_bit` -/
def testBit (base : BitVec size.bits) (idx : Nat) : Int := sbb (bt base idx)

/-- `ffz_bit` -/
def ffzBit (base : BitVec size.bits) : Option Int :=
  (bsf (~~~base)).map Int.ofNat

/-- `ffs_bit` -/
def ffsBit (base : BitVec size.bits) : Option Int :=
  (bsf base).map Int.ofNat

end X86

section Agreement

variable (base : BitVec size.bits) (idx : Nat)

/-- The same word with a bit set. -/
def SetBitAgrees : Prop :=
  Portable.setBit base idx = some (X86.setBit base idx)

/-- The same word with a bit cleared. -/
def ClearBitAgrees : Prop :=
  Portable.clearBit base idx = some (X86.clearBit base idx)

/-- The same truth value. -/
def TestBitAgrees : Prop :=
  ∃ result, Portable.testBit base idx = some result ∧
    (result ≠ 0 ↔ X86.testBit base idx ≠ 0)

/-- The same index of a zero. -/
def FfzBitAgrees : Prop :=
  base ≠ BitVec.allOnes size.bits → Portable.ffzBit base = X86.ffzBit base

/-- The same index of a bit that is set. -/
def FfsBitAgrees : Prop :=
  base ≠ 0 → Portable.ffsBit base = X86.ffsBit base

/-- Both versions of every operation do the same. -/
structure BitopsAgree : Prop where
  setBit : SetBitAgrees base idx
  clearBit : ClearBitAgrees base idx
  testBit : TestBitAgrees base idx
  ffzBit : FfzBitAgrees base
  ffsBit : FfsBitAgrees base

/-- The bits that the sign of an `int` is extended to have one value. -/
def UpperBits (value : Bool) : Prop :=
  ∀ place, 31 < place → place < size.bits → base.getLsbD place = value

end Agreement

theorem mask_eq {idx : Nat} (inInt : idx < 32) :
    @Portable.mask size idx = some ((1#32 <<< idx).signExtend size.bits) := by
  rw [Portable.mask, shiftedOne, if_pos inInt, Option.map_some]

theorem shiftedOne_none {idx : Nat} (beyond : 32 ≤ idx) :
    shiftedOne idx = none :=
  if_neg (Nat.not_lt.mpr beyond)

theorem mask_none {idx : Nat} (beyond : 32 ≤ idx) :
    @Portable.mask size idx = none := by
  rw [Portable.mask, shiftedOne_none beyond, Option.map_none]

theorem one_le_bits (size : WordSize) : 32 ≤ size.bits := by
  rcases size.bits_eq with same | same <;> omega

theorem getLsbD_mask {idx place : Nat} (inInt : idx < 32)
    (inWord : place < size.bits) :
    ((1#32 <<< idx).signExtend size.bits).getLsbD place =
      decide (place = idx ∨ idx = 31 ∧ 31 < place) := by
  have bit (other : Nat) :
      (1#32 <<< idx).getLsbD other = decide (other = idx) := by
    rw [← BitVec.twoPow_eq, BitVec.getLsbD_twoPow]
    by_cases same : other = idx
    · simp [same, inInt]
    · simp [same, Ne.symm same]
  rw [BitVec.getLsbD_signExtend, decide_eq_true inWord, Bool.true_and]
  rw [BitVec.msb_eq_getLsbD_last, bit, bit]
  by_cases low : place < 32
  · rw [if_pos low]
    exact decide_eq_decide.mpr (by omega)
  · rw [if_neg low]
    exact decide_eq_decide.mpr (by omega)

theorem and_mask_eq_zero_iff {base : BitVec size.bits} {idx : Nat}
    (inInt : idx < 32) :
    base &&& (1#32 <<< idx).signExtend size.bits = 0 ↔
      base.getLsbD idx = false ∧ (idx = 31 → UpperBits base false) := by
  have wide := one_le_bits size
  constructor
  · intro isZero
    have clear (place : Nat) (masked : place = idx ∨ idx = 31 ∧ 31 < place)
        (inWord : place < size.bits) :
        base.getLsbD place = false := by
      have bit := congrArg (fun word => word.getLsbD place) isZero
      simpa [getLsbD_mask inInt inWord, masked] using bit
    exact ⟨clear idx (.inl rfl) (by omega),
      fun isSign place above inWord =>
        clear place (.inr ⟨isSign, above⟩) inWord⟩
  · rintro ⟨own, sign⟩
    refine BitVec.eq_of_getLsbD_eq fun place inWord => ?_
    rw [BitVec.getLsbD_and, getLsbD_mask inInt inWord]
    refine Eq.trans ?_ BitVec.getLsbD_zero.symm
    by_cases masked : place = idx ∨ idx = 31 ∧ 31 < place
    · have clear : base.getLsbD place = false := by
        rcases masked with rfl | ⟨isSign, above⟩
        · exact own
        · exact sign isSign place above inWord
      rw [clear, Bool.false_and]
    · rw [decide_eq_false masked, Bool.and_false]

section OneBit

variable {base : BitVec size.bits} {idx : Nat}

theorem upperBits_not : UpperBits (~~~base) false ↔ UpperBits base true := by
  refine forall_congr' fun place => forall_congr' fun _ => ?_
  refine forall_congr' fun inWord => ?_
  simp [inWord]

theorem clear_mask_iff (inInt : idx < 32) :
    base &&& ~~~((1#32 <<< idx).signExtend size.bits) =
        base &&& ~~~BitVec.twoPow size.bits idx ↔
      idx < 31 ∨ idx = 31 ∧ UpperBits base false := by
  constructor
  · intro same
    by_cases isLow : idx < 31
    · exact .inl isLow
    · refine .inr ⟨by omega, fun place above inWord => ?_⟩
      have bit := congrArg (fun word => word.getLsbD place) same
      simp only [BitVec.getLsbD_and, BitVec.getLsbD_not,
        getLsbD_mask inInt inWord, BitVec.getLsbD_twoPow] at bit
      have isSign : place = idx ∨ idx = 31 ∧ 31 < place := by omega
      have other : idx ≠ place := by omega
      simpa [isSign, other, inWord] using bit.symm
  · intro suits
    refine BitVec.eq_of_getLsbD_eq fun place inWord => ?_
    rw [BitVec.getLsbD_and, BitVec.getLsbD_and, BitVec.getLsbD_not,
      BitVec.getLsbD_not, getLsbD_mask inInt inWord, BitVec.getLsbD_twoPow]
    by_cases isSign : idx = 31 ∧ 31 < place
    · have upper : base.getLsbD place = false :=
        (suits.resolve_left (by omega)).2 place isSign.2 inWord
      rw [upper, Bool.false_and, Bool.false_and]
    · have sameBit : (place = idx ∨ idx = 31 ∧ 31 < place) ↔ idx = place := by
        omega
      simp only [sameBit]
      by_cases own : idx = place
      · simp [own, inWord]
      · simp [own]

theorem clearBitAgrees_iff :
    ClearBitAgrees base idx ↔ idx < 31 ∨ idx = 31 ∧ UpperBits base false := by
  unfold ClearBitAgrees Portable.clearBit X86.clearBit X86.btr
  by_cases inInt : idx < 32
  · rw [shiftedOne, if_pos inInt, Option.map_some, Option.some.injEq,
      BitVec.signExtend_not (by decide), clear_mask_iff inInt]
  · rw [shiftedOne_none (Nat.not_lt.mp inInt)]
    simp only [Option.map_none, reduceCtorEq, false_iff]
    omega

/-- A bit is set as it is cleared in the complement. -/
theorem setBitAgrees_iff :
    SetBitAgrees base idx ↔ idx < 31 ∨ idx = 31 ∧ UpperBits base true := by
  unfold SetBitAgrees Portable.setBit X86.setBit X86.bts
  by_cases inInt : idx < 32
  · rw [mask_eq inInt, Option.map_some, Option.some.injEq, ← BitVec.not_inj,
      BitVec.not_or, BitVec.not_or, clear_mask_iff inInt, upperBits_not]
  · rw [mask_none (Nat.not_lt.mp inInt)]
    simp only [Option.map_none, reduceCtorEq, false_iff]
    omega

theorem testBitAgrees_iff :
    TestBitAgrees base idx ↔
      idx = 31 ∧ base.getLsbD 31 = false ∧ ¬ UpperBits base false := by
  unfold TestBitAgrees Portable.testBit
  have x86 : X86.testBit base idx ≠ 0 ↔ base.getLsbD idx = true := by
    unfold X86.testBit X86.sbb X86.bt
    cases base.getLsbD idx <;> simp
  rw [x86]
  by_cases inInt : idx < 32
  · have portable (isZero : Prop) [Decidable isZero] :
        (if ¬ isZero then (0 : Int) else -1) ≠ 0 ↔ isZero := by
      by_cases holds : isZero <;> simp [holds]
    rw [mask_eq inInt, Option.map_some]
    simp only [Option.some.injEq, exists_eq_left', ne_eq, portable,
      and_mask_eq_zero_iff inInt]
    by_cases isSign : idx = 31
    · subst isSign
      cases base.getLsbD 31 <;> simp
    · cases base.getLsbD idx <;> simp [isSign]
  · rw [mask_none (Nat.not_lt.mp inInt)]
    simp only [Option.map_none, reduceCtorEq, false_and, exists_const,
      false_iff]
    omega

end OneBit

section FirstBit

variable {base : BitVec size.bits} {found : BitVec size.bits → Bool}

theorem findBit_found {first left i : Nat} (inInt : first < 32)
    (reaches : i ≤ first) (ends : first < i + left)
    (earlier :
      ∀ place, i ≤ place → place < first →
        found (base &&& (1#32 <<< place).signExtend size.bits) = false)
    (isFound :
      found (base &&& (1#32 <<< first).signExtend size.bits) = true) :
    Portable.findBit base found left i = some first := by
  induction left generalizing i with
  | zero =>
    omega
  | succ left ih =>
    rw [Portable.findBit, mask_eq (by omega), Option.bind_some]
    by_cases here : i = first
    · rw [here, isFound]
      rfl
    · rw [earlier i (Nat.le_refl i) (by omega)]
      exact ih (by omega) (by omega)
        fun place after before => earlier place (by omega) before

theorem findBit_none {left i : Nat} (inInt : i ≤ 32) (beyond : 32 < i + left)
    (missed :
      ∀ place, i ≤ place → place < 32 →
        found (base &&& (1#32 <<< place).signExtend size.bits) = false) :
    Portable.findBit base found left i = none := by
  induction left generalizing i with
  | zero =>
    omega
  | succ left ih =>
    rw [Portable.findBit]
    by_cases isEnd : i = 32
    · rw [mask_none (Nat.le_of_eq isEnd.symm), Option.bind_none]
    · rw [mask_eq (by omega), Option.bind_some,
        missed i (Nat.le_refl i) (by omega)]
      exact ih (by omega) (by omega)
        fun place after before => missed place (by omega) before

theorem bsf_spec (isSet : base ≠ 0) :
    ∃ first, X86.bsf base = some first ∧ first < size.bits ∧
      base.getLsbD first = true ∧
      ∀ place, place < first → base.getLsbD place = false := by
  cases found : X86.bsf base with
  | none =>
    refine absurd (BitVec.eq_of_getLsbD_eq fun place below => ?_) isSet
    have isClear := List.find?_eq_none.mp found place (List.mem_range.mpr below)
    simpa using isClear
  | some first =>
    obtain ⟨bit, below, earlier⟩ := List.find?_range_eq_some.mp found
    refine ⟨first, rfl, List.mem_range.mp below, bit, ?_⟩
    intro place before
    simpa using earlier place before

/--
The loop finds the lowest zero below the sign of an `int`, and one at its place
if nothing above it is set.
-/
theorem ffzBitAgrees_iff :
    FfzBitAgrees base ↔
      base = BitVec.allOnes size.bits ∨
        (∃ place, place < 31 ∧ base.getLsbD place = false) ∨
        base.getLsbD 31 = false ∧ UpperBits base false := by
  unfold FfzBitAgrees Portable.ffzBit X86.ffzBit
  by_cases hasZero : base = BitVec.allOnes size.bits
  · simp [hasZero]
  · have isSource : ~~~base ≠ 0 := by
      intro none
      have flipped := congrArg (fun word => ~~~word) none
      exact hasZero (by simpa using flipped)
    obtain ⟨first, isFirst, inWord, clear, before⟩ := bsf_spec isSource
    rw [BitVec.getLsbD_not, decide_eq_true inWord, Bool.true_and,
      Bool.not_eq_true'] at clear
    have ones (place : Nat) (below : place < first) :
        base.getLsbD place = true := by
      simpa [show place < size.bits by omega] using before place below
    have missed
        (place : Nat) (below : place < first) (inInt : place < 32) :
        decide (base &&& (1#32 <<< place).signExtend size.bits = 0) =
          false := by
      rw [decide_eq_false_iff_not, and_mask_eq_zero_iff inInt, ones place below]
      simp
    rw [isFirst, Option.map_some]
    simp only [ne_eq, hasZero, not_false_eq_true, true_implies, false_or]
    by_cases isLow : first < 31
    · have portable :=
        @findBit_found size base (fun masked => masked = 0) first size.bits 0
          (by omega) (Nat.zero_le _) (by omega)
          (fun place _ below => missed place below (by omega))
          (decide_eq_true ((and_mask_eq_zero_iff (by omega)).mpr
            ⟨clear, by omega⟩))
      exact iff_of_true portable (.inl ⟨first, isLow, clear⟩)
    · have noLow : ¬ ∃ place, place < 31 ∧ base.getLsbD place = false := by
        rintro ⟨place, below, bit⟩
        rw [ones place (by omega)] at bit
        cases bit
      by_cases hit : base.getLsbD 31 = false ∧ UpperBits base false
      · have isSign : first = 31 := by
          refine Nat.le_antisymm (Nat.le_of_not_lt fun isHigh => ?_)
            (Nat.le_of_not_lt isLow)
          rw [ones 31 isHigh] at hit
          exact Bool.noConfusion hit.1
        have portable :=
          @findBit_found size base (fun masked => masked = 0) 31 size.bits 0
            (by decide) (Nat.zero_le _) (by omega)
            (fun place _ below => missed place (by omega) (by omega))
            (decide_eq_true ((and_mask_eq_zero_iff (by decide)).mpr
              ⟨hit.1, fun _ => hit.2⟩))
        rw [isSign]
        exact iff_of_true portable (.inr hit)
      · -- a bit above an `int` is set, so the word is longer than that
        have isLong : 32 < size.bits := by
          refine Nat.lt_of_not_le fun isShort => hit ?_
          have isSign : first = 31 := by omega
          exact ⟨isSign ▸ clear, fun place _ _ => by omega⟩
        have noSign :
            decide (base &&& (1#32 <<< 31).signExtend size.bits = 0) =
              false := by
          rw [decide_eq_false_iff_not, and_mask_eq_zero_iff (by decide)]
          exact fun both => hit ⟨both.1, both.2 rfl⟩
        have portable :=
          @findBit_none size base (fun masked => masked = 0) size.bits 0
            (by decide) (by omega) fun place _ inInt => by
              rcases Nat.lt_or_eq_of_le (Nat.le_of_lt_succ inInt) with
                below | rfl
              · exact missed place (by omega) inInt
              · exact noSign
        refine iff_of_false ?_ (not_or.mpr ⟨noLow, hit⟩)
        rw [portable]
        exact nofun

/-- The loop finds every lowest bit within an `int`. -/
theorem ffsBitAgrees_iff :
    FfsBitAgrees base ↔
      base = 0 ∨ ∃ place, place < 32 ∧ base.getLsbD place = true := by
  unfold FfsBitAgrees Portable.ffsBit X86.ffsBit
  by_cases isSource : base = 0
  · simp [isSource]
  · obtain ⟨first, isFirst, inWord, isSet, before⟩ := bsf_spec isSource
    have missed
        (place : Nat) (below : place < first) (inInt : place < 31) :
        decide (base &&& (1#32 <<< place).signExtend size.bits ≠ 0) =
          false := by
      rw [decide_eq_false_iff_not, ne_eq, Decidable.not_not,
        and_mask_eq_zero_iff (by omega)]
      exact ⟨before place below, by omega⟩
    rw [isFirst, Option.map_some]
    simp only [ne_eq, isSource, not_false_eq_true, true_implies, false_or]
    by_cases inInt : first < 32
    · have hit :
          decide (base &&& (1#32 <<< first).signExtend size.bits ≠ 0) =
            true := by
        rw [decide_eq_true_iff, ne_eq, and_mask_eq_zero_iff inInt, isSet]
        simp
      have portable :=
        @findBit_found size base (fun masked => masked ≠ 0) first size.bits 0
          inInt (Nat.zero_le _) (by omega)
          (fun place _ below => missed place below (by omega)) hit
      exact iff_of_true portable ⟨first, inInt, isSet⟩
    · have hit :
          decide (base &&& (1#32 <<< 31).signExtend size.bits ≠ 0) =
            true := by
        rw [decide_eq_true_iff, ne_eq, and_mask_eq_zero_iff (by decide)]
        rintro ⟨-, sign⟩
        have clear := sign rfl first (by omega) inWord
        rw [isSet] at clear
        cases clear
      have portable :=
        @findBit_found size base (fun masked => masked ≠ 0) 31 size.bits 0
          (by decide) (Nat.zero_le _) (by omega)
          (fun place _ below => missed place (by omega) below) hit
      refine iff_of_false ?_ ?_
      · intro same
        have both := Int.ofNat.inj (Option.some.inj (portable.symm.trans same))
        omega
      · rintro ⟨place, below, bit⟩
        rw [before place (by omega)] at bit
        cases bit

end FirstBit

/--
Which operations of a port agree with those of x86 on a word and an index: the
truth values of `test_bit` never do where the words agree.
-/
theorem bitops_agree_iff (base : BitVec size.bits) (idx : Fin size.bits) :
    ¬ BitopsAgree base idx ∧
      (SetBitAgrees base idx ↔
        idx.val < 31 ∨ idx.val = 31 ∧ UpperBits base true) ∧
      (ClearBitAgrees base idx ↔
        idx.val < 31 ∨ idx.val = 31 ∧ UpperBits base false) ∧
      (TestBitAgrees base idx ↔
        idx.val = 31 ∧ base.getLsbD 31 = false ∧ ¬ UpperBits base false) ∧
      (FfzBitAgrees base ↔
        base = BitVec.allOnes size.bits ∨
          (∃ place, place < 31 ∧ base.getLsbD place = false) ∨
          base.getLsbD 31 = false ∧ UpperBits base false) ∧
      (FfsBitAgrees base ↔
        base = 0 ∨ ∃ place, place < 32 ∧ base.getLsbD place = true) := by
  refine ⟨?_, setBitAgrees_iff, clearBitAgrees_iff, testBitAgrees_iff,
    ffzBitAgrees_iff, ffsBitAgrees_iff⟩
  intro agree
  obtain ⟨isSign, -, notZero⟩ := testBitAgrees_iff.mp agree.testBit
  rcases clearBitAgrees_iff.mp agree.clearBit with isLow | ⟨-, allZero⟩
  · omega
  · exact notZero allZero

/-- No bit of zero is set, and a port takes the first one for set. -/
theorem zero_testBit_disagrees :
    Portable.testBit (0 : BitVec WordSize.four.bits) 0 = some (-1) ∧
      X86.testBit (0 : BitVec WordSize.four.bits) 0 = 0 ∧
      ¬ BitopsAgree (0 : BitVec WordSize.four.bits) 0 := by
  refine ⟨by decide, by decide, fun agree => ?_⟩
  obtain ⟨result, isResult, truth⟩ := agree.testBit
  have isNegative : result = -1 := by
    cases isResult
    decide
  exact absurd (truth.mp (by omega)) (by decide)

end Idylla.Kernel
