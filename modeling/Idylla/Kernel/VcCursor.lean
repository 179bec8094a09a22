import Idylla.Kernel.Vc
import Idylla.Lib.Run

namespace Idylla.Kernel

open Idylla.Lib

/-!
# The cursor of the console

The last lines of `vc_putch` bring the cursor back from one row below the
screen.  All motions end there or higher but those that take the row from an
argument without comparing it with anything.
-/

/-- The position is on the screen. -/
def Vc.Shows (vc : Vc) (csr : VcCsr) : Prop :=
  csr.col < vc.width ∧ csr.row < vc.height

/-- The cursor and the saved ones are on the screen, and the counts in range. -/
structure Vc.Inside (vc : Vc) : Prop where
  csr : vc.Shows vc.csr
  saves : ∀ i, i < vc.savesCount → vc.Shows (vc.saves i)
  savesCount : vc.savesCount ≤ VC_MAX_SAVES

/-- A byte takes a console inside to one inside and writes on the screen. -/
def KeepsInside (vc : Vc) (c : BitVec 8) : Prop :=
  (vcPutch c vc).vc.Inside ∧
    ∀ csr char, .putc csr char ∈ (vcPutch c vc).calls →
      csr.row.toNat * vc.width.toNat + csr.col.toNat <
        vc.width.toNat * vc.height.toNat

/-- The byte ends a sequence. -/
def Vc.Ends (vc : Vc) (c : BitVec 8) : Prop :=
  (vc.esc = 2 ∧ ¬ isdigit c ∧ ¬ (c = code ';' ∧ vc.argc < VC_MAX_ARGS - 1)) ∨
    vc.esc = 3

/--
A motion up that ends a sequence goes at most to the row behind the screen, and
so does a position; its column may lie beyond the line, which then is full.
-/
structure MotionFits (vc : Vc) (c : BitVec 8) : Prop where
  up : c = code 'A' ∨ c = code 'F' →
      vc.csr.row - (if vc.argv 0 = 0 then 1 else vc.argv 0) ≤ vc.height
  position : c = code 'H' ∨ c = code 'f' →
      let row := if vc.argv 0 = 0 then 0 else vc.argv 0 - 1
      let col := if vc.argv 1 = 0 then 0 else vc.argv 1 - 1
      (if col < vc.width then row else row + 1) ≤ vc.height

/-- The condition on a byte: it ends no sequence, or its motion fits. -/
def Fits (vc : Vc) (c : BitVec 8) : Prop :=
  vc.Ends c → MotionFits vc c

/-- A byte given to a console. -/
def VcStep (vc : Vc) (c : BitVec 8) (next : Vc) : Prop :=
  next = (vcPutch c vc).vc

/-- The last lines of `vc_putch` bring this cursor back. -/
def Vc.Lands (vc : Vc) : Prop :=
  (if vc.csr.col < vc.width then vc.csr.row else vc.csr.row + 1) ≤ vc.height

namespace Vc

variable {vc after : Vc} {c : BitVec 8} {ends : VcEnds} {fits : Prop}

/-- The size stays, and what is saved is on the screen. -/
structure Keeps (vc after : Vc) : Prop where
  width : after.width = vc.width
  height : after.height = vc.height
  saves : ∀ i, i < after.savesCount → vc.Shows (after.saves i)
  savesCount : after.savesCount ≤ VC_MAX_SAVES

/-- What the switch does with a byte whose motion fits or not. -/
structure Moves (vc : Vc) (fits : Prop) (ends : VcEnds) : Prop where
  keeps : vc.Keeps ends.vc
  lands : ends.vc.Lands ↔ fits
  putc : ∀ csr char, .putc csr char ∈ ends.calls → csr = vc.csr

section Keeps

variable (keeps : vc.Keeps after)

include keeps

theorem Keeps.moveTo (col row : BitVec 32) : vc.Keeps (after.moveTo col row) :=
  ⟨keeps.width, keeps.height, keeps.saves, keeps.savesCount⟩

theorem Keeps.atLeastOne : vc.Keeps after.atLeastOne := by
  unfold Vc.atLeastOne
  split
  · exact ⟨keeps.width, keeps.height, keeps.saves, keeps.savesCount⟩
  · exact keeps

theorem Keeps.fromZero (i : Nat) : vc.Keeps (after.fromZero i) := by
  unfold Vc.fromZero
  split
  · exact keeps
  · exact ⟨keeps.width, keeps.height, keeps.saves, keeps.savesCount⟩

theorem Keeps.motion : vc.Keeps (after.motion c) := by
  unfold Vc.motion
  repeat' split
  all_goals first | exact keeps | exact keeps.moveTo _ _

theorem Keeps.inside_iff (shown : vc.Shows vc.csr) :
    after.wrap.scroll.Inside ↔ after.Lands := by
  obtain ⟨colBelow, rowBelow⟩ := shown
  obtain ⟨sameWidth, sameHeight, saves, savesCount⟩ := keeps
  have iff : after.wrap.scroll.Shows after.wrap.scroll.csr ↔ after.Lands := by
    unfold Shows Lands scroll wrap Vc.moveTo
    by_cases full : after.width ≤ after.csr.col
    · have notBelow : ¬ after.csr.col < after.width := by bv_omega
      simp only [if_pos full, if_neg notBelow]
      split <;> bv_omega
    · have below : after.csr.col < after.width := by bv_omega
      simp only [if_neg full, if_pos below]
      split <;> bv_omega
  have kept : after.wrap.scroll.width = vc.width ∧
      after.wrap.scroll.height = vc.height ∧
      after.wrap.scroll.saves = after.saves ∧
      after.wrap.scroll.savesCount = after.savesCount := by
    unfold scroll wrap Vc.moveTo
    split <;> split <;> exact ⟨sameWidth, sameHeight, rfl, rfl⟩
  obtain ⟨isWidth, isHeight, isSaves, isCount⟩ := kept
  refine ⟨fun inside => iff.mp inside.csr,
    fun lands => ⟨iff.mpr lands, fun i below => ?_, isCount ▸ savesCount⟩⟩
  unfold Shows
  rw [isWidth, isHeight, isSaves]
  exact saves i (isCount ▸ below)

end Keeps

theorem Lands.of_row (below : vc.csr.row < vc.height) : vc.Lands := by
  unfold Lands
  split <;> bv_omega

theorem Moves.calm (keeps : vc.Keeps ends.vc)
    (below : ends.vc.csr.row < vc.height) (holds : fits)
    (noCall : ∀ csr char, .putc csr char ∉ ends.calls) : vc.Moves fits ends :=
  ⟨keeps, iff_of_true (.of_row (keeps.height ▸ below)) holds,
    fun csr char isCall => absurd isCall (noCall csr char)⟩

theorem motion_lands_iff (shown : vc.Shows vc.csr) (isMotion : IsMotion c) :
    (vc.motion c).Lands ↔
      (c = code 'A' ∨ c = code 'F' → vc.csr.row - vc.argv 0 ≤ vc.height) := by
  obtain ⟨colBelow, rowBelow⟩ := shown
  have some : 0 < vc.width := by bv_omega
  unfold motion
  simp only [IsMotion, List.mem_cons, List.not_mem_nil, or_false] at isMotion
  rcases isMotion with rfl | rfl | rfl | rfl | rfl | rfl
  · rw [if_pos rfl, if_pos (by bv_omega)]
    unfold Lands Vc.moveTo
    rw [if_pos colBelow]
    exact ⟨fun lands _ => lands, fun lands => lands (.inl rfl)⟩
  case inr.inr.inr.inr.inr =>
    iterate 5 rw [if_neg (by decide)]
    split
    · unfold Lands Vc.moveTo
      rw [if_pos some]
      exact ⟨fun lands _ => lands, fun lands => lands (.inr rfl)⟩
    · exact iff_of_true (.of_row rowBelow) fun _ => by bv_omega
  all_goals
    refine iff_of_true ?_ fun isUp => absurd isUp (by decide)
    repeat rw [if_neg (by decide)]
    rw [if_pos rfl]
    split
    next below => first | exact .of_row below | exact .of_row rowBelow
    · exact .of_row rowBelow

theorem atLeastOne_eq :
    vc.atLeastOne.csr = vc.csr ∧ vc.atLeastOne.width = vc.width ∧
      vc.atLeastOne.height = vc.height ∧
      vc.atLeastOne.argv 0 = if vc.argv 0 = 0 then 1 else vc.argv 0 := by
  unfold atLeastOne
  split <;> exact ⟨rfl, rfl, rfl, rfl⟩

theorem fromZero_argv {i other : Nat} :
    (vc.fromZero i).argv other =
      if other = i ∧ vc.argv i ≠ 0 then vc.argv i - 1 else vc.argv other := by
  unfold fromZero setArg
  split <;> simp_all

/-- The byte that ends a sequence. -/
theorem control_moves (inside : vc.Inside) :
    vc.Moves (MotionFits vc c) (vc.control c) := by
  have keeps : vc.Keeps vc := ⟨rfl, rfl, inside.saves, inside.savesCount⟩
  have below := inside.csr.2
  have noCall (csr : VcCsr) (char : BitVec 8) :
      VcCall.putc csr char ∉ [] := List.not_mem_nil
  unfold control
  split
  next isMotion =>
    obtain ⟨isCsr, isWidth, isHeight, isArg⟩ := @atLeastOne_eq vc
    refine ⟨keeps.atLeastOne.motion, (motion_lands_iff ?_ isMotion).trans ?_,
      fun csr char isCall => absurd isCall (noCall csr char)⟩
    · unfold Shows
      rw [isCsr, isWidth, isHeight]
      exact inside.csr
    rw [isCsr, isHeight, isArg]
    refine ⟨fun up => ⟨up, ?_⟩, fun fits => fits.up⟩
    rintro (rfl | rfl) <;> exact absurd isMotion (by decide)
  next notMotion =>
    have notUp : ¬ (c = code 'A' ∨ c = code 'F') := by
      rintro (rfl | rfl) <;> exact notMotion (by decide)
    by_cases isPosition : c = code 'H' ∨ c = code 'f'
    · have keepsArgs := ((keeps.fromZero 0).fromZero 1).moveTo
        (((vc.fromZero 0).fromZero 1).argv 1)
        (((vc.fromZero 0).fromZero 1).argv 0)
      rw [if_neg (by rcases isPosition with rfl | rfl <;> decide),
        if_pos isPosition]
      refine ⟨keepsArgs, ?_,
        fun csr char isCall => absurd isCall (noCall csr char)⟩
      have isArgs : ((vc.fromZero 0).fromZero 1).argv 0 =
              (if vc.argv 0 = 0 then 0 else vc.argv 0 - 1) ∧
            ((vc.fromZero 0).fromZero 1).argv 1 =
              (if vc.argv 1 = 0 then 0 else vc.argv 1 - 1) := by
        simp only [fromZero_argv]
        constructor <;> grind
      unfold Lands
      rw [keepsArgs.width, keepsArgs.height]
      simp only [Vc.moveTo, isArgs.1, isArgs.2]
      exact ⟨fun lands => ⟨fun isUp => absurd isUp notUp, fun _ => lands⟩,
        fun fits => fits.position isPosition⟩
    · have fits : MotionFits vc c :=
        ⟨fun isUp => absurd isUp notUp, fun isAt => absurd isAt isPosition⟩
      have sameRow : (vc.fromZero 0).csr = vc.csr := by
        unfold fromZero
        split <;> rfl
      split
      · dsimp only
        split
        · exact .calm ((keeps.fromZero 0).moveTo _ _) (sameRow ▸ below) fits
            noCall
        · exact .calm (keeps.fromZero 0) (sameRow ▸ below) fits noCall
      split
      · split
        next room =>
          refine .calm ⟨rfl, rfl, fun i isSaved => ?_, ?_⟩ below fits noCall
          · dsimp only at isSaved ⊢
            split
            · exact inside.csr
            · exact inside.saves i (by omega)
          · exact Nat.lt_succ_of_lt room
        · exact .calm keeps below fits noCall
      split
      · split
        next some =>
          refine .calm ⟨rfl, rfl, fun i isSaved => ?_, ?_⟩
            (inside.saves _ (Nat.sub_one_lt_of_lt some)).2 fits noCall
          · exact inside.saves i (Nat.lt_of_lt_of_le isSaved (Nat.sub_le _ _))
          · exact Nat.le_trans (Nat.sub_le _ _) inside.savesCount
        · exact .calm keeps below fits noCall
      split
      · split
        · exact .calm (keeps.moveTo _ _) below fits (by simp)
        · exact .calm keeps below fits (by simp)
      split
      · split
        · exact .calm (keeps.moveTo _ _) (show 0 < vc.height by bv_omega) fits
            (by simp)
        · exact .calm keeps below fits (by simp)
      split
      · refine .calm keeps below fits fun csr char => ?_
        split <;> simp
      · exact .calm keeps below fits noCall

/-- A byte given to the parser in any state. -/
theorem parse_moves (inside : vc.Inside) :
    vc.Moves (Fits vc c) (vc.parse c) := by
  have control := @control_moves vc c inside
  obtain ⟨⟨colBelow, below⟩, saves, savesCount⟩ := inside
  have keeps : vc.Keeps vc := ⟨rfl, rfl, saves, savesCount⟩
  have noCall (csr : VcCsr) (char : BitVec 8) :
      VcCall.putc csr char ∉ [] := List.not_mem_nil
  by_cases ends : vc.Ends c
  · have isFinal : vc.parse c = vc.final c := by
      unfold parse
      rcases ends with ⟨isTwo, notDigit, notSeparator⟩ | isThree
      · rw [isTwo, if_neg (by decide), if_neg (by decide), if_pos rfl]
        unfold arguments
        rw [if_neg notSeparator, if_neg notDigit]
      · rw [isThree, if_neg (by decide), if_neg (by decide),
          if_neg (by decide), if_pos rfl]
    obtain ⟨⟨width, height, saved, counted⟩, lands, putc⟩ := control
    rw [isFinal]
    exact ⟨⟨width, height, saved, counted⟩,
      lands.trans ⟨fun fits _ => fits, fun fits => fits ends⟩, putc⟩
  · have fits : Fits vc c := fun doesEnd => absurd doesEnd ends
    unfold parse
    split
    · have newline : (vc.moveTo 0 (vc.csr.row + 1)).Lands := by
        unfold Lands Vc.moveTo
        rw [if_pos (show 0 < vc.width by bv_omega)]
        bv_omega
      unfold ground
      repeat' split
      all_goals
        first
        | exact .calm ⟨rfl, rfl, saves, savesCount⟩ below fits noCall
        | exact ⟨keeps.moveTo _ _, iff_of_true newline fits,
            fun csr char isCall => absurd isCall (noCall csr char)⟩
        | exact ⟨keeps.moveTo _ _, iff_of_true (.of_row below) fits,
            fun csr char isCall =>
              (VcCall.putc.inj (List.mem_singleton.mp isCall)).1⟩
    split
    · exact .calm ⟨rfl, rfl, saves, savesCount⟩ below fits noCall
    split
    next isTwo =>
      unfold arguments
      split
      · exact .calm ⟨rfl, rfl, saves, savesCount⟩ below fits noCall
      next notSeparator =>
        split
        · exact .calm ⟨rfl, rfl, saves, savesCount⟩ below fits noCall
        next notDigit =>
          exact absurd (.inl ⟨isTwo, notDigit, notSeparator⟩) ends
    split
    next isThree => exact absurd (.inr isThree) ends
    · exact .calm keeps below fits noCall

end Vc

theorem keepsInside_iff {vc : Vc} (inside : vc.Inside) (c : BitVec 8) :
    KeepsInside vc c ↔ Fits vc c := by
  have moves := @Vc.parse_moves vc c inside
  have writes (csr : VcCsr) (char : BitVec 8)
      (isCall : .putc csr char ∈ (vcPutch c vc).calls) :
      csr.row.toNat * vc.width.toNat + csr.col.toNat <
        vc.width.toNat * vc.height.toNat := by
    have isDrawn : .putc csr char ∈ (vc.parse c).calls := by
      simp only [vcPutch, List.mem_append] at isCall
      rcases isCall with (isParsed | isScroll) | isMove
      · exact isParsed
      · split at isScroll <;> simp at isScroll
      · split at isMove <;> simp at isMove
    rw [moves.putc csr char isDrawn]
    obtain ⟨colBelow, rowBelow⟩ := inside.csr
    calc
      vc.csr.row.toNat * vc.width.toNat + vc.csr.col.toNat
        < vc.csr.row.toNat * vc.width.toNat + vc.width.toNat :=
          Nat.add_lt_add_left (BitVec.lt_def.mp colBelow) _
      _ = (vc.csr.row.toNat + 1) * vc.width.toNat := (Nat.succ_mul _ _).symm
      _ ≤ vc.height.toNat * vc.width.toNat :=
          Nat.mul_le_mul_right _ (BitVec.lt_def.mp rowBelow)
      _ = vc.width.toNat * vc.height.toNat := Nat.mul_comm _ _
  refine (and_iff_left writes).trans ?_
  exact (moves.keeps.inside_iff inside.csr).trans moves.lands

/--
The runs in which the cursor and the saved cursors stay on the screen, and
every character is drawn there, are those in which every motion up and every
position fits.
-/
theorem cursor_inside_iff {first last : Vc} {bytes : List (BitVec 8)}
    (inside : first.Inside) :
    Run (Guarded KeepsInside VcStep) first bytes last ↔
      Run (Guarded Fits VcStep) first bytes last := by
  refine Run.iff_of_invariant Vc.Inside inside ?_ ?_
  · rintro vc c next - ⟨keeps, rfl⟩
    exact keeps.1
  · intro vc c next inside
    exact and_congr_left fun _ => keepsInside_iff inside c

theorem vcBoot_inside : vcBoot.Inside :=
  ⟨⟨by decide, by decide⟩, fun _ below => absurd below (Nat.not_lt_zero _),
    by decide⟩

/-- A line feed keeps the cursor on the screen. -/
theorem newline_inside :
    Run (Guarded KeepsInside VcStep) vcBoot [code '\n']
      (vcPutch (code '\n') vcBoot).vc :=
  (cursor_inside_iff vcBoot_inside).mpr
    (.single ⟨fun ends => absurd ends (by unfold Vc.Ends; decide), rfl⟩)

/-- `ESC[A` in the first row. -/
theorem motionUp_outside :
    ¬ ∀ (vc : Vc) (bytes : List (BitVec 8)),
      vc.Inside → (vc.feed bytes).Inside := by
  intro inside
  have shown := inside vcBoot [0x1b, code '[', code 'A'] vcBoot_inside
  exact absurd shown.csr.2 (by decide)

end Idylla.Kernel
