import Idylla.Mm.PhysAlloc

namespace Idylla.Mm

open Idylla.Lib

/-!
# Where the search for free frames ends

`_alloc_frames` goes on with the whole word in which a run of free frames broke
off.  It makes progress where the run ends with a word, and where it ends inside
of one, it finds the same frame again.  A run at the end of the bitmap takes it
behind the last word.
-/

namespace FrameBitmap

variable {bitmap after : FrameBitmap} {len i : Nat}

/-- The bits of some frames have been written, and no others. -/
structure Wrote
    (value : Bool) (first count : Nat)
    (before after : FrameBitmap) : Prop where
  items : after.items = before.items
  bit : ∀ frame, after.words.bit frame =
    if first ≤ frame ∧ frame < first + count then value
    else before.words.bit frame

theorem overFrames_wrote
    {access : FrameBitmap → Nat → Option FrameBitmap} {value : Bool}
    (writes :
      ∀ before x, x < before.items →
        ∃ after, access before x = some after ∧ Wrote value x 1 before after)
    {count : Nat} (inside : i + count ≤ bitmap.items) :
    ∃ after, overFrames access i count bitmap = some after ∧
      Wrote value i count bitmap after := by
  induction count generalizing i bitmap with
  | zero =>
    refine ⟨bitmap, rfl, rfl, fun frame => ?_⟩
    rw [if_neg (by omega)]
  | succ count ih =>
    obtain ⟨middle, isMiddle, first⟩ := writes bitmap i (by omega)
    obtain ⟨after, isAfter, rest⟩ :=
      @ih middle (i + 1) (by rw [first.items]; omega)
    refine ⟨after, ?_, rest.items.trans first.items, fun frame => ?_⟩
    · rw [overFrames, isMiddle, Option.bind_some, isAfter]
    · rw [rest.bit, first.bit]
      split
      next inRest => rw [if_pos (by omega)]
      next notInRest =>
        split
        next isFirst => rw [if_pos (by omega)]
        next notFirst => rw [if_neg (by omega)]

theorem setFrame_wrote (before : FrameBitmap) (x : Nat)
    (inside : x < before.items) :
    ∃ after, before.setFrame x = some after ∧ Wrote true x 1 before after := by
  refine ⟨_, if_pos inside, rfl, fun frame => ?_⟩
  rw [Bitmap.bit_setBit (by decide)]
  simp only [show x ≤ frame ∧ frame < x + 1 ↔ frame = x by omega]

theorem clearFrame_wrote (before : FrameBitmap) (x : Nat)
    (inside : x < before.items) :
    ∃ after, before.clearFrame x = some after ∧
      Wrote false x 1 before after := by
  refine ⟨_, if_pos inside, rfl, fun frame => ?_⟩
  rw [Bitmap.bit_clearBit (by decide)]
  simp only [show x ≤ frame ∧ frame < x + 1 ↔ frame = x by omega]

theorem size_mul (bitmap : FrameBitmap) :
    32 * bitmap.size = bitmap.items := by
  have whole := bitmap.whole
  unfold size sizeofLong
  omega

theorem findFirstZero_cases (bitmap : FrameBitmap) (i : Nat) :
    bitmap.findFirstZero i = 0 ∧
        (∀ frame, i / 32 * 32 ≤ frame → ¬ bitmap.Free frame) ∨
      FirstFree bitmap.Free (i / 32 * 32) (bitmap.findFirstZero i) := by
  have size := bitmap.size_mul
  unfold findFirstZero
  cases found :
      (List.range' (i / 32) (bitmap.size - i / 32)).find? fun i =>
        bitmap.words i != BitVec.allOnes 32 with
  | none =>
    refine .inl ⟨rfl, fun frame behind isFree => ?_⟩
    have ones :=
      List.find?_eq_none.mp found (frame / 32)
        (List.mem_range'_1.mpr ⟨by omega, by have := isFree.1; omega⟩)
    have isSet : bitmap.words.bit frame = true :=
      Bitmap.bit_of_allOnes (by decide) (by simpa using ones)
    rw [isFree.2] at isSet
    cases isSet
  | some word =>
    obtain ⟨hasZero, member, earlier⟩ := List.find?_range'_eq_some.mp found
    obtain ⟨small, isZero, before⟩ :=
      Bitmap.firstZero_spec (bne_iff_ne.mp hasZero)
    have within := List.mem_range'_1.mp member
    dsimp only [sizeofLong]
    refine .inr ⟨by omega, ⟨by omega, ?_⟩, fun other behind isFree => ?_⟩
    · unfold Bitmap.bit
      rw [show (word * 4 * 8 + Bitmap.firstZero (bitmap.words word)) / 32 =
          word by omega,
        show (word * 4 * 8 + Bitmap.firstZero (bitmap.words word)) % 32 =
          Bitmap.firstZero (bitmap.words word) by omega]
      exact isZero
    · apply Decidable.byContradiction
      intro notBehind
      have isSet : bitmap.words.bit other = true := by
        by_cases sameWord : other / 32 = word
        · unfold Bitmap.bit
          rw [sameWord]
          exact before _ (by omega)
        · refine Bitmap.bit_of_allOnes (by decide) ?_
          have ones := earlier (other / 32) (by omega) (by omega)
          simpa using ones
      rw [isFree.2] at isSet
      cases isSet

/-- What the counting loop says about the frames from `i` on. -/
def Counted (bitmap : FrameBitmap) (i c : Nat) : RunCheck → Prop
  | .enough => FreeRun bitmap.Free i c
  | .taken last =>
    FreeRun bitmap.Free i (last - i) ∧ i ≤ last ∧ last < i + c ∧
      last < bitmap.items ∧ ¬ bitmap.Free last
  | .outside =>
    FreeRun bitmap.Free i (bitmap.items - i) ∧ bitmap.items < i + c

theorem countDown_counted {c : Nat} (inside : i ≤ bitmap.items) :
    bitmap.Counted i c (bitmap.countDown c i) := by
  induction c generalizing i with
  | zero =>
    intro frame above below
    omega
  | succ c ih =>
    unfold countDown testFrame
    by_cases isItem : i < bitmap.items
    · rw [if_pos isItem]
      cases isSet : bitmap.words.bit i with
      | true =>
        refine ⟨fun frame above below => by omega, by omega, by omega,
          isItem, fun isFree => ?_⟩
        rw [isFree.2] at isSet
        cases isSet
      | false =>
        have isFree : bitmap.Free i := ⟨isItem, isSet⟩
        have rest := @ih (i + 1) isItem
        cases check : bitmap.countDown c (i + 1) with
        | enough =>
          rw [check] at rest
          exact .cons isFree rest
        | taken last =>
          rw [check] at rest
          obtain ⟨run, behind, near, isItem, inUse⟩ := rest
          refine ⟨?_, by omega, by omega, isItem, inUse⟩
          rw [show last - i = last - (i + 1) + 1 by omega]
          exact .cons isFree run
        | outside =>
          rw [check] at rest
          refine ⟨?_, by have := rest.2; omega⟩
          rw [show bitmap.items - i = bitmap.items - (i + 1) + 1 by
            omega]
          exact .cons isFree rest.1
    · rw [if_neg isItem]
      exact ⟨fun frame above below => by omega, by omega⟩

/-- How one round of the loop comes out that looks from a frame on. -/
inductive Round (bitmap : FrameBitmap) (len base : Nat) :
    PhysOutcome ⊕ Nat → Prop where
  | zero (isZero : base = 0)
      (isFree : bitmap.Free 0) :
      Round bitmap len base (.inl (.returns bitmap 0))
  | nothing
      (noneFree : ∀ frame, base ≤ frame → ¬ bitmap.Free frame) :
      Round bitmap len base (.inl (.returns bitmap 0))
  | enough {first : Nat} {after : FrameBitmap}
      (found : FirstFree bitmap.Free base first)
      (notZero : first ≠ 0)
      (run : FreeRun bitmap.Free first len)
      (wrote : Wrote true first len bitmap after) :
      Round bitmap len base (.inl (.returns after (first * PAGE_SIZE % 2 ^ 32)))
  | broken {first last : Nat} (found : FirstFree bitmap.Free base first)
      (notZero : first ≠ 0)
      (run : FreeRun bitmap.Free first (last - first))
      (behind : first < last)
      (short : last < first + len)
      (inside : last < bitmap.items)
      (inUse : ¬ bitmap.Free last) :
      Round bitmap len base (.inr last)
  | outside {first : Nat} (found : FirstFree bitmap.Free base first)
      (notZero : first ≠ 0)
      (run : FreeRun bitmap.Free first (bitmap.items - first))
      (short : bitmap.items < first + len) :
      Round bitmap len base (.inl .outside)

theorem allocRound_cases (bitmap : FrameBitmap) (positive : 0 < len) (i : Nat) :
    Round bitmap len (i / 32 * 32) (bitmap.allocRound len i) := by
  unfold allocRound
  obtain ⟨isZero, noneFree⟩ | found := bitmap.findFirstZero_cases i
  · rw [if_pos isZero]
    exact .nothing noneFree
  · by_cases isZero : bitmap.findFirstZero i = 0
    · rw [if_pos isZero]
      rw [isZero] at found
      exact .zero (Nat.le_zero.mp found.behind) found.isFree
    · rw [if_neg isZero]
      have counted :=
        @countDown_counted bitmap _ len (Nat.le_of_lt found.isFree.1)
      cases check : bitmap.countDown len (bitmap.findFirstZero i) with
      | outside =>
        rw [check] at counted
        exact .outside found isZero counted.1 counted.2
      | taken last =>
        rw [check] at counted
        obtain ⟨run, behind, short, inside, inUse⟩ := counted
        refine .broken found isZero run ?_ short inside inUse
        refine Nat.lt_of_le_of_ne behind ?_
        rintro rfl
        exact inUse found.isFree
      | enough =>
        rw [check] at counted
        have lastFree :=
          counted (bitmap.findFirstZero i + (len - 1)) (by omega) (by omega)
        obtain ⟨after, isAfter, wrote⟩ :=
          @overFrames_wrote bitmap (bitmap.findFirstZero i) _ _
            setFrame_wrote len (by have := lastFree.1; omega)
        rw [isAfter]
        exact .enough found isZero counted wrote

/--
A frame in use behind a free one, where the run of free frames ends inside of a
word or with the bitmap.
-/
def StopsShort (bitmap : FrameBitmap) (frame : Nat) : Prop :=
  bitmap.Free (frame - 1) ∧ ¬ bitmap.Free frame ∧
    (frame % 32 ≠ 0 ∨ frame = bitmap.items)

/-- Before every such frame there are as many free frames as are looked for. -/
def SearchEnds (bitmap : FrameBitmap) (len base : Nat) : Prop :=
  ∀ frame, base < frame → bitmap.StopsShort frame →
    HasRun bitmap.Free len base frame

/-- The same for the frames that stop short inside of the bitmap. -/
def SearchStops (bitmap : FrameBitmap) (len base : Nat) : Prop :=
  ∀ frame, base < frame → frame ≠ bitmap.items → bitmap.StopsShort frame →
    HasRun bitmap.Free len base frame

/-- The search from a frame on comes to the end of the bitmap in a free run. -/
structure Escapes (bitmap : FrameBitmap) (len base : Nat) : Prop where
  notZero : base = 0 → ¬ bitmap.Free 0
  noRun : ∀ first, base ≤ first → ¬ FreeRun bitmap.Free first len
  behind : base < bitmap.items
  atEnd : bitmap.Free (bitmap.items - 1)
  noStop :
    ∀ frame, base < frame → bitmap.StopsShort frame → frame = bitmap.items

/-- How the loop comes out when it ends. -/
inductive Ended (bitmap : FrameBitmap) (len base : Nat) :
    PhysOutcome → Prop where
  | zero (isZero : base = 0)
      (isFree : bitmap.Free 0) :
      Ended bitmap len base (.returns bitmap 0)
  | nothing (noRun : ∀ first, base ≤ first → ¬ FreeRun bitmap.Free first len)
      (ends : bitmap.SearchEnds len base) :
      Ended bitmap len base (.returns bitmap 0)
  | found {first : Nat} {after : FrameBitmap}
      (isFirst : FirstRun bitmap.Free len base first)
      (notZero : base = 0 → ¬ bitmap.Free 0)
      (wrote : Wrote true first len bitmap after)
      (ends : bitmap.SearchEnds len base) :
      Ended bitmap len base (.returns after (first * PAGE_SIZE % 2 ^ 32))
  | outside
      (escapes : bitmap.Escapes len base) :
      Ended bitmap len base .outside

theorem allocLoop_of_again (again : bitmap.allocRound len i = .inr i)
    (rounds : Nat) : bitmap.allocLoop len rounds i = none := by
  induction rounds with
  | zero =>
    rfl
  | succ rounds ih =>
    rw [allocLoop, again]
    exact ih

theorem allocLoop_more {rounds : Nat} {outcome : PhysOutcome}
    (ended : bitmap.allocLoop len rounds i = some outcome) (more : Nat) :
    bitmap.allocLoop len (rounds + more) i = some outcome := by
  induction rounds generalizing i with
  | zero =>
    cases ended
  | succ rounds ih =>
    rw [Nat.add_right_comm]
    rw [allocLoop] at ended ⊢
    cases round : bitmap.allocRound len i with
    | inl outcome =>
      rw [round] at ended
      exact ended
    | inr next =>
      rw [round] at ended
      exact ih ended

section Broken

variable {base first last : Nat} (found : FirstFree bitmap.Free base first)
  (notZero : first ≠ 0) (run : FreeRun bitmap.Free first (last - first))
  (behind : first < last) (short : last < first + len)
  (inside : last < bitmap.items) (inUse : ¬ bitmap.Free last)
include found run

theorem le_of_stopsShort {frame : Nat} (later : base < frame)
    (stops : bitmap.StopsShort frame) : last ≤ frame := by
  have fromFirst := found.least (frame - 1) (by omega) stops.1
  apply Decidable.byContradiction
  intro before
  exact stops.2.1 (run frame (by omega) (by omega))

include notZero behind short inside inUse in
theorem allocRound_again (positive : 0 < len) (notWhole : last % 32 ≠ 0)
    (aligned : base % 32 = 0) : bitmap.allocRound len last = .inr last := by
  have fromFirst := found.behind
  have lastFree : bitmap.Free (last - 1) := run _ (by omega) (by omega)
  have round := bitmap.allocRound_cases positive last
  generalize bitmap.allocRound len last = outcome at round
  cases round with
  | zero isZero isFree =>
    exact absurd (found.least 0 (by omega) isFree) (by omega)
  | nothing noneFree =>
    exact absurd lastFree (noneFree _ (by omega))
  | @enough again after foundAgain _ runAgain _ =>
    have atMost := foundAgain.least _ (by omega) lastFree
    have atLeast :=
      found.least again (by have := foundAgain.behind; omega) foundAgain.isFree
    exact absurd (runAgain last (by omega) (by omega)) inUse
  | @broken again lastAgain foundAgain _ runAgain behindAgain _ _ inUseAgain =>
    have atMost := foundAgain.least _ (by omega) lastFree
    have atLeast :=
      found.least again (by have := foundAgain.behind; omega) foundAgain.isFree
    obtain before | same | later := Nat.lt_trichotomy lastAgain last
    · exact absurd (run lastAgain (by omega) (by omega)) inUseAgain
    · rw [same]
    · exact absurd (runAgain last (by omega) (by omega)) inUse
  | @outside again foundAgain _ runAgain _ =>
    have atMost := foundAgain.least _ (by omega) lastFree
    exact absurd (runAgain last (by omega) (by omega)) inUse

include notZero behind short inside inUse in
/-- Behind a run that ends with a word, the search goes on as from its start. -/
theorem Ended.of_break {outcome : PhysOutcome} (positive : 0 < len)
    (isWhole : last % 32 = 0) (rest : Ended bitmap len last outcome) :
    Ended bitmap len base outcome := by
  have fromFirst := found.behind
  have hides : base = 0 → ¬ bitmap.Free 0 := by
    rintro isZero isFree
    exact notZero (Nat.le_zero.mp (found.least 0 (by omega) isFree))
  have ends : bitmap.SearchEnds len last → bitmap.SearchEnds len base := by
    intro ends frame later stops
    have atLeast := le_of_stopsShort found run later stops
    have different : frame ≠ last := by
      rintro rfl
      obtain notWhole | isEnd := stops.2.2 <;> omega
    obtain ⟨other, above, below, isRun⟩ := ends frame (by omega) stops
    exact ⟨other, by omega, below, isRun⟩
  have noneBefore
      (noRun : ∀ first, last ≤ first → ¬ FreeRun bitmap.Free first len)
      (other : Nat)
      (above : base ≤ other) :
      ¬ FreeRun bitmap.Free other len := by
    intro isRun
    have later := found.behind_break positive inUse short above isRun
    exact noRun other (by omega) isRun
  cases rest with
  | zero isZero isFree =>
    omega
  | nothing noRun rest =>
    exact .nothing (noneBefore noRun) (ends rest)
  | found isFirst _ wrote rest =>
    exact .found
      (found.firstRun_of_break positive inUse short (by omega) isFirst)
      hides wrote (ends rest)
  | outside escapes =>
    refine .outside
      ⟨hides, noneBefore escapes.noRun, by omega, escapes.atEnd, ?_⟩
    intro frame later stops
    have atLeast := le_of_stopsShort found run later stops
    obtain notWhole | isEnd := stops.2.2
    · exact escapes.noStop frame (by omega) stops
    · exact isEnd

include behind short inside inUse in
theorem SearchStops.whole (positive : 0 < len)
    (ends : bitmap.SearchStops len base) :
    last % 32 = 0 ∧ bitmap.SearchStops len last := by
  have fromFirst := found.behind
  constructor
  · apply Decidable.byContradiction
    intro notWhole
    have stops : bitmap.StopsShort last :=
      ⟨run _ (by omega) (by omega), inUse, .inl notWhole⟩
    obtain ⟨other, above, below, isRun⟩ := ends last (by omega) (by omega) stops
    have later := found.behind_break positive inUse short above isRun
    omega
  · intro frame later notEnd stops
    obtain ⟨other, above, below, isRun⟩ := ends frame (by omega) notEnd stops
    have laterRun := found.behind_break positive inUse short above isRun
    exact ⟨other, by omega, below, isRun⟩

end Broken

/-- What the loop has come to when it ends. -/
theorem allocLoop_ended {rounds : Nat} {outcome : PhysOutcome}
    (positive : 0 < len)
    (ended : bitmap.allocLoop len rounds i = some outcome) :
    Ended bitmap len (i / 32 * 32) outcome := by
  induction rounds generalizing i with
  | zero =>
    cases ended
  | succ rounds ih =>
    rw [allocLoop] at ended
    have cases := bitmap.allocRound_cases positive i
    generalize round : bitmap.allocRound len i = result at ended cases
    cases cases with
    | zero isZero isFree =>
      cases ended
      exact .zero isZero isFree
    | nothing noneFree =>
      cases ended
      refine .nothing (fun first above isRun => ?_) ?_
      · exact noneFree first above (isRun.head positive)
      · intro frame later stops
        exact absurd stops.1 (noneFree _ (by omega))
    | @enough first after found notZero run wrote =>
      cases ended
      refine .found (found.firstRun positive run) ?_ wrote ?_
      · intro isZero isFree
        exact notZero (Nat.le_zero.mp (found.least 0 (by omega) isFree))
      · intro frame later stops
        have fromFirst := found.least _ (by omega) stops.1
        refine ⟨first, found.behind, ?_, run⟩
        apply Decidable.byContradiction
        intro before
        exact stops.2.1 (run frame (by omega) (by omega))
    | @broken first last found notZero run behind short inside inUse =>
      by_cases isWhole : last % 32 = 0
      · have rest := ih ended
        rw [Nat.div_mul_cancel (Nat.dvd_of_mod_eq_zero isWhole)] at rest
        exact .of_break found notZero run behind short inside inUse
          positive isWhole rest
      · have again :=
          allocRound_again found notZero run behind short inside inUse
            positive isWhole (by omega)
        change bitmap.allocLoop len rounds last = some outcome at ended
        rw [allocLoop_of_again again] at ended
        cases ended
    | @outside first found notZero run short =>
      cases ended
      have inside := found.isFree.1
      refine .outside ⟨?_, fun other above isRun => ?_,
        Nat.lt_of_le_of_lt found.behind inside,
        run _ (by omega) (by omega), ?_⟩
      · intro isZero isFree
        exact notZero (Nat.le_zero.mp (found.least 0 (by omega) isFree))
      · have later :=
          found.behind_break positive (fun isFree => by
            have := isFree.1; omega) short above isRun
        exact absurd (isRun.head positive).1 (by omega)
      · intro frame later stops
        have inItems := stops.1.1
        have fromFirst := found.least _ (by omega) stops.1
        apply Decidable.byContradiction
        intro notEnd
        exact stops.2.1 (run frame (by omega) (by omega))

theorem allocLoop_ends (positive : 0 < len)
    (ends :
      i / 32 * 32 = 0 ∧ bitmap.Free 0 ∨ bitmap.SearchStops len (i / 32 * 32)) :
    ∃ rounds outcome, bitmap.allocLoop len rounds i = some outcome := by
  induction left : bitmap.items - i / 32 * 32 using Nat.strongRecOn
    generalizing i with
  | ind left ih =>
    have cases := bitmap.allocRound_cases positive i
    cases round : bitmap.allocRound len i with
    | inl outcome =>
      refine ⟨1, outcome, ?_⟩
      rw [allocLoop, round]
    | inr last =>
      rw [round] at cases
      cases cases with
      | @broken first last found notZero run behind short inside inUse =>
        have fromFirst := found.behind
        obtain ⟨isZero, isFree⟩ | ends := ends
        · exact absurd
            (Nat.le_zero.mp (found.least 0 (by omega) isFree)) notZero
        · obtain ⟨isWhole, rest⟩ :=
            SearchStops.whole found run behind short inside inUse positive ends
          have start := Nat.div_mul_cancel (Nat.dvd_of_mod_eq_zero isWhole)
          rw [← start] at rest
          obtain ⟨rounds, outcome, ended⟩ := ih _ (by omega) (.inr rest) rfl
          refine ⟨rounds + 1, outcome, ?_⟩
          rw [allocLoop, round]
          exact ended

/-- The searches that end, the one that finds frame 0 among them. -/
def Searches (bitmap : FrameBitmap) (len base : Nat) : Prop :=
  base = 0 ∧ bitmap.Free 0 ∨ bitmap.SearchEnds len base

theorem Escapes.not_searches {base : Nat} (escapes : bitmap.Escapes len base) :
    ¬ bitmap.Searches len base := by
  rintro (⟨isZero, isFree⟩ | ends)
  · exact escapes.notZero isZero isFree
  · have stops : bitmap.StopsShort bitmap.items :=
      ⟨escapes.atEnd, fun isFree => Nat.lt_irrefl _ isFree.1, .inr rfl⟩
    obtain ⟨first, above, -, isRun⟩ := ends _ escapes.behind stops
    exact escapes.noRun first above isRun

end FrameBitmap

end Idylla.Mm
