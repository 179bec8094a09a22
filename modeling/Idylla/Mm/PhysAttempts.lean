import Idylla.Mm.PhysSearch

namespace Idylla.Mm

open Idylla.Lib

/-!
# What `phys_alloc` returns

`phys_alloc` searches from one zone after the other and ends with the first run
of free frames at or above the first zone start that has one.  The zones are
only where the searches start: a result may lie anywhere above.
-/

namespace FrameBitmap

variable {bitmap after : FrameBitmap} {len start : Nat} {starts : List Nat}

/-- The free frames have an address that a `paddr_t` holds. -/
def Addressed (bitmap : FrameBitmap) : Prop :=
  ∀ frame, bitmap.Free frame → frame * PAGE_SIZE < 2 ^ 32

theorem addressed_of_items (small : bitmap.items ≤ 2 ^ 20) :
    bitmap.Addressed := by
  intro frame isFree
  have inside := isFree.1
  unfold PAGE_SIZE
  omega

/-- A search finds free frames, which are not hidden behind frame 0. -/
def Reaches (bitmap : FrameBitmap) (len base : Nat) : Prop :=
  (base = 0 → ¬ bitmap.Free 0) ∧
    ∃ first, base ≤ first ∧ FreeRun bitmap.Free first len

/-- The searches of a call that are made all end. -/
def Searchable (bitmap : FrameBitmap) (len : Nat) : List Nat → Prop
  | [] => True
  | start :: others =>
    bitmap.Searches len (start / PAGE_SIZE) ∧
      (bitmap.Reaches len (start / PAGE_SIZE) ∨ bitmap.Searchable len others)

/-- How the searches of a call come out. -/
inductive Attempted (bitmap : FrameBitmap) (len : Nat) :
    List Nat → PhysOutcome → Prop where
  | failed : Attempted bitmap len [] (.returns bitmap 0)
  | found {start first : Nat} {others : List Nat} {after : FrameBitmap}
      (isFirst : FirstRun bitmap.Free len (start / PAGE_SIZE) first)
      (notZero : start / PAGE_SIZE = 0 → ¬ bitmap.Free 0)
      (wrote : Wrote true first len bitmap after)
      (ends : bitmap.SearchEnds len (start / PAGE_SIZE)) :
      Attempted bitmap len (start :: others)
        (.returns after (first * PAGE_SIZE))
  | outside {start : Nat} {others : List Nat}
      (escapes : bitmap.Escapes len (start / PAGE_SIZE)) :
      Attempted bitmap len (start :: others) .outside
  | next
      {start : Nat}
      {others : List Nat}
      {outcome : PhysOutcome}
      (missed : ¬ bitmap.Reaches len (start / PAGE_SIZE))
      (searches : bitmap.Searches len (start / PAGE_SIZE))
      (rest : Attempted bitmap len others outcome) :
      Attempted bitmap len (start :: others) outcome

theorem zoneStarts_aligned (flags : BitVec 32)
    (isStart : start ∈ zoneStarts flags) :
    start / PAGE_SIZE / 32 * 32 = start / PAGE_SIZE := by
  have known : start = LOWMEM_SIZE ∨ start = DMA_AREA_SIZE ∨ start = 0 := by
    unfold zoneStarts at isStart
    simp only [List.mem_append, List.mem_singleton] at isStart
    obtain (((inHigh | inNormal) | inLow) | again) | again := isStart
    · split at inHigh
      · exact .inl (List.mem_singleton.mp inHigh)
      · cases inHigh
    · split at inNormal
      · exact .inr (.inl (List.mem_singleton.mp inNormal))
      · cases inNormal
    · exact .inr (.inr inLow)
    all_goals
      split at again
      · exact .inr (.inr (List.mem_singleton.mp again))
      · cases again
  obtain rfl | rfl | rfl := known <;> decide

theorem page_of_firstRun {base first : Nat} (addressed : bitmap.Addressed)
    (positive : 0 < len) (isFirst : FirstRun bitmap.Free len base first)
    (notZero : base = 0 → ¬ bitmap.Free 0) :
    first * PAGE_SIZE % 2 ^ 32 = first * PAGE_SIZE ∧ first * PAGE_SIZE ≠ 0 := by
  have isFree := isFirst.isFree.head positive
  refine ⟨Nat.mod_eq_of_lt (addressed first isFree), fun isZero => ?_⟩
  have firstZero : first = 0 := by
    unfold PAGE_SIZE at isZero
    omega
  rw [firstZero] at isFree
  exact notZero (by have := isFirst.behind; omega) isFree

/-- The searches of a call that ends. -/
theorem physAllocFrom_attempted {rounds : Nat} {outcome : PhysOutcome}
    (addressed : bitmap.Addressed) (positive : 0 < len)
    (aligned :
      ∀ start ∈ starts, start / PAGE_SIZE / 32 * 32 = start / PAGE_SIZE)
    (ended : physAllocFrom rounds len starts bitmap = some outcome) :
    Attempted bitmap len starts outcome := by
  induction starts with
  | nil =>
    cases ended
    exact .failed
  | cons start others ih =>
    have rest :=
      ih fun other isOther => aligned other (List.mem_cons_of_mem _ isOther)
    rw [physAllocFrom] at ended
    cases search : bitmap.allocFrames rounds start len with
    | none =>
      rw [search] at ended
      cases ended
    | some result =>
      rw [search] at ended
      have searched := allocLoop_ended positive search
      rw [aligned start List.mem_cons_self] at searched
      cases searched with
      | zero isZero isFree =>
        exact .next (fun reaches => reaches.1 isZero isFree)
          (.inl ⟨isZero, isFree⟩) (rest ended)
      | nothing noRun ends =>
        exact .next (fun ⟨_, first, above, isRun⟩ => noRun first above isRun)
          (.inr ends) (rest ended)
      | found isFirst notZero wrote ends =>
        obtain ⟨isPage, someFrame⟩ :=
          page_of_firstRun addressed positive isFirst notZero
        dsimp only at ended
        rw [isPage, if_neg someFrame] at ended
        cases ended
        exact .found isFirst notZero wrote ends
      | outside escapes =>
        cases ended
        exact .outside escapes

theorem physAllocFrom_more {rounds : Nat} {outcome : PhysOutcome}
    (ended : physAllocFrom rounds len starts bitmap = some outcome)
    (more : Nat) :
    physAllocFrom (rounds + more) len starts bitmap = some outcome := by
  induction starts generalizing bitmap with
  | nil =>
    exact ended
  | cons start others ih =>
    rw [physAllocFrom] at ended ⊢
    cases search : bitmap.allocFrames rounds start len with
    | none =>
      rw [search] at ended
      cases ended
    | some result =>
      have again : bitmap.allocFrames (rounds + more) start len = some result :=
        allocLoop_more search more
      rw [search] at ended
      rw [again]
      cases result with
      | outside =>
        exact ended
      | returns middle page =>
        dsimp only at ended ⊢
        by_cases isZero : page = 0
        · rw [if_pos isZero] at ended ⊢
          exact ih ended
        · rw [if_neg isZero] at ended ⊢
          exact ended

/-- The searches that may end do so without leaving the bitmap. -/
theorem physAllocFrom_ends (addressed : bitmap.Addressed) (positive : 0 < len)
    (aligned :
      ∀ start ∈ starts, start / PAGE_SIZE / 32 * 32 = start / PAGE_SIZE)
    (searchable : bitmap.Searchable len starts) :
    ∃ rounds after page,
      physAllocFrom rounds len starts bitmap = some (.returns after page) := by
  induction starts with
  | nil =>
    exact ⟨0, bitmap, 0, rfl⟩
  | cons start others ih =>
    have isAligned := aligned start List.mem_cons_self
    obtain ⟨searches, reachesOrRest⟩ := searchable
    obtain ⟨rounds, outcome, search⟩ :=
      @allocLoop_ends bitmap len (start / PAGE_SIZE) positive (by
        rw [isAligned]
        exact searches.imp_right fun ends frame later _ stops =>
          ends frame later stops)
    have searched := allocLoop_ended positive search
    rw [isAligned] at searched
    have onFailure (missed : ¬ bitmap.Reaches len (start / PAGE_SIZE))
        (same : outcome = .returns bitmap 0) :
        ∃ rounds after page,
          physAllocFrom rounds len (start :: others) bitmap =
            some (.returns after page) := by
      obtain ⟨further, after, page, rest⟩ :=
        ih (fun other isOther => aligned other (List.mem_cons_of_mem _ isOther))
          (reachesOrRest.resolve_left missed)
      refine ⟨rounds + further, after, page, ?_⟩
      have again := allocLoop_more search further
      have restAgain := physAllocFrom_more rest rounds
      rw [Nat.add_comm] at restAgain
      rw [physAllocFrom, allocFrames, again, same]
      exact restAgain
    cases searched with
    | zero isZero isFree =>
      exact onFailure (fun reaches => reaches.1 isZero isFree) rfl
    | nothing noRun ends =>
      exact onFailure
        (fun ⟨_, first, above, isRun⟩ => noRun first above isRun) rfl
    | @found first after isFirst notZero wrote ends =>
      obtain ⟨isPage, someFrame⟩ :=
        page_of_firstRun addressed positive isFirst notZero
      refine ⟨rounds, after, first * PAGE_SIZE, ?_⟩
      rw [physAllocFrom, allocFrames, search]
      dsimp only
      rw [isPage, if_neg someFrame]
    | outside escapes =>
      exact absurd searches escapes.not_searches

theorem Attempted.searchable {page : Nat}
    (attempted : Attempted bitmap len starts (.returns after page)) :
    bitmap.Searchable len starts := by
  generalize isOutcome : PhysOutcome.returns after page = outcome at attempted
  induction attempted with
  | failed =>
    exact trivial
  | found isFirst notZero _ ends =>
    exact ⟨.inr ends, .inl ⟨notZero, _, isFirst.behind, isFirst.isFree⟩⟩
  | outside =>
    cases isOutcome
  | next _ searches _ ih =>
    exact ⟨searches, .inr (ih isOutcome)⟩

/--
The page is 0, or the address of frames in a row that were free and whose bits
are now set.
-/
def Handed (before after : FrameBitmap) (len page : Nat) : Prop :=
  page = 0 ∨
    ∃ first, page = first * PAGE_SIZE ∧
      ∀ frame, first ≤ frame → frame < first + len →
        before.Free frame ∧ after.words.bit frame = true

theorem Attempted.handed {page : Nat}
    (attempted : Attempted bitmap len starts (.returns after page)) :
    Handed bitmap after len page := by
  generalize isOutcome : PhysOutcome.returns after page = outcome at attempted
  induction attempted with
  | failed =>
    cases isOutcome
    exact .inl rfl
  | found isFirst _ wrote _ =>
    cases isOutcome
    refine .inr ⟨_, rfl, fun frame above below => ?_⟩
    refine ⟨isFirst.isFree frame above below, ?_⟩
    rw [wrote.bit, if_pos ⟨above, below⟩]
  | outside =>
    cases isOutcome
  | next _ _ _ ih =>
    exact ih isOutcome

/--
`phys_alloc` ends with a page, or with none, exactly when each search that it
makes has so many free frames in a row before the first run of free frames that
ends inside of a word or with the bitmap, if there is any such run.
-/
theorem physAlloc_ends_iff
    (addressed : bitmap.Addressed) (len flags : BitVec 32)
    (positive : 0 < len.toNat) :
    (∃ rounds after page,
      bitmap.physAlloc rounds len flags = some (.returns after page) ∧
        Handed bitmap after len.toNat page) ↔
      bitmap.Searchable len.toNat (zoneStarts flags) := by
  have aligned := fun start => @zoneStarts_aligned start flags
  constructor
  · rintro ⟨rounds, after, page, ended, -⟩
    exact (physAllocFrom_attempted addressed positive aligned ended).searchable
  · intro searchable
    obtain ⟨rounds, after, page, ended⟩ :=
      physAllocFrom_ends addressed positive aligned searchable
    exact ⟨rounds, after, page, ended,
      (physAllocFrom_attempted addressed positive aligned ended).handed⟩

/-- A bitmap of 64 frames of which only frame 5 is free. -/
def oneFree : FrameBitmap where
  words := Memory.set (fun _ => BitVec.allOnes 32) 0 0xFFFFFFDF
  items := 64
  whole := rfl
  bounded := by decide

/-- `phys_alloc` of two frames looks at frames 5 and 6 of it for ever. -/
theorem physAlloc_oneFree_never :
    ¬ ∃ rounds after page,
      oneFree.physAlloc rounds 2 PHYS_ZONE_DMA = some (.returns after page) ∧
        Handed oneFree after 2 page := by
  rintro ⟨rounds, after, page, ended, -⟩
  have again : oneFree.allocRound 2 6 = .inr 6 := rfl
  cases rounds with
  | zero =>
    cases ended
  | succ rounds =>
    have search : oneFree.allocFrames (rounds + 1) 0 2 = none :=
      allocLoop_of_again again rounds
    change physAllocFrom (rounds + 1) 2 [0] oneFree = _ at ended
    rw [physAllocFrom, search] at ended
    cases ended

/-- One frame of it is handed out. -/
theorem physAlloc_ends_iff_oneFree :
    (∃ rounds after page,
      oneFree.physAlloc rounds 1 PHYS_ZONE_DMA = some (.returns after page) ∧
        Handed oneFree after 1 page) ↔
      oneFree.Searchable 1 (zoneStarts PHYS_ZONE_DMA) :=
  physAlloc_ends_iff (addressed_of_items (by decide)) 1 PHYS_ZONE_DMA
    (by decide)

end FrameBitmap

end Idylla.Mm
