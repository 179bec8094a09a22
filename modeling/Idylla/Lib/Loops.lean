namespace Idylla.Lib

/-!
# Loops that may go wrong

The body of a `while` loop changes its variables or leaves the loop, and it may
go wrong.  A loop comes to its end exactly when no value of its variables on
the way is one where the body goes wrong or one that it does not change.
-/

/-- Why a computation has no result. -/
inductive Fault where
  /-- An access outside the object it is meant for. -/
  | strays
  | panics
  | unfinished
  deriving Repr, DecidableEq

/-- What one turn of a loop does. -/
inductive Turn (Vars Result : Type) where
  | again (vars : Vars)
  | leave (result : Result)
  deriving Repr, DecidableEq

/-- A loop, given the most turns that it may take. -/
def loop {Vars Result : Type} (body : Vars → Except Fault (Turn Vars Result)) :
    Nat → Vars → Except Fault Result
  | 0, _ => .error .unfinished
  | turns + 1, vars =>
    match body vars with
    | .error fault => .error fault
    | .ok (.again next) => loop body turns next
    | .ok (.leave result) => .ok result

/-- With enough turns the computation ends with a result. -/
def Returns {Result : Type} (computation : Nat → Except Fault Result)
    (result : Result) : Prop :=
  ∃ turns, computation turns = .ok result

/-- With enough turns the computation ends, and nothing goes wrong. -/
def Survives {Result : Type} (computation : Nat → Except Fault Result) : Prop :=
  ∃ result, Returns computation result

/-- A computation that has its value where it `fits` and is wrong elsewhere. -/
structure Checks
    {Value : Type}
    (computation : Except Fault Value) (fits : Prop)
    (value : Value) : Prop where
  ok : fits → computation = .ok value
  wrong : ¬ fits → ∃ fault, computation = .error fault

namespace Checks

variable {Value Other : Type} {computation other : Except Fault Value}
  {fits more : Prop} {value second : Value}

theorem pure (value : Value) : Checks (Pure.pure value) True value :=
  ⟨fun _ => rfl, fun never => absurd trivial never⟩

theorem throw (fault : Fault) (value : Value) :
    Checks (MonadExcept.throw fault : Except Fault Value) False value :=
  ⟨False.elim, fun _ => ⟨fault, rfl⟩⟩

theorem ite [Decidable fits] (fault : Fault) (value : Value) :
    Checks (if fits then .ok value else .error fault) fits value :=
  ⟨fun holds => if_pos holds, fun fails => ⟨fault, if_neg fails⟩⟩

theorem congr (checks : Checks computation fits value) (same : more ↔ fits)
    (sameValue : second = value) :
    Checks computation more second where
  ok := fun holds => sameValue ▸ checks.ok (same.mp holds)
  wrong := fun fails => checks.wrong fun holds => fails (same.mpr holds)

/-- One computation behind another. -/
theorem bind {later : Value → Except Fault Other} {result : Other}
    (first : Checks computation fits value)
    (rest : Checks (later value) more result) :
    Checks (computation >>= later) (fits ∧ more) result where
  ok := by
    rintro ⟨holds, holdsMore⟩
    rw [first.ok holds]
    exact rest.ok holdsMore
  wrong := by
    intro fails
    by_cases holds : fits
    · rw [first.ok holds]
      exact rest.wrong fun holdsMore => fails ⟨holds, holdsMore⟩
    · obtain ⟨fault, isWrong⟩ := first.wrong holds
      exact ⟨fault, by rw [isWrong]; rfl⟩

/-- A choice between two computations. -/
theorem choose {condition : Prop} [Decidable condition]
    (yes : condition → Checks computation fits value)
    (no : ¬ condition → Checks other more second) :
    Checks (if condition then computation else other)
      ((condition → fits) ∧ (¬ condition → more))
      (if condition then value else second) := by
  by_cases holds : condition
  · rw [if_pos holds, if_pos holds]
    refine (yes holds).congr ⟨fun both => both.1 holds, fun fit => ?_⟩ rfl
    exact ⟨fun _ => fit, fun fails => absurd holds fails⟩
  · rw [if_neg holds, if_neg holds]
    refine (no holds).congr ⟨fun both => both.2 holds, fun fit => ?_⟩ rfl
    exact ⟨fun isSo => absurd isSo holds, fun _ => fit⟩

end Checks

/-- More turns do not change what a computation returns. -/
def Stable {Result : Type} (computation : Nat → Except Fault Result) : Prop :=
  ∀ turns more result,
    computation turns = .ok result → turns ≤ more →
      computation more = .ok result

section Turns

variable {Value Result : Type} {first : Nat → Except Fault Value}
  {later : Value → Nat → Except Fault Result}

theorem stable_const (computation : Except Fault Result) :
    Stable fun _ => computation :=
  fun _ _ _ returns _ => returns

theorem Returns.unique
    {computation : Nat → Except Fault Result} {result other : Result}
    (stable : Stable computation) (returns : Returns computation result)
    (returnsOther : Returns computation other) : result = other := by
  obtain ⟨turns, isResult⟩ := returns
  obtain ⟨more, isOther⟩ := returnsOther
  have first := stable _ _ _ isResult (Nat.le_max_left turns more)
  have second := stable _ _ _ isOther (Nat.le_max_right turns more)
  exact Except.ok.inj (first.symm.trans second)

theorem returns_const_iff {computation : Except Fault Result}
    {result : Result} :
    Returns (fun _ => computation) result ↔ computation = .ok result :=
  ⟨fun returns => returns.elim fun _ same => same, fun same => ⟨0, same⟩⟩

theorem survives_const_iff {computation : Except Fault Result} :
    Survives (fun _ => computation) ↔ ∃ result, computation = .ok result :=
  exists_congr fun _ => returns_const_iff

theorem bind_eq_ok
    {computation : Except Fault Value} {later : Value → Except Fault Result}
    {result : Result} (returns : computation >>= later = .ok result) :
    ∃ value, computation = .ok value ∧ later value = .ok result := by
  cases computation with
  | error fault =>
    cases returns
  | ok value =>
    exact ⟨value, rfl, returns⟩

variable (stable : Stable first) (stableLater : ∀ value, Stable (later value))

include stable stableLater

theorem stable_bind :
    Stable fun turns => first turns >>= fun value => later value turns := by
  intro turns more result returns isMore
  obtain ⟨value, isFirst, isLater⟩ := bind_eq_ok returns
  show (first more >>= fun value => later value more) = _
  rw [stable turns more value isFirst isMore]
  exact stableLater value turns more result isLater isMore

/-- Two computations one behind the other. -/
theorem returns_bind_iff {result : Result} :
    Returns (fun turns => first turns >>= fun value => later value turns)
        result ↔
      ∃ value, Returns first value ∧ Returns (later value) result := by
  constructor
  · rintro ⟨turns, returns⟩
    obtain ⟨value, isFirst, isLater⟩ := bind_eq_ok returns
    exact ⟨value, ⟨turns, isFirst⟩, ⟨turns, isLater⟩⟩
  · rintro ⟨value, ⟨turns, isFirst⟩, ⟨turnsLater, isLater⟩⟩
    refine ⟨max turns turnsLater, ?_⟩
    show (first _ >>= fun value => later value _) = _
    rw [stable _ _ value isFirst (Nat.le_max_left _ _)]
    exact stableLater value _ _ result isLater (Nat.le_max_right _ _)

theorem survives_bind_iff :
    Survives (fun turns => first turns >>= fun value => later value turns) ↔
      ∃ value, Returns first value ∧ Survives (later value) := by
  constructor
  · rintro ⟨result, returns⟩
    obtain ⟨value, isFirst, isLater⟩ :=
      (returns_bind_iff stable stableLater).mp returns
    exact ⟨value, isFirst, result, isLater⟩
  · rintro ⟨value, isFirst, result, isLater⟩
    exact ⟨result,
      (returns_bind_iff stable stableLater).mpr ⟨value, isFirst, isLater⟩⟩

end Turns

section Bodies

variable {Vars Result : Type} {body : Vars → Except Fault (Turn Vars Result)}

/-- The values that the variables of a loop take, from the first on. -/
inductive Reaches
    (body : Vars → Except Fault (Turn Vars Result))
    (first : Vars) : Vars → Prop where
  | start : Reaches body first first
  | again {vars next : Vars} (before : Reaches body first vars)
      (turn : body vars = .ok (.again next)) :
      Reaches body first next

theorem loop_succ (turns : Nat) (vars : Vars) :
    loop body (turns + 1) vars =
      match body vars with
      | .error fault => .error fault
      | .ok (.again next) => loop body turns next
      | .ok (.leave result) => .ok result := rfl

theorem loop_again {vars next : Vars} (turn : body vars = .ok (.again next))
    (turns : Nat) : loop body (turns + 1) vars = loop body turns next := by
  rw [loop_succ, turn]

variable {result : Result}

theorem loop_leave {vars : Vars}
    (turn : body vars = .ok (.leave result)) (turns : Nat) :
    loop body (turns + 1) vars = .ok result := by
  rw [loop_succ, turn]

theorem loop_more {turns more : Nat} {vars : Vars}
    (returns : loop body turns vars = .ok result) (isMore : turns ≤ more) :
    loop body more vars = .ok result := by
  induction turns generalizing more vars with
  | zero =>
    cases returns
  | succ turns ih =>
    obtain ⟨other, rfl⟩ : ∃ other, more = other + 1 := ⟨more - 1, by omega⟩
    cases turn : body vars with
    | error fault =>
      rw [loop_succ, turn] at returns
      cases returns
    | ok turned =>
      cases turned with
      | again next =>
        rw [loop_again turn] at returns ⊢
        exact ih returns (by omega)
      | leave last =>
        rw [loop_leave turn] at returns ⊢
        exact returns

theorem loop_stable (first : Vars) :
    Stable fun turns => loop body turns first :=
  fun _ _ _ => loop_more

theorem Reaches.returns {first vars : Vars} (reaches : Reaches body first vars)
    (later : Returns (fun turns => loop body turns vars) result) :
    Returns (fun turns => loop body turns first) result := by
  induction reaches with
  | start =>
    exact later
  | again before turn ih =>
    obtain ⟨turns, returns⟩ := later
    exact ih ⟨turns + 1, (loop_again turn turns).trans returns⟩

theorem Reaches.rest {first vars : Vars} (reaches : Reaches body first vars)
    (returns : Returns (fun turns => loop body turns first) result) :
    Returns (fun turns => loop body turns vars) result := by
  induction reaches with
  | start =>
    exact returns
  | again before turn ih =>
    obtain ⟨turns, later⟩ := ih
    cases turns with
    | zero =>
      cases later
    | succ turns =>
      exact ⟨turns, (loop_again turn turns).symm.trans later⟩

/-- A loop that returns is left at some value on the way. -/
theorem returns_iff {first : Vars} :
    Returns (fun turns => loop body turns first) result ↔
      ∃ vars, Reaches body first vars ∧ body vars = .ok (.leave result) := by
  constructor
  · rintro ⟨turns, returns⟩
    have ends : ∀ turns vars, Reaches body first vars →
          loop body turns vars = .ok result →
            ∃ last, Reaches body first last ∧
              body last = .ok (.leave result) := by
      intro turns
      induction turns with
      | zero =>
        intro vars _ returns
        cases returns
      | succ turns ih =>
        intro vars reaches returns
        cases turn : body vars with
        | error fault =>
          rw [loop_succ, turn] at returns
          cases returns
        | ok turned =>
          cases turned with
          | again next =>
            rw [loop_again turn] at returns
            exact ih next (.again reaches turn) returns
          | leave last =>
            rw [loop_leave turn] at returns
            cases returns
            exact ⟨vars, reaches, turn⟩
    exact ends turns first .start returns
  · rintro ⟨vars, reaches, turn⟩
    exact reaches.returns ⟨1, loop_leave turn 0⟩

/--
The values that the variables would take if nothing went wrong: `passes` says
where the loop goes on, and `next` with what.
-/
inductive Chain
    (passes : Vars → Prop)
    (next : Vars → Vars)
    (first : Vars) : Vars → Prop where
  | start : Chain passes next first first
  | pass {vars : Vars} (before : Chain passes next first vars)
      (on : passes vars) :
      Chain passes next first (next vars)

namespace Chain

variable {passes : Vars → Prop} {next : Vars → Vars} {first vars other : Vars}

theorem head (chain : Chain passes next first vars) :
    vars = first ∨ passes first ∧ Chain passes next (next first) vars := by
  induction chain with
  | start =>
    exact .inl rfl
  | pass before on ih =>
    rcases ih with rfl | ⟨isOn, later⟩
    · exact .inr ⟨on, .start⟩
    · exact .inr ⟨isOn, .pass later on⟩

theorem comparable (chain : Chain passes next first vars)
    (chainOther : Chain passes next first other) :
    Chain passes next vars other ∨ Chain passes next other vars := by
  induction chainOther with
  | start =>
    exact .inr chain
  | pass before on ih =>
    rcases ih with toOther | fromOther
    · exact .inl (.pass toOther on)
    · rcases fromOther.head with rfl | ⟨-, later⟩
      · exact .inl (.pass .start on)
      · exact .inr later

theorem stop_unique (chain : Chain passes next first vars)
    (stops : ¬ passes vars) (chainOther : Chain passes next first other)
    (stopsOther : ¬ passes other) : vars = other := by
  rcases chain.comparable chainOther with toOther | fromOther
  · exact (toOther.head.resolve_right fun both => stops both.1).symm
  · exact fromOther.head.resolve_right fun both => stopsOther both.1

/-- A chain all of whose steps are steps of another one. -/
theorem congr {passesOther : Vars → Prop} {nextOther : Vars → Vars}
    (same :
      ∀ vars, Chain passes next first vars → passes vars →
        passesOther vars ∧ nextOther vars = next vars)
    (chain : Chain passes next first vars) :
    Chain passesOther nextOther first vars := by
  induction chain with
  | start =>
    exact .start
  | pass before on ih =>
    obtain ⟨isOn, sameNext⟩ := same _ before on
    exact sameNext ▸ .pass ih isOn

end Chain

/--
What the body of a loop does: where it `fits` nothing goes wrong, and where it
`passes` it goes on, with a smaller `measure` or with the same value for ever.
-/
structure Walks
    (body : Vars → Except Fault (Turn Vars Result))
    (fits passes : Vars → Prop)
    (next : Vars → Vars)
    (leaves : Vars → Result)
    (measure : Vars → Nat) : Prop where
  again : ∀ vars, passes vars →
    Checks (body vars) (fits vars) (.again (next vars))
  leave : ∀ vars, ¬ passes vars →
    Checks (body vars) (fits vars) (.leave (leaves vars))
  shrinks : ∀ vars, passes vars →
    next vars = vars ∨ measure (next vars) < measure vars

namespace Walks

variable {fits passes : Vars → Prop} {next : Vars → Vars}
  {leaves : Vars → Result} {measure : Vars → Nat} {first : Vars}

variable (walks : Walks body fits passes next leaves measure)

include walks

variable {vars : Vars}

theorem wrong (unfit : ¬ fits vars) :
    ∃ fault, body vars = .error fault := by
  by_cases on : passes vars
  · exact (walks.again vars on).wrong unfit
  · exact (walks.leave vars on).wrong unfit

theorem reaches (fit : ∀ vars, Chain passes next first vars → fits vars) (chain : Chain passes next first vars) :
    Reaches body first vars := by
  induction chain with
  | start =>
    exact .start
  | pass before on ih =>
    exact .again ih ((walks.again _ on).ok (fit _ before))

theorem chain (reaches : Reaches body first vars) :
    Chain passes next first vars := by
  induction reaches with
  | start =>
    exact .start
  | @again vars after before turn ih =>
    by_cases fit : fits vars
    · by_cases on : passes vars
      · have turned := (walks.again vars on).ok fit
        rw [turn] at turned
        cases turned
        exact .pass ih on
      · have left := (walks.leave vars on).ok fit
        rw [turn] at left
        cases left
    · obtain ⟨fault, isWrong⟩ := walks.wrong fit
      rw [turn] at isWrong
      cases isWrong

theorem rest_of_chain {result : Result}
    (returns : Returns (fun turns => loop body turns first) result) (chain : Chain passes next first vars) :
    Reaches body first vars ∧ fits vars := by
  have fitsOf {vars : Vars}
      (reached : Reaches body first vars) :
      fits vars := by
    refine Classical.byContradiction fun unfit => ?_
    obtain ⟨turns, later⟩ := reached.rest returns
    obtain ⟨fault, isWrong⟩ := walks.wrong unfit
    cases turns with
    | zero =>
      cases later
    | succ turns =>
      simp only [loop_succ, isWrong] at later
      cases later
  induction chain with
  | start =>
    exact ⟨.start, fitsOf .start⟩
  | pass before on ih =>
    have reached : Reaches body first _ :=
      .again ih.1 ((walks.again _ on).ok ih.2)
    exact ⟨reached, fitsOf reached⟩

/--
A loop survives exactly when nothing goes wrong on its chain and no value on
it is followed by itself.
-/
theorem survives_iff :
    Survives (fun turns => loop body turns first) ↔
      ∀ vars, Chain passes next first vars →
        fits vars ∧ (passes vars → next vars ≠ vars) := by
  constructor
  · rintro ⟨result, returns⟩ vars chain
    obtain ⟨reached, fit⟩ := walks.rest_of_chain returns chain
    refine ⟨fit, fun on stays => ?_⟩
    have turn := (walks.again vars on).ok fit
    rw [stays] at turn
    have endless : ∀ turns, loop body turns vars ≠ .ok result := by
      intro turns
      induction turns with
      | zero =>
        intro later
        cases later
      | succ turns ih =>
        rw [loop_again turn]
        exact ih
    obtain ⟨turns, later⟩ := reached.rest returns
    exact endless turns later
  · intro good
    have ends : ∀ bound vars, measure vars < bound →
          Chain passes next first vars →
            ∃ result, Returns (fun turns => loop body turns vars) result := by
      intro bound
      induction bound with
      | zero =>
        omega
      | succ bound ih =>
        intro vars isLess chain
        obtain ⟨fit, moves⟩ := good vars chain
        by_cases on : passes vars
        · have smaller : measure (next vars) < measure vars :=
            (walks.shrinks vars on).resolve_left (moves on)
          obtain ⟨result, turns, returns⟩ :=
            ih (next vars) (by omega) (.pass chain on)
          exact ⟨result, turns + 1,
            (loop_again ((walks.again vars on).ok fit) turns).trans returns⟩
        · exact ⟨leaves vars, 1, loop_leave ((walks.leave vars on).ok fit) 0⟩
    exact ends _ first (Nat.lt_succ_self _) .start

theorem returns_leaves (fit : ∀ vars, Chain passes next first vars → fits vars) (chain : Chain passes next first vars)
    (stops : ¬ passes vars) :
    Returns (fun turns => loop body turns first) (leaves vars) :=
  returns_iff.mpr
    ⟨vars, walks.reaches fit chain,
      (walks.leave vars stops).ok (fit vars chain)⟩

theorem stops {result : Result}
    (returns : Returns (fun turns => loop body turns first) result) :
    ∃ vars, Chain passes next first vars ∧ ¬ passes vars ∧
      fits vars ∧ result = leaves vars := by
  obtain ⟨vars, reached, turn⟩ := returns_iff.mp returns
  have chain := walks.chain reached
  obtain ⟨-, fit⟩ := walks.rest_of_chain returns chain
  have stop : ¬ passes vars := by
    intro on
    have turned := (walks.again vars on).ok fit
    rw [turn] at turned
    cases turned
  have left := (walks.leave vars stop).ok fit
  rw [turn] at left
  cases left
  exact ⟨vars, chain, stop, fit, rfl⟩

/-- What follows a loop depends on the value at which its chain stops. -/
theorem returns_and_iff (Later : Result → Prop) :
    (∃ result,
        Returns (fun turns => loop body turns first) result ∧ Later result) ↔
      (∀ vars, Chain passes next first vars →
        fits vars ∧ (passes vars → next vars ≠ vars)) ∧
        ∀ vars, Chain passes next first vars → ¬ passes vars →
          Later (leaves vars) := by
  constructor
  · rintro ⟨result, returns, later⟩
    have good := walks.survives_iff.mp ⟨result, returns⟩
    refine ⟨good, fun vars chain stop => ?_⟩
    have fit := fun vars chain => (good vars chain).1
    have same :=
      returns.unique (loop_stable first) (walks.returns_leaves fit chain stop)
    exact same ▸ later
  · rintro ⟨good, later⟩
    obtain ⟨result, returns⟩ := walks.survives_iff.mpr good
    obtain ⟨vars, chain, stop, -, rfl⟩ := walks.stops returns
    exact ⟨leaves vars, returns, later vars chain stop⟩

end Walks

end Bodies

end Idylla.Lib
