import Mathlib.Data.List.Induction

namespace Idylla.Lib

/-!
# Finite runs of a labelled transition system

A run records the labels it took, oldest first.  Guarding a transition
relation restricts every step to states and labels that meet a condition; the
invariant rule is the only induction over runs the development needs.
-/

/-- `Run step first labels last`: the labels lead from `first` to `last`. -/
inductive Run
    {State Label : Type}
    (step : State → Label → State → Prop)
    (first : State) : List Label → State → Prop where
  | start : Run step first [] first
  | extend {past : List Label} {middle last : State} {label : Label}
      (before : Run step first past middle)
      (next : step middle label last) :
      Run step first (past ++ [label]) last

/-- The transitions of `step` whose source state and label meet `guard`. -/
def Guarded {State Label : Type} (guard : State → Label → Prop)
    (step : State → Label → State → Prop) : State → Label → State → Prop :=
  fun source label target => guard source label ∧ step source label target

/-- The state that a partial function reaches along labels. -/
def follow {State Label : Type} (step : State → Label → Option State) :
    List Label → State → Option State
  | [], state => some state
  | label :: later, state => (step state label).bind (follow step later)

namespace Run

variable {State Label : Type} {step : State → Label → State → Prop}
  {first last : State} {labels : List Label}

/--
A property of past labels and current state that holds at the start and that
every step preserves holds at the end of every run.
-/
theorem invariant (Holds : List Label → State → Prop) (initially : Holds [] first)
    (preserved :
      ∀ {past source label target}, Holds past source →
        step source label target →
        Holds (past ++ [label]) target) (run : Run step first labels last) :
    Holds labels last := by
  induction run with
  | start =>
    exact initially
  | extend before next ih =>
    exact preserved ih next

theorem single {label : Label}
    (next : step first label last) : Run step first [label] last :=
  .extend .start next

theorem append {first middle last : State} {earlier later : List Label}
    (before : Run step first earlier middle)
    (after : Run step middle later last) :
    Run step first (earlier ++ later) last := by
  induction after with
  | start =>
    simpa using before
  | extend _ next ih =>
    rw [← List.append_assoc]
    exact .extend ih next

theorem cons {first middle last : State} {label : Label} {later : List Label}
    (next : step first label middle) (after : Run step middle later last) :
    Run step first (label :: later) last :=
  (single next).append after

/-- A run under a transition relation is one under any weaker one. -/
theorem weaken {weaker : State → Label → State → Prop} (run : Run step first labels last)
    (implies :
      ∀ {source label target},
        step source label target → weaker source label target) :
    Run weaker first labels last := by
  induction run with
  | start =>
    exact .start
  | extend _ next ih =>
    exact .extend ih (implies next)

/--
Two transition relations that agree wherever an invariant of the first holds
have the same runs.
-/
theorem iff_of_invariant {other : State → Label → State → Prop}
    (Holds : State → Prop) (initially : Holds first)
    (preserved :
      ∀ {source label target},
        Holds source → step source label target → Holds target)
    (agree :
      ∀ {source label target},
        Holds source → (step source label target ↔ other source label target)) :
    Run step first labels last ↔ Run other first labels last := by
  constructor
  · intro run
    have both : Holds last ∧ Run other first labels last := by
      induction run with
      | start =>
        exact ⟨initially, .start⟩
      | extend _ next ih =>
        obtain ⟨holds, run⟩ := ih
        exact ⟨preserved holds next, .extend run ((agree holds).mp next)⟩
    exact both.2
  · intro run
    have both : Holds last ∧ Run step first labels last := by
      induction run with
      | start =>
        exact ⟨initially, .start⟩
      | extend _ next ih =>
        obtain ⟨holds, run⟩ := ih
        have stepped := (agree holds).mpr next
        exact ⟨preserved holds stepped, .extend run stepped⟩
    exact both.2

theorem of_follow {function : State → Label → Option State}
    (sound :
      ∀ source label target, function source label = some target →
        step source label target)
    (reaches : follow function labels first = some last) :
    Run step first labels last := by
  induction labels generalizing first with
  | nil =>
    cases reaches
    exact .start
  | cons label later ih =>
    obtain ⟨middle, next, rest⟩ := Option.bind_eq_some_iff.mp reaches
    exact .cons (sound first label middle next) (ih rest)

theorem eq_of_nil (run : Run step first labels last) (isEmpty : labels = []) :
    last = first := by
  cases run with
  | start =>
    rfl
  | extend before next =>
    simp at isEmpty

theorem head {label : Label} {later labels : List Label}
    (run : Run step first labels last) (isHead : labels = label :: later) :
    ∃ middle, step first label middle := by
  induction run generalizing later with
  | start =>
    cases isHead
  | @extend past middle last label before next ih =>
    cases past with
    | nil =>
      obtain rfl := before.eq_of_nil rfl
      cases isHead
      exact ⟨last, next⟩
    | cons earlier past =>
      cases isHead
      exact ih rfl

end Run

end Idylla.Lib
