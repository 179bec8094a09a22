namespace Idylla.Lib

/-!
# Contracts of partial computations

A computation over a state yields nothing where it is undefined.  Its contract
promises, from every state of a kind, that it is defined and what its result
and the state behind it are.
-/

variable {State Result Other : Type}

/-- From a state that meets `before` the computation runs to its end. -/
def Meets (computation : StateT State Option Result) (before : State → Prop)
    (after : Result → State → Prop) : Prop :=
  ∀ state, before state →
    ∃ result next,
      computation.run state = some (result, next) ∧ after result next

namespace Meets

variable {before : State → Prop} {after : Result → State → Prop}
  {computation : StateT State Option Result}

theorem pure {result : Result}
    (holds : ∀ state, before state → after result state) :
    Meets (Pure.pure result) before after :=
  fun state meets => ⟨result, state, rfl, holds state meets⟩

theorem bind {middle : Result → State → Prop}
    {later : Result → StateT State Option Other} {last : Other → State → Prop}
    (first : Meets computation before middle)
    (second : ∀ result, Meets (later result) (middle result) last) :
    Meets (computation >>= later) before last := by
  intro state meets
  obtain ⟨result, next, runs, holds⟩ := first state meets
  obtain ⟨other, final, runsLater, ends⟩ := second result next holds
  refine ⟨other, final, ?_, ends⟩
  rw [StateT.run_bind, runs]
  exact runsLater

theorem consequence {stronger : State → Prop} {weaker : Result → State → Prop}
    (contract : Meets computation before after)
    (implied : ∀ state, stronger state → before state)
    (implies : ∀ result state, after result state → weaker result state) :
    Meets computation stronger weaker := by
  intro state meets
  obtain ⟨result, next, runs, holds⟩ := contract state (implied state meets)
  exact ⟨result, next, runs, implies result next holds⟩

theorem assuming {Fact : Prop} (fact : ∀ state, before state → Fact)
    (contract : Fact → Meets computation before after) :
    Meets computation before after :=
  fun state meets => contract (fact state meets) state meets

theorem of_exists
    {Value : Type} {Fact : Value → Prop} {explained : Value → State → Prop}
    (contract :
      ∀ value, Fact value → Meets computation (explained value) after) :
    Meets computation
      (fun state => ∃ value, Fact value ∧ explained value state) after := by
  rintro state ⟨value, fact, meets⟩
  exact contract value fact state meets

end Meets

/-- Where the computation is defined, the property is not lost. -/
def Keeps (property : State → Prop)
    (computation : StateT State Option Result) : Prop :=
  ∀ state result next, property state →
    computation.run state = some (result, next) → property next

namespace Keeps

variable {property : State → Prop} {computation : StateT State Option Result}

theorem pure {result : Result} : Keeps property (Pure.pure result) := by
  rintro state _ next holds ⟨⟩
  exact holds

theorem failure :
    Keeps property (Alternative.failure : StateT State Option Result) := by
  rintro state result next - ⟨⟩

theorem bind {later : Result → StateT State Option Other}
    (first : Keeps property computation)
    (second : ∀ result, Keeps property (later result)) :
    Keeps property (computation >>= later) := by
  intro state result next holds runs
  obtain ⟨⟨middle, after⟩, runsFirst, runsLater⟩ :=
    Option.bind_eq_some_iff.mp runs
  exact second middle after result next
    (first state middle after holds runsFirst) runsLater

end Keeps

end Idylla.Lib
