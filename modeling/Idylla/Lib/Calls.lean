import Idylla.Lib.Loops

namespace Idylla.Lib

/-!
# Calls on a state

A call changes a state, whether it returns a value or gives up with an error,
and it may not return at all.  How a composed call ends is said in terms of how
its parts end.
-/

/-- What a call does: its value or its error, and the state that it leaves. -/
abbrev Call (State Err Value : Type) :=
  ExceptT Err (StateT State (Except Fault)) Value

/-- The call ends like this. -/
def Ends {State Err Value : Type}
    (call : Call State Err Value) (state : State) (result : Except Err Value)
    (after : State) : Prop :=
  call.run.run state = .ok (result, after)

/-- An error that is looked at and not passed on. -/
def outcome {State Err Value : Type}
    (call : Call State Err Value) : Call State Err (Except Err Value) :=
  ExceptT.lift call.run

section Ends

variable {State Err Value Next : Type} {call : Call State Err Value}
  {state after middle : State} {result : Except Err Value}

theorem ends_unique {other : Except Err Value} {otherAfter : State}
    (ends : Ends call state result after)
    (endsOther : Ends call state other otherAfter) :
    result = other ∧ after = otherAfter := by
  have same := Except.ok.inj (ends.symm.trans endsOther)
  exact ⟨congrArg Prod.fst same, congrArg Prod.snd same⟩

variable {next : Value → Call State Err Next} {last : Except Err Next}

theorem ends_bind {value : Value} (first : Ends call state (.ok value) middle)
    (rest : Ends (next value) middle last after) :
    Ends (call >>= next) state last after := by
  have isFirst : call state = .ok (.ok value, middle) := first
  show (call state >>= _) = _
  rw [isFirst]
  exact rest

theorem ends_bind_error {err : Err}
    (first : Ends call state (.error err) middle) :
    Ends (call >>= next) state (.error err) middle := by
  have isFirst : call state = .ok (.error err, middle) := first
  show (call state >>= _) = _
  rw [isFirst]
  rfl

/-- The two ways in which calls one after the other end. -/
theorem ends_bind_iff :
    Ends (call >>= next) state last after ↔
      (∃ err, Ends call state (.error err) after ∧ last = .error err) ∨
        ∃ value middle, Ends call state (.ok value) middle ∧
          Ends (next value) middle last after := by
  constructor
  · intro ends
    cases isFirst : call state with
    | error fault =>
      have both : (call state >>= _) = .ok (last, after) := ends
      rw [isFirst] at both
      cases both
    | ok first =>
      obtain ⟨firstResult, middle⟩ := first
      cases firstResult with
      | error err =>
        have endsFirst : Ends call state (.error err) middle := isFirst
        have same := ends_unique ends (ends_bind_error endsFirst)
        exact .inl ⟨err, same.2 ▸ endsFirst, same.1⟩
      | ok value =>
        have both : (call state >>= _) = .ok (last, after) := ends
        rw [isFirst] at both
        exact .inr ⟨value, middle, isFirst, both⟩
  · rintro (⟨err, first, rfl⟩ | ⟨value, middle, first, rest⟩)
    · exact ends_bind_error first
    · exact ends_bind first rest

/-- An error that is looked at is a value. -/
theorem outcome_ends_iff {seen : Except Err (Except Err Value)} :
    Ends (outcome call) state seen after ↔
      ∃ result, Ends call state result after ∧ seen = .ok result := by
  constructor
  · intro ends
    cases isCall : call state with
    | error fault =>
      have both : (call state >>= _) = .ok (seen, after) := ends
      rw [isCall] at both
      cases both
    | ok pair =>
      obtain ⟨result, other⟩ := pair
      have both : (call state >>= _) = .ok (seen, after) := ends
      rw [isCall] at both
      have same := Except.ok.inj both
      cases same
      exact ⟨result, isCall, rfl⟩
  · rintro ⟨result, ends, rfl⟩
    have isCall : call state = .ok (result, after) := ends
    show (call state >>= _) = _
    rw [isCall]
    rfl

/-- Something that may go wrong, followed by what is done with its value. -/
theorem ends_lift_iff {lifted : Except Fault Value} :
    Ends ((lifted : Call State Err Value) >>= next) state last after ↔
      ∃ value, lifted = .ok value ∧ Ends (next value) state last after := by
  cases lifted with
  | error fault =>
    refine ⟨fun ends => ?_, fun ⟨value, isValue, _⟩ => ?_⟩
    · cases ends
    · cases isValue
  | ok value =>
    refine ⟨fun ends => ⟨value, rfl, ends⟩, fun ⟨other, same, ends⟩ => ?_⟩
    cases same
    exact ends

end Ends

end Idylla.Lib
