import Mathlib.Algebra.BigOperators.Group.List.Basic
import Mathlib.Algebra.Order.BigOperators.Group.Finset
import StackQueue.TransitionSystem

namespace TransitionSystem

/-!
# Runs that come to rest

Some of the steps of a system are `internal`: they go on with what was begun
before and wait for nobody outside.  A system settles if every internal step
uses up some of the work that is left, so that internal steps alone come to an
end, in whatever order they are taken.
-/

universe u v

variable {State : Type u} {Action : Type v}

/-- A run all of whose steps are internal. -/
structure InternalRun
    (step : State → Action → Option State)
    (internal : State → Action → Prop)
    (before : State)
    (trace : List (State × Action))
    (after : State) : Prop where
  run : Run step before trace after
  steps : ∀ taken ∈ trace, internal taken.1 taken.2

/-- No internal step is enabled. -/
def AtRest
    (step : State → Action → Option State)
    (internal : State → Action → Prop)
    (state : State) : Prop :=
  ∀ action, internal state action → step state action = none

/-- Within an invariant every internal step uses up work. -/
structure Settles
    (step : State → Action → Option State)
    (internal : State → Action → Prop)
    (holds : State → Prop)
    (work : State → Nat) : Prop where
  kept :
    ∀ {before after : State} {action : Action},
      holds before →
      internal before action →
      step before action = some after →
      holds after
  decreases :
    ∀ {before after : State} {action : Action},
      holds before →
      internal before action →
      step before action = some after →
      work after < work before

namespace InternalRun

variable
    {step : State → Action → Option State}
    {internal : State → Action → Prop}
    {before middle after : State}
    {trace : List (State × Action)}

theorem start : InternalRun step internal before [] before :=
  ⟨.start, fun _ member => by cases member⟩

/-- An internal step and the internal steps that follow it. -/
theorem cons
    {action : Action}
    (isInternal : internal before action)
    (taken : step before action = some middle)
    (later : InternalRun step internal middle trace after) :
    InternalRun step internal before ((before, action) :: trace) after := by
  refine ⟨later.run.cons taken, fun entry member => ?_⟩
  rcases List.mem_cons.mp member with isFirst | isLater
  · rw [isFirst]
    exact isInternal
  · exact later.steps entry isLater

/-- An invariant of the internal steps holds along their runs. -/
theorem invariant
    {holds : State → Prop}
    (preserved :
      ∀ {before after : State} {action : Action},
        holds before →
        internal before action →
        step before action = some after →
        holds after)
    (initially : holds before)
    (internalRun : InternalRun step internal before trace after) :
    holds after := by
  obtain ⟨run, steps⟩ := internalRun
  induction run with
  | start =>
      exact initially
  | @next trace state after action _ taken inductionHypothesis =>
      have earlier :=
        inductionHypothesis fun entry member =>
          steps entry (List.mem_append_left _ member)
      exact preserved earlier (steps (state, action) (by simp)) taken

end InternalRun

namespace Settles

variable
    {step : State → Action → Option State}
    {internal : State → Action → Prop}
    {holds : State → Prop}
    {work : State → Nat}
    {before after : State}

/-- Each step of an internal run uses up some of the work. -/
theorem length_add_work_le
    (settles : Settles step internal holds work)
    (initially : holds before)
    {trace : List (State × Action)}
    (internalRun : InternalRun step internal before trace after) :
    trace.length + work after ≤ work before := by
  obtain ⟨run, steps⟩ := internalRun
  induction run with
  | start =>
      simp
  | @next trace state after action earlier taken inductionHypothesis =>
      have earlierSteps : ∀ entry ∈ trace, internal entry.1 entry.2 :=
        fun entry member => steps entry (List.mem_append_left _ member)
      have within := inductionHypothesis earlierSteps
      have holdsHere : holds state :=
        InternalRun.invariant settles.kept initially
          ⟨earlier, earlierSteps⟩
      have less :=
        settles.decreases holdsHere (steps (state, action) (by simp)) taken
      rw [List.length_append, List.length_singleton]
      omega

/-- Internal steps lead to a state in which there is none left. -/
theorem exists_atRest
    (settles : Settles step internal holds work)
    (initially : holds before) :
    ∃ trace after,
      InternalRun step internal before trace after ∧
        AtRest step internal after := by
  induction bound : work before using Nat.strong_induction_on
    generalizing before with
  | h total inductionHypothesis =>
      by_cases resting : AtRest step internal before
      · exact ⟨[], before, .start, resting⟩
      · simp only [AtRest, not_forall] at resting
        obtain ⟨action, isInternal, enabled⟩ := resting
        obtain ⟨middle, taken⟩ := Option.ne_none_iff_exists'.mp enabled
        have less := settles.decreases initially isInternal taken
        rw [bound] at less
        obtain ⟨trace, after, later, rest⟩ :=
          inductionHypothesis (work middle) less
            (settles.kept initially isInternal taken) rfl
        exact ⟨_, after, later.cons isInternal taken, rest⟩

end Settles

/-- A sum is less when one of its terms is and the others are the same. -/
theorem sum_lt_of_term
    {members : Finset Nat}
    {before after : Nat → Nat}
    {index : Nat}
    (member : index ∈ members)
    (less : after index < before index)
    (others :
      ∀ other ∈ members,
        other ≠ index →
        after other = before other) :
    ∑ other ∈ members, after other <
      ∑ other ∈ members, before other := by
  apply Finset.sum_lt_sum
  · intro other isMember
    by_cases same : other = index
    · rw [same]
      exact Nat.le_of_lt less
    · exact Nat.le_of_eq (others other isMember same)
  · exact ⟨index, member, less⟩

end TransitionSystem
