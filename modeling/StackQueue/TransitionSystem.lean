import Mathlib.Logic.Basic

namespace TransitionSystem

/-!
# Runs of a partial step function

A system is an executable step function `step : State → Action → Option State`;
an action that is not enabled yields `none`.  `Reachable` collects the states
of the runs whose every step satisfies a side condition, `Run` keeps the trace
of such a run, and `execute` computes one.  The rules at the end carry an
invariant along a run, and transport a run to a smaller system along a
projection of states.
-/

universe u v w z

variable {State : Type u} {Action : Type v}

/-- The side condition that every step meets. -/
def anyStep (_ : State) (_ : Action) : Prop :=
  True

/-- The states reached from `initial` by steps that are all `allowed`. -/
inductive Reachable
    (step : State → Action → Option State)
    (allowed : State → Action → Prop)
    (initial : State) : State → Prop where
  | start :
      Reachable step allowed initial initial
  | next
      {before after : State}
      {action : Action} :
      Reachable step allowed initial before →
      allowed before action →
      step before action = some after →
      Reachable step allowed initial after

/-- A run with its trace: each state left, with the action taken there. -/
inductive Run
    (step : State → Action → Option State)
    (initial : State) : List (State × Action) → State → Prop where
  | start :
      Run step initial [] initial
  | next
      {trace : List (State × Action)}
      {before after : State}
      {action : Action} :
      Run step initial trace before →
      step before action = some after →
      Run step initial (trace ++ [(before, action)]) after

/-- Perform a list of actions, failing at the first one that is not enabled. -/
def execute
    (step : State → Action → Option State) :
    State → List Action → Option State
  | state, [] => some state
  | state, action :: rest =>
      match step state action with
      | some after => execute step after rest
      | none => none

/-- Perform a list of actions, as far as each of them is permitted. -/
def executeWhere
    (step : State → Action → Option State)
    (allowed : State → Action → Prop)
    [∀ state action, Decidable (allowed state action)] :
    State → List Action → Option State
  | state, [] => some state
  | state, action :: rest =>
      if allowed state action then
        match step state action with
        | some after => executeWhere step allowed after rest
        | none => none
      else
        none

namespace Reachable

variable
    {step : State → Action → Option State}
    {allowed : State → Action → Prop}
    {initial : State}

/--
An invariant that holds initially and survives every allowed step from a
reachable state holds in every reachable state.
-/
theorem invariant
    {holds : State → Prop}
    (initially : holds initial)
    (preserved :
      ∀ {before after : State} {action : Action},
        Reachable step allowed initial before →
        holds before →
        allowed before action →
        step before action = some after →
        holds after)
    {state : State}
    (reachable : Reachable step allowed initial state) :
    holds state := by
  induction reachable with
  | start =>
      exact initially
  | next earlier permitted taken inductionHypothesis =>
      exact preserved earlier inductionHypothesis permitted taken

/-- A weaker side condition reaches at least as many states. -/
theorem mono
    {weaker : State → Action → Prop}
    (weakens :
      ∀ state action, allowed state action → weaker state action)
    {state : State}
    (reachable : Reachable step allowed initial state) :
    Reachable step weaker initial state := by
  induction reachable with
  | start =>
      exact .start
  | next _ permitted taken inductionHypothesis =>
      exact .next inductionHypothesis (weakens _ _ permitted) taken

/-- Forget the side condition of a run. -/
theorem any
    {state : State}
    (reachable : Reachable step allowed initial state) :
    Reachable step anyStep initial state :=
  reachable.mono fun _ _ _ => trivial

/--
A side condition that reachable states impose by themselves can be added to
the one a run already meets.
-/
theorem strengthen
    {stronger : State → Action → Prop}
    (implied :
      ∀ {state : State} {action : Action},
        Reachable step stronger initial state →
        allowed state action →
        stronger state action)
    {state : State}
    (reachable : Reachable step allowed initial state) :
    Reachable step stronger initial state := by
  induction reachable with
  | start =>
      exact .start
  | next _ permitted taken inductionHypothesis =>
      exact .next inductionHypothesis
        (implied inductionHypothesis permitted) taken

/-- Performing enabled actions from a reachable state stays reachable. -/
theorem execute
    {actions : List Action}
    {before after : State}
    (reachable : Reachable step anyStep initial before)
    (performed :
      TransitionSystem.execute step before actions = some after) :
    Reachable step anyStep initial after := by
  induction actions generalizing before with
  | nil =>
      simp only [TransitionSystem.execute, Option.some.injEq] at performed
      subst after
      exact reachable
  | cons action rest inductionHypothesis =>
      cases taken : step before action with
      | none =>
          simp [TransitionSystem.execute, taken] at performed
      | some middle =>
          simp only [TransitionSystem.execute, taken] at performed
          exact inductionHypothesis
            (reachable.next trivial taken) performed

/-- Performing permitted actions reaches a state. -/
theorem executeWhere
    [∀ state action, Decidable (allowed state action)]
    {actions : List Action}
    {before after : State}
    (reachable : Reachable step allowed initial before)
    (performed :
      TransitionSystem.executeWhere step allowed before actions =
        some after) :
    Reachable step allowed initial after := by
  induction actions generalizing before with
  | nil =>
      simp only [TransitionSystem.executeWhere, Option.some.injEq]
        at performed
      subst after
      exact reachable
  | cons action rest inductionHypothesis =>
      simp only [TransitionSystem.executeWhere] at performed
      split at performed
      · rename_i permitted
        split at performed
        · rename_i middle taken
          exact inductionHypothesis (reachable.next permitted taken)
            performed
        · cases performed
      · cases performed

/--
Projection of a run: when every step of the concrete system either leaves the
projected state alone or is an allowed step of the abstract system, concrete
reachable states project to abstract reachable states.
-/
theorem project
    {Abstract : Type w} {AbstractAction : Type z}
    {abstractStep : Abstract → AbstractAction → Option Abstract}
    {abstractAllowed : Abstract → AbstractAction → Prop}
    (view : State → Abstract)
    (simulates :
      ∀ {before after : State} {action : Action},
        Reachable step allowed initial before →
        allowed before action →
        step before action = some after →
        view after = view before ∨
          ∃ abstractAction,
            abstractAllowed (view before) abstractAction ∧
              abstractStep (view before) abstractAction =
                some (view after))
    {state : State}
    (reachable : Reachable step allowed initial state) :
    Reachable abstractStep abstractAllowed (view initial) (view state) := by
  induction reachable with
  | start =>
      exact .start
  | next earlier permitted taken inductionHypothesis =>
      rcases simulates earlier permitted taken with
        stutters | ⟨abstractAction, abstractPermitted, abstractTaken⟩
      · rw [stutters]
        exact inductionHypothesis
      · exact .next inductionHypothesis abstractPermitted abstractTaken

end Reachable

namespace Run

variable
    {step : State → Action → Option State}
    {initial : State}

/-- Two runs follow each other. -/
theorem append
    {first second : List (State × Action)}
    {middle after : State}
    (earlier : Run step initial first middle)
    (later : Run step middle second after) :
    Run step initial (first ++ second) after := by
  induction later with
  | start =>
      rw [List.append_nil]
      exact earlier
  | next _ taken inductionHypothesis =>
      rw [← List.append_assoc]
      exact inductionHypothesis.next taken

/-- A step and the run that follows it. -/
theorem cons
    {trace : List (State × Action)}
    {middle after : State}
    {action : Action}
    (taken : step initial action = some middle)
    (later : Run step middle trace after) :
    Run step initial ((initial, action) :: trace) after :=
  (start.next taken).append later

/-- The last state of a run from a reachable state is reachable. -/
theorem reachable_from
    {origin state : State}
    {trace : List (State × Action)}
    (run : Run step initial trace state)
    (reachable : Reachable step anyStep origin initial) :
    Reachable step anyStep origin state := by
  induction run with
  | start =>
      exact reachable
  | next _ taken inductionHypothesis =>
      exact inductionHypothesis.next trivial taken

/-- The last state of a run whose steps are all allowed is reachable. -/
theorem reachable
    {allowed : State → Action → Prop}
    {trace : List (State × Action)}
    {state : State}
    (run : Run step initial trace state)
    (permitted : ∀ taken ∈ trace, allowed taken.1 taken.2) :
    Reachable step allowed initial state := by
  induction run with
  | start =>
      exact .start
  | next _ taken inductionHypothesis =>
      refine .next
        (inductionHypothesis fun earlier member =>
          permitted earlier (by simp [member])) ?_ taken
      exact permitted (_, _) (by simp)

/-- The trace of an execution is a run. -/
theorem of_execute
    {actions : List Action}
    {before after : State}
    {trace : List (State × Action)}
    (run : Run step initial trace before)
    (performed : execute step before actions = some after) :
    ∃ longer, Run step initial longer after := by
  induction actions generalizing before trace with
  | nil =>
      simp only [execute, Option.some.injEq] at performed
      subst after
      exact ⟨trace, run⟩
  | cons action rest inductionHypothesis =>
      cases taken : step before action with
      | none =>
          simp [execute, taken] at performed
      | some middle =>
          simp only [execute, taken] at performed
          exact inductionHypothesis (run.next taken) performed

/-- Performing permitted actions makes a run of permitted steps. -/
theorem of_executeWhere
    {allowed : State → Action → Prop}
    [∀ state action, Decidable (allowed state action)]
    {actions : List Action}
    {before after : State}
    {trace : List (State × Action)}
    (run : Run step initial trace before)
    (permitted : ∀ taken ∈ trace, allowed taken.1 taken.2)
    (performed : executeWhere step allowed before actions = some after) :
    ∃ longer,
      Run step initial longer after ∧
        ∀ taken ∈ longer, allowed taken.1 taken.2 := by
  induction actions generalizing before trace with
  | nil =>
      simp only [executeWhere, Option.some.injEq] at performed
      subst after
      exact ⟨trace, run, permitted⟩
  | cons action rest inductionHypothesis =>
      simp only [executeWhere] at performed
      split at performed
      · rename_i isPermitted
        split at performed
        · rename_i middle taken
          refine inductionHypothesis (run.next taken) ?_ performed
          intro entry member
          rcases List.mem_append.mp member with inTrace | isLast
          · exact permitted entry inTrace
          · rw [List.mem_singleton.mp isLast]
            exact isPermitted
        · cases performed
      · cases performed

/-- Every state that a run of allowed steps passes is reachable by them. -/
theorem reachable_of_mem
    {allowed : State → Action → Prop}
    {trace : List (State × Action)}
    {state : State}
    (run : Run step initial trace state)
    (permitted : ∀ taken ∈ trace, allowed taken.1 taken.2)
    {taken : State × Action}
    (member : taken ∈ trace) :
    Reachable step allowed initial taken.1 := by
  induction run with
  | start =>
      cases member
  | next earlier _ inductionHypothesis =>
      have earlierPermitted :=
        fun entry inTrace =>
          permitted entry (List.mem_append_left _ inTrace)
      rcases List.mem_append.mp member with inTrace | isLast
      · exact inductionHypothesis earlierPermitted inTrace
      · rw [List.mem_singleton.mp isLast]
        exact earlier.reachable earlierPermitted

/--
Exactly which runs of `allowed` steps stay within `holds`, where the steps so
far may matter to the next one: if steps that meet `condition` keep an
invariant that implies `holds`, and a step that reaches `holds` from the
invariant must meet `condition`, then a run stays within `holds` exactly if
each of its steps meets `condition` after the steps before it.
-/
theorem holds_iff_history
    {allowed : State → Action → Prop}
    {holds : State → Prop}
    {invariant : List (State × Action) → State → Prop}
    {condition : List (State × Action) → State × Action → Prop}
    (initially : invariant [] initial)
    (implies :
      ∀ {trace : List (State × Action)} {state : State},
        Reachable step allowed initial state →
        invariant trace state →
        holds state)
    (kept :
      ∀ {trace : List (State × Action)}
        {before after : State} {action : Action},
        Reachable step allowed initial before →
        invariant trace before →
        allowed before action →
        condition trace (before, action) →
        step before action = some after →
        invariant (trace ++ [(before, action)]) after)
    (necessary :
      ∀ {trace : List (State × Action)}
        {before after : State} {action : Action},
        Reachable step allowed initial before →
        invariant trace before →
        allowed before action →
        step before action = some after →
        holds after →
        condition trace (before, action))
    {trace : List (State × Action)}
    {state : State}
    (run : Run step initial trace state)
    (permitted : ∀ taken ∈ trace, allowed taken.1 taken.2) :
    ((∀ taken ∈ trace, holds taken.1) ∧ holds state) ↔
      ∀ earlier taken,
        earlier ++ [taken] <+: trace → condition earlier taken := by
  have invariantOf :
      ∀ {trace : List (State × Action)} {state : State},
        Run step initial trace state →
        (∀ taken ∈ trace, allowed taken.1 taken.2) →
        (∀ earlier taken,
          earlier ++ [taken] <+: trace → condition earlier taken) →
        (∀ taken ∈ trace, holds taken.1) ∧ invariant trace state := by
    intro trace state run
    induction run with
    | start =>
        exact fun _ _ => ⟨by simp, initially⟩
    | @next trace before after action earlier taken inductionHypothesis =>
        intro permitted allMeet
        have earlierPermitted :
            ∀ taken ∈ trace, allowed taken.1 taken.2 :=
          fun entry member =>
            permitted entry (List.mem_append_left _ member)
        have reachable := earlier.reachable earlierPermitted
        obtain ⟨allHold, beforeInvariant⟩ :=
          inductionHypothesis earlierPermitted fun history entry isPrefix =>
            allMeet history entry
              (isPrefix.trans (List.prefix_append _ _))
        refine ⟨?_, kept reachable beforeInvariant
          (permitted (before, action) (by simp))
          (allMeet trace (before, action) (List.prefix_refl _)) taken⟩
        intro entry member
        rcases List.mem_append.mp member with inTrace | isLast
        · exact allHold entry inTrace
        · rw [List.mem_singleton.mp isLast]
          exact implies reachable beforeInvariant
  constructor
  · induction run with
    | start =>
        simp
    | @next trace before after action earlier taken inductionHypothesis =>
        rintro ⟨allHold, afterHolds⟩
        have earlierPermitted :
            ∀ taken ∈ trace, allowed taken.1 taken.2 :=
          fun entry member =>
            permitted entry (List.mem_append_left _ member)
        have earlierMeet :=
          inductionHypothesis earlierPermitted
            ⟨fun entry member =>
                allHold entry (List.mem_append_left _ member),
              allHold (before, action) (by simp)⟩
        intro history entry isPrefix
        rcases List.prefix_concat_iff.mp isPrefix with isWhole | inTrace
        · obtain ⟨sameHistory, sameEntry⟩ :=
            List.append_inj' isWhole rfl
          rw [sameHistory, List.singleton_inj.mp sameEntry]
          exact necessary (earlier.reachable earlierPermitted)
            (invariantOf earlier earlierPermitted earlierMeet).2
            (permitted (before, action) (by simp)) taken afterHolds
        · exact earlierMeet history entry inTrace
  · intro allMeet
    obtain ⟨allHold, lastInvariant⟩ := invariantOf run permitted allMeet
    exact ⟨allHold, implies (run.reachable permitted) lastInvariant⟩

/--
Exactly which runs of `allowed` steps stay within `holds`, where only the
state before a step matters.
-/
theorem holds_iff_condition
    {allowed : State → Action → Prop}
    {holds invariant : State → Prop}
    {condition : State → Action → Prop}
    (initially : invariant initial)
    (implies :
      ∀ {state : State},
        Reachable step allowed initial state →
        invariant state →
        holds state)
    (kept :
      ∀ {before after : State} {action : Action},
        Reachable step allowed initial before →
        invariant before →
        allowed before action →
        condition before action →
        step before action = some after →
        invariant after)
    (necessary :
      ∀ {before after : State} {action : Action},
        Reachable step allowed initial before →
        invariant before →
        allowed before action →
        step before action = some after →
        holds after →
        condition before action)
    {trace : List (State × Action)}
    {state : State}
    (run : Run step initial trace state)
    (permitted : ∀ taken ∈ trace, allowed taken.1 taken.2) :
    ((∀ taken ∈ trace, holds taken.1) ∧ holds state) ↔
      ∀ taken ∈ trace, condition taken.1 taken.2 := by
  let after : List (State × Action) → State → Prop :=
    fun _ state => invariant state
  let meets : List (State × Action) → State × Action → Prop :=
    fun _ taken => condition taken.1 taken.2
  have atStart : after [] initial := initially
  have history :
      ((∀ taken ∈ trace, holds taken.1) ∧ holds state) ↔
        ∀ earlier taken,
          earlier ++ [taken] <+: trace → meets earlier taken :=
    holds_iff_history atStart implies kept necessary run permitted
  rw [history]
  constructor
  · intro allMeet taken member
    obtain ⟨earlier, later, split⟩ := List.append_of_mem member
    apply allMeet earlier taken
    refine ⟨later, ?_⟩
    rw [split, List.append_assoc]
    rfl
  · intro allMeet earlier taken isPrefix
    apply allMeet taken
    apply isPrefix.subset
    exact List.mem_append_right _ (List.mem_singleton_self taken)

end Run

end TransitionSystem
