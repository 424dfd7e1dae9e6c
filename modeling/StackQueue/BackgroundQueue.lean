import StackQueue.Callers

namespace StackQueue.BackgroundQueue

open Queue

/-!
# `BackgroundQueue`

The tasks given to `BackgroundQueue::auto_batch`, over the queues of any number
of threads.  `background_process` pushes a task to the queue of the calling
thread; a refused task is spawned as a `BackgroundEnqueue` future, which every
poll pushes to the queue of the thread that polls it.  A range that a push
returns is given to `batch_process`, which is arbitrary code that may do with
it, on any thread, whatever the interface of a range allows.

Threads and jobs are numbered, and the waker of a spawned job is its number.
-/

variable {width : PointerWidth} {Task : Type}

/-- What has become of a task of `auto_batch`. -/
inductive Job (Task : Type) where
  /-- `auto_batch` is still to be called with the task. -/
  | unstarted (task : Task)
  /-- Within the `push` to a thread's queue, spawned or not. -/
  | pushing (thread : Nat) (spawned : Bool)
  /-- `BackgroundEnqueue::Pending`, spawned. -/
  | pending (task : Task)
  /-- The task opened a range, which `batch_process` was given. -/
  | processing (thread batch : Nat)
  /-- The task joined a range. -/
  | joined
  /-- The spawned future was dropped with the task. -/
  | dropped
  deriving Repr, DecidableEq

/-- The queues of the threads, and the jobs. -/
structure State (Task : Type) where
  threads : Nat → Callers.State Task
  jobs : Nat → Job Task

/-- One step of a thread. -/
inductive Action (Task : Type) where
  /-- `auto_batch` is called on a thread. -/
  | autoBatch (thread job : Nat)
  /-- A spawned `BackgroundEnqueue` is polled on a thread. -/
  | poll (thread job : Nat)
  /-- The next access within the `push` on a thread. -/
  | owner (thread : Nat)
  /-- The `push` on a thread returns, and what called it. -/
  | finish (thread : Nat)
  /-- `batch_process` makes use of the range that it was given. -/
  | process (job : Nat) (action : RangeTasks.Action Task)
  /-- A pending job is dropped. -/
  | drop (job : Nat)
  deriving Repr, DecidableEq

/-- Queues without tasks, and jobs with theirs. -/
def initial (task : Nat → Task) : State Task where
  threads := fun _ => Callers.initial
  jobs := fun job => .unstarted (task job)

namespace State

/-- Take a step of one thread's queue or of one of its ranges. -/
def onThread
    (N : BufferSize width)
    (needsDrop : Bool)
    (state : State Task)
    (thread : Nat)
    (action : Callers.Action Task) :
    Option (State Task) :=
  (Callers.step N needsDrop (state.threads thread) action).map
    fun callers =>
      { state with
        threads := Function.update state.threads thread callers }

/-- Replace the state of one job. -/
def setJob
    (state : State Task)
    (index : Nat)
    (job : Job Task) :
    State Task :=
  { state with jobs := Function.update state.jobs index job }

end State

/-- The effect of one action, `none` when it is not enabled. -/
def step
    (N : BufferSize width)
    (needsDrop : Bool)
    (state : State Task) :
    Action Task → Option (State Task)
  | .autoBatch thread job =>
      match state.jobs job with
      | .unstarted task =>
          (state.setJob job (.pushing thread false)).onThread N needsDrop
            thread (.push job task)
      | _ => none
  | .poll thread job =>
      match state.jobs job with
      | .pending task =>
          (state.setJob job (.pushing thread true)).onThread N needsDrop
            thread (.push job task)
      | _ => none
  | .owner thread =>
      state.onThread N needsDrop thread .owner
  | .finish thread =>
      match (state.threads thread).call with
      | some job =>
          match state.jobs job, (state.threads thread).base.call,
            (state.threads thread).base.queue.owner with
          | .pushing _ spawned, some task, .returning .queueFull =>
              (state.setJob job (.pending task)).onThread N needsDrop
                thread (.finish (if spawned then some job else none))
          | .pushing _ _, some _, .returning .joined =>
              (state.setJob job .joined).onThread N needsDrop thread
                (.finish none)
          | .pushing _ _, some _, .returning (.opened batch) =>
              (state.setJob job (.processing thread batch)).onThread N
                needsDrop thread (.finish none)
          | _, _, _ => none
      | none => none
  | .process job action =>
      match state.jobs job with
      | .processing thread batch =>
          state.onThread N needsDrop thread (.range batch action)
      | _ => none
  | .drop job =>
      match state.jobs job with
      | .pending _ => some (state.setJob job .dropped)
      | _ => none

/-- What the return of a push makes of the job. -/
def Job.afterPush (thread : Nat) (task : Task) : Admission → Job Task
  | .queueFull => .pending task
  | .joined => .joined
  | .opened batch => .processing thread batch

/-- The states of the runs of the threads' queues and their jobs. -/
abbrev Reachable
    (N : BufferSize width)
    (needsDrop : Bool)
    (task : Nat → Task)
    (state : State Task) :
    Prop :=
  TransitionSystem.Reachable (step N needsDrop) TransitionSystem.anyStep
    (initial task) state

/-! ## What one step can do -/

/-- The moves of the machine, one constructor for each kind of step. -/
inductive Move
    (N : BufferSize width)
    (needsDrop : Bool)
    (state : State Task) :
    State Task → Prop where
  | push
      {thread job : Nat}
      {task : Task}
      {spawned : Bool}
      {callers : Callers.State Task}
      (holds :
        state.jobs job = .unstarted task ∨ state.jobs job = .pending task)
      (stepped :
        Callers.step N needsDrop (state.threads thread) (.push job task) =
          some callers) :
      Move N needsDrop state
        { threads := Function.update state.threads thread callers
          jobs :=
            Function.update state.jobs job (.pushing thread spawned) }
  | owner
      {thread : Nat}
      {callers : Callers.State Task}
      (stepped :
        Callers.step N needsDrop (state.threads thread) .owner =
          some callers) :
      Move N needsDrop state
        { state with
          threads := Function.update state.threads thread callers }
  | finish
      {thread job : Nat}
      {task : Task}
      {admission : Admission}
      {waker : Option Nat}
      {callers : Callers.State Task}
      (called : (state.threads thread).call = some job)
      (given : (state.threads thread).base.call = some task)
      (at_ :
        (state.threads thread).base.queue.owner = .returning admission)
      (stepped :
        Callers.step N needsDrop (state.threads thread) (.finish waker) =
          some callers) :
      Move N needsDrop state
        { threads := Function.update state.threads thread callers
          jobs :=
            Function.update state.jobs job
              (.afterPush thread task admission) }
  | process
      {job thread batch : Nat}
      {action : RangeTasks.Action Task}
      {callers : Callers.State Task}
      (holds : state.jobs job = .processing thread batch)
      (stepped :
        Callers.step N needsDrop (state.threads thread)
            (.range batch action) =
          some callers) :
      Move N needsDrop state
        { state with
          threads := Function.update state.threads thread callers }
  | drop
      {job : Nat}
      {task : Task}
      (holds : state.jobs job = .pending task) :
      Move N needsDrop state (state.setJob job .dropped)

section Moves

variable
    {N : BufferSize width}
    {needsDrop : Bool}
    {state after : State Task}

theorem onThread_some
    {thread : Nat}
    {action : Callers.Action Task}
    (taken : state.onThread N needsDrop thread action = some after) :
    ∃ callers,
      Callers.step N needsDrop (state.threads thread) action =
          some callers ∧
        { state with
          threads := Function.update state.threads thread callers } =
          after := by
  rw [State.onThread, Option.map_eq_some_iff] at taken
  exact taken

/-- `step` makes no other move. -/
theorem step_move
    {action : Action Task}
    (taken : step N needsDrop state action = some after) :
    Move N needsDrop state after := by
  cases action with
  | autoBatch thread job =>
      simp only [step] at taken
      split at taken
      · rename_i holds
        obtain ⟨callers, stepped, shape⟩ := onThread_some taken
        subst shape
        exact .push (.inl holds) stepped
      · cases taken
  | poll thread job =>
      simp only [step] at taken
      split at taken
      · rename_i holds
        obtain ⟨callers, stepped, shape⟩ := onThread_some taken
        subst shape
        exact .push (.inr holds) stepped
      · cases taken
  | owner thread =>
      obtain ⟨callers, stepped, shape⟩ := onThread_some taken
      subst shape
      exact .owner stepped
  | finish thread =>
      simp only [step] at taken
      split at taken
      · rename_i job called
        split at taken
        · rename_i given at_
          obtain ⟨callers, stepped, shape⟩ := onThread_some taken
          subst shape
          exact .finish called given at_ stepped
        · rename_i given at_
          obtain ⟨callers, stepped, shape⟩ := onThread_some taken
          subst shape
          exact .finish called given at_ stepped
        · rename_i given at_
          obtain ⟨callers, stepped, shape⟩ := onThread_some taken
          subst shape
          exact .finish called given at_ stepped
        · cases taken
      · cases taken
  | process job action =>
      simp only [step] at taken
      split at taken
      · rename_i holds
        obtain ⟨callers, stepped, shape⟩ := onThread_some taken
        subst shape
        exact .process holds stepped
      · cases taken
  | drop job =>
      simp only [step] at taken
      split at taken <;> cases taken
      rename_i holds
      exact .drop holds

/-- A step is at most one step of one thread's queue and its ranges. -/
theorem Move.base
    (moved : Move N needsDrop state after)
    (thread : Nat) :
    (after.threads thread).base = (state.threads thread).base ∨
      ∃ action,
        RangeTasks.step N needsDrop (state.threads thread).base action =
          some (after.threads thread).base := by
  have onThread
      {other : Nat}
      {action : Callers.Action Task}
      {callers : Callers.State Task}
      (stepped :
        Callers.step N needsDrop (state.threads other) action =
          some callers)
      (threads :
        after.threads = Function.update state.threads other callers) :
      (after.threads thread).base = (state.threads thread).base ∨
        ∃ action,
          RangeTasks.step N needsDrop (state.threads thread).base action =
            some (after.threads thread).base := by
    by_cases same : thread = other
    · subst same
      rw [threads, Function.update_self]
      exact .inr (Callers.step_base stepped)
    · rw [threads, Function.update_of_ne same]
      exact .inl rfl
  cases moved with
  | push holds stepped | owner stepped
  | finish called given at_ stepped | process holds stepped =>
      exact onThread stepped rfl
  | drop holds =>
      exact .inl rfl

/-- Each thread's queue and ranges inside a run make a run of their own. -/
theorem Reachable.base
    {task : Nat → Task}
    (reachable : Reachable N needsDrop task state)
    (thread : Nat) :
    RangeTasks.Reachable N needsDrop (state.threads thread).base :=
  TransitionSystem.Reachable.project
    (fun state : State Task => (state.threads thread).base)
    (fun _ _ taken =>
      ((step_move taken).base thread).imp_right
        fun ⟨action, stepped⟩ => ⟨action, trivial, stepped⟩)
    reachable

end Moves

end StackQueue.BackgroundQueue
