import StackQueue.BackgroundQueue

namespace StackQueue.BackgroundQueue

open Queue Callers RangeTasks

/-!
# Each job is in one place

`JobInvariant` follows every job through the queues of all threads: a job that
was not accepted is unknown to every queue or within the push to one of them,
and an accepted job is known to one queue only, where it is the opener of the
range that it processes or has joined another one's.
-/

variable {width : PointerWidth} {Task : Type}

/-- A queue has nothing to do with a job. -/
def Unknown (callers : Callers.State Task) (job : Nat) : Prop :=
  callers.call ≠ some job ∧ job ∉ callers.pushers

/-- No queue but one thread's has anything to do with a job. -/
def UnknownElsewhere
    (threads : Nat → Callers.State Task)
    (thread job : Nat) :
    Prop :=
  ∀ other, other ≠ thread → Unknown (threads other) job

/-- What the state of a job says about the queues. -/
def JobAt
    (task : Nat → Task)
    (threads : Nat → Callers.State Task)
    (job : Nat) :
    Job Task → Prop
  | .unstarted held | .pending held =>
      held = task job ∧ ∀ thread, Unknown (threads thread) job
  | .pushing thread _ =>
      (threads thread).call = some job ∧
        UnknownElsewhere threads thread job
  | .processing thread batch =>
      (threads thread).call ≠ some job ∧
        (threads thread).openers[batch]? = some job ∧
        UnknownElsewhere threads thread job
  | .joined =>
      ∃ thread,
        (threads thread).call ≠ some job ∧
          job ∈ (threads thread).pushers ∧
          job ∉ (threads thread).openers ∧
          UnknownElsewhere threads thread job
  | .dropped => ∀ thread, Unknown (threads thread) job

/-- Where the jobs are. -/
structure JobInvariant
    (task : Nat → Task)
    (state : State Task) : Prop where
  callers : ∀ thread, CallerInvariant task (state.threads thread)
  jobs : ∀ job, JobAt task state.threads job (state.jobs job)

/-! ## Steps of one queue -/

/-- A step of a queue makes no difference to a job. -/
structure Untouched
    (before after : Callers.State Task)
    (job : Nat) : Prop where
  call : after.call = some job ↔ before.call = some job
  pushers : job ∈ after.pushers ↔ job ∈ before.pushers
  openers : job ∈ after.openers ↔ job ∈ before.openers
  opener :
    ∀ batch : Nat,
      before.openers[batch]? = some job → after.openers[batch]? = some job

section Steps

variable
    {task : Nat → Task}
    {threads : Nat → Callers.State Task}
    {thread job : Nat}
    {callers : Callers.State Task}

theorem Untouched.unknown
    {before after : Callers.State Task}
    (untouched : Untouched before after job)
    (unknown : Unknown before job) :
    Unknown after job :=
  ⟨fun called => unknown.1 (untouched.call.mp called),
    fun member => unknown.2 (untouched.pushers.mp member)⟩

/-- Every queue after a step of one of them. -/
theorem update_unknown
    (untouched : Untouched (threads thread) callers job)
    {other : Nat}
    (unknown : Unknown (threads other) job) :
    Unknown (Function.update threads thread callers other) job := by
  by_cases same : other = thread
  · subst same
    rw [Function.update_self]
    exact untouched.unknown unknown
  · rw [Function.update_of_ne same]
    exact unknown

theorem update_unknownElsewhere
    (untouched : Untouched (threads thread) callers job)
    {home : Nat}
    (unknown : UnknownElsewhere threads home job) :
    UnknownElsewhere (Function.update threads thread callers) home job :=
  fun other differs =>
    update_unknown untouched (unknown other differs)

/-- Outside the thread that steps, nothing changes. -/
theorem update_elsewhere
    (unknown : UnknownElsewhere threads thread job) :
    UnknownElsewhere (Function.update threads thread callers) thread
      job := by
  intro other differs
  rw [Function.update_of_ne differs]
  exact unknown other differs

/-- A job that the step does not touch is where it was. -/
theorem JobAt.of_untouched
    {state : Job Task}
    (jobAt : JobAt task threads job state)
    (untouched : Untouched (threads thread) callers job) :
    JobAt task (Function.update threads thread callers) job state := by
  have here {home : Nat} :
      Untouched (threads home)
        (Function.update threads thread callers home) job := by
    by_cases same : home = thread
    · subst same
      rw [Function.update_self]
      exact untouched
    · rw [Function.update_of_ne same]
      exact ⟨Iff.rfl, Iff.rfl, Iff.rfl, fun _ => id⟩
  cases state with
  | unstarted held | pending held =>
      exact
        ⟨jobAt.1, fun other => update_unknown untouched (jobAt.2 other)⟩
  | pushing home spawned =>
      obtain ⟨called, unknown⟩ := jobAt
      exact
        ⟨here.call.mpr called,
          update_unknownElsewhere untouched unknown⟩
  | processing home batch =>
      obtain ⟨notCalled, isOpener, unknown⟩ := jobAt
      exact
        ⟨fun called => notCalled (here.call.mp called),
          here.opener batch isOpener,
          update_unknownElsewhere untouched unknown⟩
  | joined =>
      obtain ⟨home, notCalled, member, notOpener, unknown⟩ := jobAt
      exact
        ⟨home, fun called => notCalled (here.call.mp called),
          here.pushers.mpr member,
          fun opens => notOpener (here.openers.mp opens),
          update_unknownElsewhere untouched unknown⟩
  | dropped =>
      exact fun other => update_unknown untouched (jobAt other)

/-- What a step of a queue means to the jobs that are not in its call. -/
theorem untouched_of_move
    {N : BufferSize width}
    {needsDrop : Bool}
    {before after : Callers.State Task}
    {action : Callers.Action Task}
    (moved : Callers.Move N needsDrop before action after)
    (notCalled : before.call ≠ some job)
    (notCaller : after.call ≠ some job) :
    Untouched before after job := by
  have absent
      {caller : Option Nat}
      (differs : caller ≠ some job) :
      job ∉ caller.toList := by
    rw [Option.mem_toList]
    exact differs
  cases moved with
  | push idle moved =>
      exact
        ⟨⟨fun called => (notCaller called).elim,
            fun called => (notCalled called).elim⟩,
          Iff.rfl, Iff.rfl, fun _ => id⟩
  | owner moved =>
      have notAccepted : job ∉ before.accepting := by
        unfold Callers.State.accepting
        split
        · exact absent notCalled
        · exact List.not_mem_nil
      have notOpening : job ∉ before.opening := by
        unfold Callers.State.opening
        split
        · exact absent notCalled
        · exact List.not_mem_nil
      refine ⟨Iff.rfl, ?_, ?_, ?_⟩
      · change job ∈ before.pushers ++ before.accepting ↔ _
        rw [List.mem_append, or_iff_left notAccepted]
      · change job ∈ before.openers ++ before.opening ↔ _
        rw [List.mem_append, or_iff_left notOpening]
      · intro batch isOpener
        change (before.openers ++ before.opening)[batch]? = some job
        rw [List.getElem?_append_left
          (List.getElem?_eq_some_iff.mp isOpener).1]
        exact isOpener
  | finish moved =>
      exact
        ⟨⟨fun called => (notCaller called).elim,
            fun called => (notCalled called).elim⟩,
          Iff.rfl, Iff.rfl, fun _ => id⟩
  | range on moved =>
      exact ⟨Iff.rfl, Iff.rfl, Iff.rfl, fun _ => id⟩

end Steps

namespace JobInvariant

variable
    {N : BufferSize width}
    {needsDrop : Bool}
    {task : Nat → Task}
    {state after : State Task}

theorem initial :
    JobInvariant task (BackgroundQueue.initial task) where
  callers := fun _ => .initial
  jobs := by
    intro job
    refine ⟨rfl, fun thread => ⟨?_, List.not_mem_nil⟩⟩
    intro called
    cases called

/-- A job within a push is in no other state. -/
theorem pushing_of_call
    (invariant : JobInvariant task state)
    {thread job : Nat}
    (called : (state.threads thread).call = some job) :
    ∃ spawned, state.jobs job = .pushing thread spawned := by
  have jobAt := invariant.jobs job
  have atHome
      {home : Nat}
      (unknown : UnknownElsewhere state.threads home job) :
      thread = home := by
    by_contra differs
    exact (unknown thread differs).1 called
  cases at_ : state.jobs job with
  | unstarted held | pending held =>
      rw [at_] at jobAt
      exact ((jobAt.2 thread).1 called).elim
  | pushing home spawned =>
      rw [at_] at jobAt
      rw [atHome jobAt.2]
      exact ⟨spawned, rfl⟩
  | processing home batch =>
      rw [at_] at jobAt
      obtain ⟨notCalled, _, unknown⟩ := jobAt
      rw [← atHome unknown] at notCalled
      exact (notCalled called).elim
  | joined =>
      rw [at_] at jobAt
      obtain ⟨home, notCalled, _, _, unknown⟩ := jobAt
      rw [← atHome unknown] at notCalled
      exact (notCalled called).elim
  | dropped =>
      rw [at_] at jobAt
      exact ((jobAt thread).1 called).elim

/-- A step of one thread's queue, with the job that it is about. -/
theorem of_thread
    (invariant : JobInvariant task state)
    {thread : Nat}
    {callers : Callers.State Task}
    (threads :
      after.threads = Function.update state.threads thread callers)
    (kept : CallerInvariant task callers)
    (jobs :
      ∀ job, JobAt task after.threads job (after.jobs job)) :
    JobInvariant task after where
  callers := by
    intro other
    rw [threads]
    by_cases same : other = thread
    · subst same
      rw [Function.update_self]
      exact kept
    · rw [Function.update_of_ne same]
      exact invariant.callers other
  jobs := jobs

/-- A job gives its task to the `push` on a thread. -/
theorem push
    (invariant : JobInvariant task state)
    (phases :
      ∀ thread, PhaseInvariant N (state.threads thread).base.queue)
    {thread job : Nat}
    {held : Task}
    {spawned : Bool}
    {callers : Callers.State Task}
    (holds :
      state.jobs job = .unstarted held ∨ state.jobs job = .pending held)
    (stepped :
      Callers.step N needsDrop (state.threads thread) (.push job held) =
        some callers) :
    JobInvariant task
      { threads := Function.update state.threads thread callers
        jobs :=
          Function.update state.jobs job (.pushing thread spawned) } := by
  have moved := Callers.step_move stepped
  have jobAt := invariant.jobs job
  obtain ⟨isTask, unknown⟩ :
      held = task job ∧
        ∀ other, Unknown (state.threads other) job := by
    rcases holds with at_ | at_
    · rw [at_] at jobAt
      exact jobAt
    · rw [at_] at jobAt
      exact jobAt
  have noCall : (state.threads thread).call = none := by
    cases moved with
    | push idle _ =>
        exact (invariant.callers thread).call_of_given idle
  have call : callers.call = some job := by
    cases moved with
    | push _ _ => rfl
  have own :
      (Callers.Action.push job held).IsOwn task (state.threads thread) :=
    ⟨isTask, (unknown thread).2⟩
  apply invariant.of_thread rfl
  case kept =>
    exact (invariant.callers thread).move (phases thread) own moved
  case jobs =>
    intro other
    change
      JobAt task (Function.update state.threads thread callers) other
        (Function.update state.jobs job (.pushing thread spawned) other)
    by_cases same : other = job
    · subst same
      rw [Function.update_self]
      refine ⟨?_, ?_⟩
      · rw [Function.update_self]
        exact call
      · exact update_elsewhere fun elsewhere _ => unknown elsewhere
    · rw [Function.update_of_ne same]
      apply (invariant.jobs other).of_untouched
      apply untouched_of_move moved
      · rw [noCall]
        intro called
        cases called
      · rw [call]
        intro called
        exact same (Option.some.inj called).symm

/-- A thread's owner takes a step within its push. -/
theorem owner
    (invariant : JobInvariant task state)
    (phases :
      ∀ thread, PhaseInvariant N (state.threads thread).base.queue)
    {thread : Nat}
    {callers : Callers.State Task}
    (stepped :
      Callers.step N needsDrop (state.threads thread) .owner =
        some callers) :
    JobInvariant task
      { state with
        threads := Function.update state.threads thread callers } := by
  have moved := Callers.step_move stepped
  have own :
      (Callers.Action.owner : Callers.Action Task).IsOwn task
        (state.threads thread) :=
    trivial
  have call : callers.call = (state.threads thread).call := by
    cases moved
    rfl
  apply invariant.of_thread rfl
  case kept =>
    exact (invariant.callers thread).move (phases thread) own moved
  case jobs =>
    intro job
    have jobAt := invariant.jobs job
    by_cases called : (state.threads thread).call = some job
    · obtain ⟨spawned, pushing⟩ := invariant.pushing_of_call called
      change
        JobAt task (Function.update state.threads thread callers) job
          (state.jobs job)
      rw [pushing] at jobAt ⊢
      refine ⟨?_, update_elsewhere jobAt.2⟩
      rw [Function.update_self, call]
      exact called
    · apply jobAt.of_untouched
      apply untouched_of_move moved called
      rw [call]
      exact called

/-- A `push` returns. -/
theorem finish
    (invariant : JobInvariant task state)
    (phases :
      ∀ thread, PhaseInvariant N (state.threads thread).base.queue)
    {thread job : Nat}
    {held : Task}
    {admission : Admission}
    {waker : Option Nat}
    {callers : Callers.State Task}
    (called : (state.threads thread).call = some job)
    (given : (state.threads thread).base.call = some held)
    (at_ :
      (state.threads thread).base.queue.owner = .returning admission)
    (stepped :
      Callers.step N needsDrop (state.threads thread) (.finish waker) =
        some callers) :
    JobInvariant task
      { threads := Function.update state.threads thread callers
        jobs :=
          Function.update state.jobs job
            (.afterPush thread held admission) } := by
  have moved := Callers.step_move stepped
  have here := invariant.callers thread
  have isTask : held = task job := by
    have ofCall := here.given
    rw [given, called] at ofCall
    exact Option.some.inj ofCall
  have elsewhere :
      UnknownElsewhere
        (Function.update state.threads thread callers) thread job := by
    obtain ⟨spawned, pushing⟩ := invariant.pushing_of_call called
    have jobAt := invariant.jobs job
    rw [pushing] at jobAt
    exact update_elsewhere jobAt.2
  have shape :
      callers.call = none ∧
        callers.pushers = (state.threads thread).pushers ∧
        callers.openers = (state.threads thread).openers := by
    cases moved
    exact ⟨rfl, rfl, rfl⟩
  obtain ⟨call, pushers, openers⟩ := shape
  have notCalled (other : Nat) : callers.call ≠ some other := by
    rw [call]
    intro some_
    cases some_
  have own :
      (Callers.Action.finish waker : Callers.Action Task).IsOwn task
        (state.threads thread) :=
    trivial
  apply invariant.of_thread rfl
  case kept => exact here.move (phases thread) own moved
  case jobs =>
    intro other
    change
      JobAt task (Function.update state.threads thread callers) other
        (Function.update state.jobs job
          (.afterPush thread held admission) other)
    by_cases same : other = job
    · subst same
      rw [Function.update_self]
      cases admission with
      | queueFull =>
          refine ⟨isTask, fun home => ?_⟩
          by_cases atHome : home = thread
          · subst atHome
            rw [Function.update_self]
            refine ⟨notCalled other, ?_⟩
            rw [pushers]
            exact here.fresh_of_refused called at_
          · exact elsewhere home atHome
      | joined =>
          refine ⟨thread, ?_, ?_, ?_, elsewhere⟩
          · rw [Function.update_self]
            exact notCalled other
          · rw [Function.update_self, pushers]
            apply here.accepted_of_returning called at_
            intro full
            cases full
          · rw [Function.update_self, openers]
            exact here.notMem_openers_of_joined called at_
      | opened batch =>
          refine ⟨?_, ?_, elsewhere⟩
          · rw [Function.update_self]
            exact notCalled other
          · rw [Function.update_self, openers]
            exact here.opener_of_opened called at_
    · rw [Function.update_of_ne same]
      apply (invariant.jobs other).of_untouched
      apply untouched_of_move moved
      · rw [called]
        intro alsoCalled
        exact same (Option.some.inj alsoCalled).symm
      · exact notCalled other

/-- `batch_process` makes use of its range. -/
theorem process
    (invariant : JobInvariant task state)
    (phases :
      ∀ thread, PhaseInvariant N (state.threads thread).base.queue)
    {thread batch : Nat}
    {action : RangeTasks.Action Task}
    {callers : Callers.State Task}
    (stepped :
      Callers.step N needsDrop (state.threads thread)
          (.range batch action) =
        some callers) :
    JobInvariant task
      { state with
        threads := Function.update state.threads thread callers } := by
  have moved := Callers.step_move stepped
  have own :
      (Callers.Action.range batch action).IsOwn task
        (state.threads thread) :=
    trivial
  apply invariant.of_thread rfl
  case kept =>
    exact (invariant.callers thread).move (phases thread) own moved
  case jobs =>
    intro job
    apply (invariant.jobs job).of_untouched
    cases moved
    exact ⟨Iff.rfl, Iff.rfl, Iff.rfl, fun _ => id⟩

/-- A pending job is dropped. -/
theorem drop
    (invariant : JobInvariant task state)
    {job : Nat}
    {held : Task}
    (holds : state.jobs job = .pending held) :
    JobInvariant task (state.setJob job .dropped) where
  callers := invariant.callers
  jobs := by
    intro other
    change
      JobAt task state.threads other
        (Function.update state.jobs job .dropped other)
    by_cases same : other = job
    · subst same
      have jobAt := invariant.jobs other
      rw [holds] at jobAt
      rw [Function.update_self]
      exact jobAt.2
    · rw [Function.update_of_ne same]
      exact invariant.jobs other

/-- Every step keeps the jobs where they are. -/
theorem move
    (invariant : JobInvariant task state)
    (phases :
      ∀ thread, PhaseInvariant N (state.threads thread).base.queue)
    (moved : Move N needsDrop state after) :
    JobInvariant task after := by
  cases moved with
  | push holds stepped =>
      exact invariant.push phases holds stepped
  | owner stepped =>
      exact invariant.owner phases stepped
  | finish called given at_ stepped =>
      exact invariant.finish phases called given at_ stepped
  | process holds stepped =>
      exact invariant.process phases stepped
  | drop holds =>
      exact invariant.drop holds

end JobInvariant

/-- In every run each job is where its state says. -/
theorem Reachable.jobInvariant
    {N : BufferSize width}
    {needsDrop : Bool}
    {task : Nat → Task}
    {state : State Task}
    (reachable : Reachable N needsDrop task state) :
    JobInvariant task state :=
  TransitionSystem.Reachable.invariant JobInvariant.initial
    (fun earlier invariant _ taken =>
      invariant.move
        (fun thread =>
          (RangeTasks.Reachable.queue
            (Reachable.base earlier thread)).phaseInvariant)
        (step_move taken))
    reachable

end StackQueue.BackgroundQueue
