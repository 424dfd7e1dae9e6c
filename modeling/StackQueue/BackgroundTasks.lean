import StackQueue.BackgroundJobs

namespace StackQueue.BackgroundQueue

open Queue Callers RangeTasks

/-!
# What becomes of the tasks of `auto_batch`

Each task is accepted by one queue at most, whatever threads its polls run on,
and is kept by its job until then.  Each range is given to one `batch_process`,
by the job whose push opened it, and once a thread's ranges are settled every
task that its queue accepted has been taken exactly once.
-/

variable {width : PointerWidth} {Task : Type}

/-- What `auto_batch` promises of a state. -/
structure Processed
    (N : BufferSize width)
    (needsDrop : Bool)
    (task : Nat → Task)
    (state : State Task) : Prop where
  /-- The accepted tasks are those of the jobs. -/
  ownTasks :
    ∀ thread,
      (state.threads thread).base.pushed =
        (state.threads thread).pushers.map task
  /-- No job's task is accepted twice, by one queue or by two. -/
  acceptedOnce :
    ∀ (job first second i j : Nat),
      (state.threads first).pushers[i]? = some job →
      (state.threads second).pushers[j]? = some job →
      first = second ∧ i = j
  /-- A job that waits has its own task, which no queue accepted. -/
  waiting :
    ∀ (job : Nat) (held : Task),
      (state.jobs job = .unstarted held ∨
        state.jobs job = .pending held) →
      held = task job ∧
        ∀ thread, job ∉ (state.threads thread).pushers
  /-- A task that was dropped with its job was not accepted either. -/
  dropped :
    ∀ job,
      state.jobs job = .dropped →
      ∀ thread, job ∉ (state.threads thread).pushers
  /-- A job is through with its task when a queue has accepted it. -/
  through :
    ∀ job,
      (state.jobs job = .joined ∨
        ∃ thread batch, state.jobs job = .processing thread batch) →
      ∃ thread, job ∈ (state.threads thread).pushers
  /-- `batch_process` is given the range that the job's own task opens. -/
  opened :
    ∀ (job thread batch : Nat) (handle : Handle),
      state.jobs job = .processing thread batch →
      (state.threads thread).base.queue.handles[batch]? = some handle →
      (state.threads thread).pushers[handle.first]? = some job
  /-- Each range is given once, when the push that opened it returns. -/
  given :
    ∀ thread batch,
      batch < (state.threads thread).base.queue.handles.length →
      ((∃! job, state.jobs job = .processing thread batch) ↔
        (state.threads thread).base.queue.owner ≠
          .returning (.opened batch))
  /-- Whatever a range's code does, no task of it is taken twice. -/
  accounts : ∀ thread, Accounts N needsDrop (state.threads thread).base
  /-- Every accepted task is taken when the ranges are settled. -/
  taken :
    ∀ thread,
      (state.threads thread).base.queue.owner = .idle →
      (∀ (batch : Nat) (handle : Handle),
        (state.threads thread).base.queue.handles[batch]? = some handle →
        (state.threads thread).base.IsSettled width needsDrop batch
          handle) →
      ∀ (k job : Nat),
        (state.threads thread).pushers[k]? = some job →
        (state.threads thread).base.allTaken[k]? =
          some (some (task job))

namespace JobInvariant

variable
    {N : BufferSize width}
    {needsDrop : Bool}
    {task : Nat → Task}
    {state : State Task}

/-- A queue that accepted a task is the only one that knows the job. -/
theorem home_unique
    (invariant : JobInvariant task state)
    {job first second : Nat}
    (member : job ∈ (state.threads first).pushers)
    (also : job ∈ (state.threads second).pushers) :
    first = second := by
  have jobAt := invariant.jobs job
  have only
      {home : Nat}
      (unknown : UnknownElsewhere state.threads home job) :
      first = second := by
    have atFirst : first = home := by
      by_contra differs
      exact (unknown first differs).2 member
    have atSecond : second = home := by
      by_contra differs
      exact (unknown second differs).2 also
    exact atFirst.trans atSecond.symm
  cases at_ : state.jobs job with
  | unstarted held | pending held =>
      rw [at_] at jobAt
      exact ((jobAt.2 first).2 member).elim
  | pushing home spawned =>
      rw [at_] at jobAt
      exact only jobAt.2
  | processing home batch =>
      rw [at_] at jobAt
      exact only jobAt.2.2
  | joined =>
      rw [at_] at jobAt
      obtain ⟨home, _, _, _, unknown⟩ := jobAt
      exact only unknown
  | dropped =>
      rw [at_] at jobAt
      exact ((jobAt first).2 member).elim

/-- The opener of a range holds it, or is about to be given it. -/
theorem opener_holds
    (invariant : JobInvariant task state)
    {thread batch opener : Nat}
    (phase : PhaseInvariant N (state.threads thread).base.queue)
    (isOpener : (state.threads thread).openers[batch]? = some opener) :
    (state.jobs opener = .processing thread batch ∧
        (state.threads thread).call ≠ some opener) ∨
      ((state.threads thread).call = some opener ∧
        (state.threads thread).base.queue.owner =
          .returning (.opened batch)) := by
  have here := invariant.callers thread
  have member := here.mem_pushers isOpener
  have opens := List.mem_of_getElem? isOpener
  have jobAt := invariant.jobs opener
  have atHome
      {home : Nat}
      (unknown : UnknownElsewhere state.threads home opener) :
      home = thread := by
    by_contra differs
    exact (unknown thread (Ne.symm differs)).2 member
  cases at_ : state.jobs opener with
  | unstarted held | pending held =>
      rw [at_] at jobAt
      exact ((jobAt.2 thread).2 member).elim
  | dropped =>
      rw [at_] at jobAt
      exact ((jobAt thread).2 member).elim
  | joined =>
      rw [at_] at jobAt
      obtain ⟨home, _, _, notOpener, unknown⟩ := jobAt
      rw [atHome unknown] at notOpener
      exact (notOpener opens).elim
  | processing home held =>
      rw [at_] at jobAt
      obtain ⟨notCalled, alsoOpener, unknown⟩ := jobAt
      have same := atHome unknown
      subst same
      have sameBatch := here.opener_unique phase alsoOpener isOpener
      subst sameBatch
      exact .inl ⟨rfl, notCalled⟩
  | pushing home spawned =>
      rw [at_] at jobAt
      obtain ⟨called, unknown⟩ := jobAt
      have same := atHome unknown
      subst same
      refine .inr ⟨called, ?_⟩
      exact here.returning_of_opener phase called isOpener

end JobInvariant

/--
In every reachable state of any number of threads with safe buffers, whatever
`batch_process` does with the ranges, each task given to `auto_batch` is
accepted at most once and kept until then, each range is processed by one job,
and all accepted tasks are accounted for.
-/
theorem auto_batch_processes_once
    (N : BufferSize width)
    (safe : N.IsSafe)
    (needsDrop : Bool)
    (task : Nat → Task)
    (state : State Task)
    (reachable : Reachable N needsDrop task state) :
    Processed N needsDrop task state := by
  have invariant := Reachable.jobInvariant reachable
  have phase (thread : Nat) :
      PhaseInvariant N (state.threads thread).base.queue :=
    (RangeTasks.Reachable.queue
      (Reachable.base reachable thread)).phaseInvariant
  have accounts (thread : Nat) :
      Accounts N needsDrop (state.threads thread).base :=
    RangeTasks.Reachable.accounts safe (Reachable.base reachable thread)
  constructor
  case ownTasks => exact fun thread => (invariant.callers thread).ownTasks
  case acceptedOnce =>
    intro job first second i j atFirst atSecond
    have same :=
      invariant.home_unique (List.mem_of_getElem? atFirst)
        (List.mem_of_getElem? atSecond)
    subst same
    obtain ⟨inBounds, _⟩ := List.getElem?_eq_some_iff.mp atFirst
    refine ⟨rfl, ?_⟩
    exact
      (List.getElem?_inj inBounds (invariant.callers first).distinct).mp
        (atFirst.trans atSecond.symm)
  case waiting =>
    intro job held waits
    have jobAt := invariant.jobs job
    rcases waits with at_ | at_
    · rw [at_] at jobAt
      exact ⟨jobAt.1, fun thread => (jobAt.2 thread).2⟩
    · rw [at_] at jobAt
      exact ⟨jobAt.1, fun thread => (jobAt.2 thread).2⟩
  case dropped =>
    intro job at_ thread
    have jobAt := invariant.jobs job
    rw [at_] at jobAt
    exact (jobAt thread).2
  case through =>
    intro job accepted
    have jobAt := invariant.jobs job
    rcases accepted with at_ | ⟨thread, batch, at_⟩
    · rw [at_] at jobAt
      obtain ⟨thread, _, member, _⟩ := jobAt
      exact ⟨thread, member⟩
    · rw [at_] at jobAt
      exact ⟨thread, (invariant.callers thread).mem_pushers jobAt.2.1⟩
  case opened =>
    intro job thread batch handle at_ found
    have jobAt := invariant.jobs job
    rw [at_] at jobAt
    rw [← (invariant.callers thread).openers batch handle found]
    exact jobAt.2.1
  case given =>
    intro thread batch inBounds
    have here := invariant.callers thread
    rw [← here.opened] at inBounds
    have isOpener := List.getElem?_eq_getElem inBounds
    constructor
    · rintro ⟨job, at_, _⟩ returning
      have jobAt := invariant.jobs job
      rw [at_] at jobAt
      have called := here.ownerAt
      rw [returning] at called
      obtain ⟨caller, called, _, alsoOpener⟩ := called
      rw [jobAt.2.1] at alsoOpener
      cases alsoOpener
      exact jobAt.1 called
    · intro notReturning
      rcases invariant.opener_holds (phase thread) isOpener with
        ⟨holds, _⟩ | ⟨_, returning⟩
      · refine ⟨_, holds, ?_⟩
        intro other also
        have jobAt := invariant.jobs other
        rw [also] at jobAt
        exact Option.some.inj (jobAt.2.1.symm.trans isOpener)
      · exact (notReturning returning).elim
  case accounts => exact accounts
  case taken =>
    intro thread idle settled k job isPusher
    rw [(accounts thread).complete idle settled,
      (invariant.callers thread).ownTasks, List.map_map,
      List.getElem?_map, isPusher]
    rfl

/-- The push of a job that opens no new range, on the first thread. -/
def joinRun (job : Nat) : List (Action Task) :=
  .autoBatch 0 job :: .owner 0 :: .owner 0 :: .owner 0 :: .owner 0 ::
    if job % 8 = 0 then [.owner 0, .finish 0] else [.finish 0]

/--
Jobs fill the queue of a thread whose only range stays unused; the last one is
refused there, and is polled and processed on another thread.
-/
def refusedRun : List (Action Nat) :=
  [.autoBatch 0 0, .owner 0, .owner 0, .owner 0, .owner 0, .owner 0,
      .owner 0, .finish 0] ++
    ((List.range 63).map fun job => joinRun (job + 1)).flatten ++
    [.autoBatch 0 64, .owner 0, .owner 0, .owner 0, .finish 0,
      .poll 1 64, .owner 1, .owner 1, .owner 1, .owner 1, .owner 1,
      .owner 1, .finish 1,
      .process 64 (.intoBounded 0), .process 64 (.toVec 0),
      .process 64 (.copy 0), .process 64 (.release 0),
      .process 64 (.steal 0 false), .process 64 (.complete 0)]

/-- After that run the other thread has taken the refused task. -/
theorem auto_batch_processes_once_refused :
    ∃ state : State Nat,
      TransitionSystem.execute (step smallestBuffer true)
          (initial fun job => job + 10) refusedRun =
        some state ∧
      (state.jobs 63, state.jobs 64,
          (state.threads 1).base.allTaken) =
        (.joined, .processing 1 0, [some 74]) ∧
      Processed smallestBuffer true (fun job => job + 10) state := by
  have performed :
      (TransitionSystem.execute (step smallestBuffer true)
          (initial fun job => job + 10) refusedRun).map
          (fun state : State Nat =>
            (state.jobs 63, state.jobs 64,
              (state.threads 1).base.allTaken)) =
        some (.joined, .processing 1 0, [some 74]) := by
    decide +kernel
  obtain ⟨state, reached, results⟩ := Option.map_eq_some_iff.mp performed
  exact ⟨state, reached, results,
    auto_batch_processes_once smallestBuffer smallestBuffer_isSafe true
      (fun job => job + 10) state
      (TransitionSystem.Reachable.start.execute reached)⟩

end StackQueue.BackgroundQueue
