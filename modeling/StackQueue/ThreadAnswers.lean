import StackQueue.TaskLedger
import StackQueue.ThreadViews

namespace StackQueue.TaskThreads

open Queue TaskQueue

/-!
# Answers to the futures of all threads

Whatever the threads that futures are polled on, each thread is a queue with
its own futures.  So what holds of one queue holds of each, and `home` tells
the futures of different queues apart.  All of it is for safe buffers and for
futures that follow the rules of one queue: polled with their own wakers, and
polled again only when woken.
-/

variable {width : PointerWidth} {Task Value : Type}

/-- The futures that the queue of a thread has accepted. -/
def Thread.enqueuers (thread : Thread Task Value) : List Nat :=
  thread.enqueued.map Prod.fst

/-- The tasks that the queue of a thread has accepted. -/
def Thread.tasks (thread : Thread Task Value) : List Task :=
  thread.enqueued.map Prod.snd

/-- Batches are consumed by `map`. -/
def MapsOnly : TaskQueue.Action Value → Prop
  | .invoke _ method => method = .map
  | _ => True

instance : (action : TaskQueue.Action Value) → Decidable (MapsOnly action)
  | .invoke _ method => inferInstanceAs (Decidable (method = .map))
  | .poll _ _ | .owner | .finish | .assign _ | .visit _ | .visitWith _ _
  | .resolve _ | .release _ | .steal _ _ | .complete _ | .drop _
  | .spin _ =>
      .isTrue trivial

instance
    (rule : TaskQueue.Action Value → Prop)
    [∀ action, Decidable (rule action)]
    (state : State Task Value)
    (taken : Nat × TaskQueue.Action Value) :
    Decidable (FollowsOn rule state taken) := by
  unfold FollowsOn Follows
  infer_instance

section Runs

variable
    {program : Program Task Value}
    {N : BufferSize width}
    {rule : TaskQueue.Action Value → Prop}
    {task : Nat → Task}
    {state : State Task Value}

/-- Along any run of the threads. -/
theorem Reachable.threadsInvariant
    (safe : N.IsSafe)
    (reachable : Reachable program N rule task state) :
    ThreadsInvariant program N rule task state := by
  refine TransitionSystem.Reachable.invariant .initial ?_ reachable
  rintro before after ⟨thread, action⟩ _ invariant follows taken
  simp only [step] at taken
  split at taken
  · rename_i permitted
    obtain ⟨stepped, moved, shape⟩ := Option.map_eq_some_iff.mp taken
    subst shape
    exact invariant.step safe follows permitted moved
  · cases taken

/-- `map` is the only method that a lone queue's batches are consumed by. -/
theorem lone_maps
    (safe : N.IsSafe)
    {lone : TaskQueue.State Task Value}
    (reachable :
      TaskQueue.Reachable program N (Follows MapsOnly) task lone) :
    TaskQueue.Reachable program N (Disciplined N MapsBatches) task lone := by
  apply TaskQueue.Reachable.disciplined_of_safe safe
  · exact fun _ _ maps => maps.1
  · apply reachable.mono
    intro state action follows
    refine ⟨follows.1, ?_⟩
    cases action with
    | invoke batch method => exact follows.2
    | _ => trivial

theorem lone_values
    (safe : N.IsSafe)
    {lone : TaskQueue.State Task Value}
    (reachable : TaskQueue.Reachable program N (Follows rule) task lone) :
    ValueInvariant lone :=
  TaskQueue.Reachable.valueInvariant (fun _ _ permitted => permitted.2.1)
    (fun _ _ permitted => permitted.2.2) (lone_disciplined safe reachable)

/-- A value is passed for a future that was accepted. -/
theorem lone_enqueued_of_passed
    (safe : N.IsSafe)
    {lone : TaskQueue.State Task Value}
    (reachable : TaskQueue.Reachable program N (Follows rule) task lone)
    {entry : Nat × Option Value}
    (member : entry ∈ lone.passed) :
    entry.1 ∈ lone.enqueuers := by
  by_contra notEnqueued
  have words :=
    (TaskQueue.Reachable.resolveInvariant_of_disciplined
      (lone_disciplined safe reachable)).words
  have notPending := (lone_values safe reachable).passed entry member
  rw [words.notEnqueued entry.1 notEnqueued] at notPending
  cases notPending

/-- A future is accepted by the queue that it was polled on last. -/
theorem Agrees.home_of_enqueuer
    {thread : Nat}
    {lone : TaskQueue.State Task Value}
    (agrees : Agrees task state thread lone)
    (reachable : TaskQueue.Reachable program N (Follows rule) task lone)
    {future : Nat}
    (member : future ∈ (state.threads thread).enqueuers) :
    state.home future = some thread := by
  rw [← agrees.queue] at member
  by_contra notHome
  have holds := (agrees.elsewhere future notHome).1
  exact
    ((TaskQueue.Reachable.enqueueInvariant reachable).unbatched future _
      holds).2 member

end Runs

/--
In every state that any number of threads with safe buffers reach, when futures
are polled with their own wakers and polled again only when woken, each thread
is a queue that has run by itself: the futures polled on it last are in the
state that its own steps have led to, and it has accepted none of the others.
-/
theorem each_thread_runs_alone
    (program : Program Task Value)
    (N : BufferSize width)
    (safe : N.IsSafe)
    (rule : TaskQueue.Action Value → Prop)
    (task : Nat → Task)
    (state : State Task Value)
    (reachable : Reachable program N rule task state)
    (thread : Nat) :
    ∃ lone : TaskQueue.State Task Value,
      TaskQueue.Reachable program N (Follows rule) task lone ∧
        Agrees task state thread lone :=
  (Reachable.threadsInvariant safe reachable).alone thread

/-- A push by a poll that makes some accesses, on a thread. -/
def pushOn (thread future accesses : Nat) :
    List (Nat × TaskQueue.Action Nat) :=
  (thread, .poll future future) ::
    List.replicate accesses (thread, .owner) ++ [(thread, .finish)]

/--
The queue of a thread is filled with one batch; the future that it refuses is
woken once the batch is dropped, and is polled and answered on another thread.
-/
def movedRun : List (Nat × TaskQueue.Action Nat) :=
  pushOn 0 0 6 ++
    ((List.range 63).map fun earlier =>
      pushOn 0 (earlier + 1)
        (if (earlier + 1) % 8 = 0 then 5 else 4)).flatten ++
    pushOn 0 64 3 ++
    [(0, .assign 0), (0, .invoke 0 .drop), (0, .release 0),
      (0, .steal 0 false)] ++
    pushOn 1 64 6 ++
    [(1, .assign 0), (1, .invoke 0 .map), (1, .visit 0), (1, .resolve 0),
      (1, .resolve 0), (1, .resolve 0), (1, .poll 64 64)]

/-- The refused future has moved to the queue of the other thread. -/
theorem each_thread_runs_alone_movedRun :
    ∃ state : State Nat Nat,
      Reachable incrementPlain smallestBuffer (fun _ => True) id state ∧
        (state.threads 1).returned = [(64, some 65)] ∧
        ∃ lone : TaskQueue.State Nat Nat,
          TaskQueue.Reachable incrementPlain smallestBuffer
              (Follows fun _ => True) id lone ∧
            Agrees id state 0 lone := by
  have performed :
      ((TransitionSystem.executeWhere (step incrementPlain smallestBuffer)
          (FollowsOn fun _ => True) (initial id) movedRun).map
            fun state => (state.threads 1).returned) =
        some [(64, some 65)] := by
    decide +kernel
  obtain ⟨state, reached, returned⟩ :=
    Option.map_eq_some_iff.mp performed
  have reachable :
      Reachable incrementPlain smallestBuffer (fun _ => True) id state :=
    TransitionSystem.Reachable.start.executeWhere reached
  exact ⟨state, reachable, returned,
    each_thread_runs_alone incrementPlain smallestBuffer
      smallestBuffer_isSafe (fun _ => True) id state reachable 0⟩

/-- What the futures of all threads are promised. -/
structure Answered
    (program : Program Task Value)
    (task : Nat → Task)
    (state : State Task Value) : Prop where
  /-- The accepted tasks are those given to the futures. -/
  ownTasks :
    ∀ thread,
      (state.threads thread).tasks =
        (state.threads thread).enqueuers.map task
  /-- No future is accepted twice, by one queue or by two. -/
  acceptedOnce :
    ∀ (future first second i j : Nat),
      (state.threads first).enqueuers[i]? = some future →
      (state.threads second).enqueuers[j]? = some future →
      first = second ∧ i = j
  /-- A future that is not batched has its task, and no queue has. -/
  kept :
    ∀ (future : Nat) (held : Task),
      state.futures future = .unbatched held →
      held = task future ∧
        ∀ thread, future ∉ (state.threads thread).enqueuers
  /-- A receiver belongs to a queue that accepts its future. -/
  batched :
    ∀ (future : Nat) (receiver : Receiver Value),
      (state.futures future).receiver? = some receiver →
      ∃ thread,
        future ∈ (state.threads thread).enqueuers ∨
          (state.view thread).isPolling future = true
  /-- `resolve_unchecked` is called once at most for a future. -/
  resolvedOnce :
    ∀ (future first second i j : Nat),
      ((state.threads first).passed.map Prod.fst)[i]? = some future →
      ((state.threads second).passed.map Prod.fst)[j]? = some future →
      first = second ∧ i = j
  /-- It is called by the queue that accepted the future, with its answer. -/
  resolved :
    ∀ (thread : Nat),
      ∀ entry ∈ (state.threads thread).passed,
        entry.1 ∈ (state.threads thread).enqueuers ∧
          entry.2 = some (program.op (task entry.1))
  /-- A poll returns that answer and no other. -/
  returned :
    ∀ (thread : Nat),
      ∀ entry ∈ (state.threads thread).returned,
        entry ∈ (state.threads thread).passed

/--
In every run of `BatchedTask` futures over safe buffers of any number of
threads, when futures are polled with their own wakers and polled again only
when woken, each future is accepted once and given `op` of its own task by the
queue that accepted it, even when another queue has refused it before.
-/
theorem threads_answer_own_tasks
    (program : Program Task Value)
    (N : BufferSize width)
    (safe : N.IsSafe)
    (task : Nat → Task)
    (state : State Task Value)
    (reachable : Reachable program N MapsOnly task state) :
    Answered program task state := by
  have invariant := Reachable.threadsInvariant safe reachable
  have home
      {thread future : Nat}
      (member : future ∈ (state.threads thread).enqueuers) :
      state.home future = some thread := by
    obtain ⟨lone, run, agrees⟩ := invariant.alone thread
    exact agrees.home_of_enqueuer run member
  have homeUnique
      {first second future : Nat}
      (atFirst : future ∈ (state.threads first).enqueuers)
      (atSecond : future ∈ (state.threads second).enqueuers) :
      first = second :=
    Option.some.inj ((home atFirst).symm.trans (home atSecond))
  have resolved
      (thread : Nat)
      (entry : Nat × Option Value)
      (member : entry ∈ (state.threads thread).passed) :
      entry.1 ∈ (state.threads thread).enqueuers ∧
        entry.2 = some (program.op (task entry.1)) := by
    obtain ⟨lone, run, agrees⟩ := invariant.alone thread
    have disciplined := lone_maps safe run
    rw [← agrees.queue] at member ⊢
    refine ⟨?_, (TaskQueue.Reachable.answerInvariant
      disciplined).passed entry member⟩
    exact lone_enqueued_of_passed safe run member
  constructor
  case ownTasks =>
    intro thread
    obtain ⟨lone, run, agrees⟩ := invariant.alone thread
    rw [← agrees.queue, Thread.tasks, Thread.enqueuers, List.map_map]
    exact List.map_congr_left
      (TaskQueue.Reachable.enqueueInvariant run).ownTasks
  case acceptedOnce =>
    intro future first second i j atFirst atSecond
    have same :=
      homeUnique (List.mem_of_getElem? atFirst)
        (List.mem_of_getElem? atSecond)
    subst same
    obtain ⟨lone, run, agrees⟩ := invariant.alone first
    rw [← agrees.queue] at atFirst atSecond
    exact ⟨rfl,
      (TaskQueue.Reachable.enqueueInvariant run).position_unique atFirst
        atSecond⟩
  case kept =>
    intro future held holds
    refine ⟨invariant.held future held holds, fun thread member => ?_⟩
    obtain ⟨lone, run, agrees⟩ := invariant.alone thread
    rw [← (agrees.here future (home member)).1] at holds
    rw [← agrees.queue] at member
    exact
      ((TaskQueue.Reachable.enqueueInvariant run).unbatched future held
        holds).2 member
  case batched =>
    intro future receiver holds
    cases isHome : state.home future with
    | none =>
        rcases invariant.fresh future isHome with fresh | dropped
        · rw [fresh] at holds
          cases holds
        · rw [dropped] at holds
          cases holds
    | some thread =>
        obtain ⟨lone, run, agrees⟩ := invariant.alone thread
        rw [← (agrees.here future isHome).1] at holds
        refine ⟨thread, ?_⟩
        rcases (TaskQueue.Reachable.enqueueInvariant run).receivers future
          receiver holds with ⟨position, found, _⟩ | ⟨polling, _⟩
        · left
          rw [← agrees.queue]
          exact List.mem_of_getElem? found
        · right
          rw [agrees.eq_within] at polling
          exact polling
  case resolvedOnce =>
    intro future first second i j atFirst atSecond
    have accepted
        {thread index : Nat}
        (found :
          ((state.threads thread).passed.map Prod.fst)[index]? =
            some future) :
        future ∈ (state.threads thread).enqueuers := by
      obtain ⟨entry, member, isFuture⟩ :=
        List.mem_map.mp (List.mem_of_getElem? found)
      subst isFuture
      exact (resolved thread entry member).1
    have same := homeUnique (accepted atFirst) (accepted atSecond)
    subst same
    obtain ⟨lone, run, agrees⟩ := invariant.alone first
    have values := lone_values safe run
    rw [← agrees.queue] at atFirst atSecond
    obtain ⟨inBounds, _⟩ := List.getElem?_eq_some_iff.mp atFirst
    exact ⟨rfl,
      (List.getElem?_inj inBounds values.once).mp
        (atFirst.trans atSecond.symm)⟩
  case resolved => exact resolved
  case returned =>
    intro thread entry member
    obtain ⟨lone, run, agrees⟩ := invariant.alone thread
    have values := lone_values safe run
    rw [← agrees.queue] at member ⊢
    exact (values.stored entry (values.returned entry member)).1

/-- Two threads enqueue and map at once, the second one two futures. -/
def twoThreadsRun : List (Nat × TaskQueue.Action Nat) :=
  pushOn 0 0 6 ++ pushOn 1 1 6 ++ pushOn 1 2 4 ++
    [(1, .assign 0), (0, .assign 0), (0, .invoke 0 .map),
      (1, .invoke 0 .map), (0, .visit 0), (1, .visit 0), (1, .resolve 0),
      (0, .resolve 0), (1, .resolve 0), (1, .resolve 0), (0, .resolve 0),
      (1, .poll 1 1), (0, .resolve 0), (1, .resolve 0), (1, .visit 0),
      (0, .poll 0 0), (1, .resolve 0), (1, .resolve 0), (1, .resolve 0),
      (1, .poll 2 2)]

/-- All three futures are answered, each by its own queue. -/
theorem threads_answer_own_tasks_twoThreads :
    ∃ state : State Nat Nat,
      Reachable increment smallestBuffer MapsOnly id state ∧
        (state.threads 0).returned = [(0, some 1)] ∧
        (state.threads 1).returned = [(1, some 2), (2, some 3)] ∧
        Answered increment id state := by
  have performed :
      ((TransitionSystem.executeWhere (step increment smallestBuffer)
          (FollowsOn MapsOnly) (initial id) twoThreadsRun).map fun state =>
        ((state.threads 0).returned, (state.threads 1).returned)) =
        some ([(0, some 1)], [(1, some 2), (2, some 3)]) := by
    decide +kernel
  obtain ⟨state, reached, returned⟩ :=
    Option.map_eq_some_iff.mp performed
  simp only [Prod.mk.injEq] at returned
  have reachable :
      Reachable increment smallestBuffer MapsOnly id state :=
    TransitionSystem.Reachable.start.executeWhere reached
  exact ⟨state, reachable, returned.1, returned.2,
    threads_answer_own_tasks increment smallestBuffer
      smallestBuffer_isSafe id state reachable⟩

end StackQueue.TaskThreads
