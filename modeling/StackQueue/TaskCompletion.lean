import StackQueue.TaskValues

namespace StackQueue.TaskQueue

open Queue

/-!
# Completion of a `BatchedTask`

A poll that finds its future in the `Batched` state returns `Ready` without a
look at the state word.  So the runs in which no future completes early are
exactly those in which every such poll comes after the resolver's wake.
-/

variable {Task Value : Type}

/--
No poll has returned a value that was not stored before, and receivers stay
where their cells point until the resolver is done with them.
-/
structure NotEarly
    {width : PointerWidth}
    (N : BufferSize width)
    (state : State Task Value) : Prop where
  returned :
    ∀ entry ∈ state.returned, entry ∈ state.stored
  /-- Until it is woken, an enqueued future contains its receiver, or its
  drop has been negotiated. -/
  receivers :
    ∀ (position future : Nat),
      state.enqueuers[position]? = some future →
      (state.resolutions future).isWoken = true ∨
        (∃ receiver,
          (state.futures future).receiver? = some receiver ∧
            receiver.state = position % N.size) ∨
        (state.futures future = .dropped ∧
          (state.resolutions future).isAccessing = false)
  /-- So does a future that is being enqueued. -/
  adding :
    ∀ index,
      state.queue.owner = .adding index →
      ∃ future receiver,
        (state.queue.buffer index).rx = some future ∧
          (state.futures future).receiver? = some receiver ∧
          receiver.state = index
  /-- The write and the wake reach the receiver of the task. -/
  resolving :
    ∀ batch method todo cell value point,
      state.batches batch = .resolving method todo cell value point →
      point = .write ∨ point = .wake →
      ∃ future receiver,
        (state.queue.buffer cell).rx = some future ∧
          (state.futures future).receiver? = some receiver ∧
          receiver.state = cell

namespace ResolveInvariant

variable
    {width : PointerWidth}
    {N : BufferSize width}
    {task : Nat → Task}
    {state : State Task Value}

/-- No future completes early as long as only woken futures are polled. -/
theorem notEarly
    (invariant : ResolveInvariant N state)
    (values : ValueInvariant state)
    (enqueue : EnqueueInvariant N task state)
    (window : state.queue.LiveInWindow N) :
    NotEarly N state where
  returned := values.returned
  receivers := fun _ _ atPosition =>
    invariant.receiver_of_enqueued enqueue atPosition
  adding := by
    intro index at_
    have callAt := enqueue.callAt
    rw [at_] at callAt
    obtain ⟨call, receiver, _, holds, word, pointer, _⟩ := callAt
    exact ⟨call.future, receiver, pointer,
      Future.receiver?_of_batched holds, word⟩
  resolving := fun _ _ _ _ _ _ resolving accessing =>
    invariant.receiver_of_resolving enqueue window resolving accessing

end ResolveInvariant

/-- A poll after which nothing is early was a poll of a woken future. -/
theorem NotEarly.pollsWoken
    {width : PointerWidth}
    {program : Program Task Value}
    {N : BufferSize width}
    {task : Nat → Task}
    {state after : State Task Value}
    (enqueue : EnqueueInvariant N task state)
    {action : Action Value}
    (moved : Move program N state action after)
    (notEarly : NotEarly N after) :
    PollsWoken state action := by
  cases action with
  | poll future waker =>
      intro receiver holds
      cases moved with
      | call isUnbatched _ _ =>
          rw [holds] at isUnbatched
          cases isUnbatched
      | idlePoll isReceived =>
          rw [holds] at isReceived
          cases isReceived
      | ready outside _ =>
          have holdsReceiver := Future.receiver?_of_batched holds
          rcases enqueue.receivers future receiver holdsReceiver with
            ⟨position, atPosition, _⟩ | ⟨isPolling, _⟩
          · rcases notEarly.receivers position future atPosition with
              woken | ⟨other, stillHolds, _⟩ | ⟨isDropped, _⟩
            · exact woken
            · simp [State.setFuture, Future.receiver?] at stillHolds
            · simp [State.setFuture] at isDropped
          · rw [outside] at isPolling
            cases isPolling
  | _ => trivial

/--
A run in which no live cell is written completes no future early exactly if
it polls batched futures after their resolvers' wake-ups only.
-/
theorem not_early_iff_polls_woken
    {width : PointerWidth}
    (program : Program Task Value)
    (N : BufferSize width)
    (task : Nat → Task)
    (trace : List (State Task Value × Action Value))
    (state : State Task Value)
    (run : Run program N task trace state)
    (writesFree : ∀ taken ∈ trace, WritesFree N taken.1 taken.2) :
    ((∀ taken ∈ trace, NotEarly N taken.1) ∧ NotEarly N state) ↔
      ∀ taken ∈ trace, PollsWoken taken.1 taken.2 := by
  let invariant (state : State Task Value) : Prop :=
    (ResolveInvariant N state ∧ ValueInvariant state) ∧
      EnqueueInvariant N task state ∧
      state.queue.LiveInWindow N
  have initially : invariant (initial task) :=
    ⟨⟨.initial, .initial⟩, .initial, .initial⟩
  refine run.holds_iff_condition initially ?_ ?_ ?_ writesFree
  · rintro state _ ⟨⟨resolve, values⟩, enqueue, window⟩
    exact resolve.notEarly values enqueue window
  · rintro before after action earlier ⟨⟨resolve, values⟩, enqueue,
      window⟩ free pollsWoken taken
    have later : Reachable program N (WritesFree N) task after :=
      .next earlier free taken
    have phase :=
      Queue.Reachable.phaseInvariant (Reachable.queue earlier)
    have windowAfter := Reachable.liveInWindow (fun _ _ => id) later
    exact ⟨⟨resolve.move enqueue phase window free pollsWoken
          (step_move taken)
          (Queue.Reachable.phaseInvariant (Reachable.queue later))
          windowAfter,
        values.move resolve enqueue phase window free pollsWoken
          (step_move taken)⟩,
      Reachable.enqueueInvariant later, windowAfter⟩
  · rintro before after action _ ⟨_, enqueue, _⟩ _ taken notEarly
    exact notEarly.pollsWoken enqueue (step_move taken)

/-! ## A poll before the wake-up -/

/-- The operation adds one; tasks need to be dropped. -/
def increment : Program Nat Nat :=
  ⟨(· + 1), true⟩

/-- The first future is enqueued and opens a range. -/
def enqueueFirst : List (Action Nat) :=
  [.poll 0 0, .owner, .owner, .owner, .owner, .owner, .owner, .finish]

/-- The first future is enqueued and polled again at once. -/
def earlyRun : List (Action Nat) :=
  enqueueFirst ++ [.poll 0 0]

/-- The second poll returns `Ready` with a value that nobody stored. -/
theorem earlyRun_isEarly :
    ∃ state : State Nat Nat,
      Reachable increment smallestBuffer TransitionSystem.anyStep id
          state ∧
        state.returned = [(0, none)] ∧
        state.stored = [] ∧
        ¬ NotEarly smallestBuffer state := by
  have performed :
      ((TransitionSystem.execute (step increment smallestBuffer)
          (initial id) earlyRun).map fun state =>
        (state.returned, state.stored)) =
        some ([(0, none)], []) := by
    decide +kernel
  obtain ⟨state, reached, shape⟩ := Option.map_eq_some_iff.mp performed
  simp only [Prod.mk.injEq] at shape
  obtain ⟨returned, stored⟩ := shape
  refine ⟨state, TransitionSystem.Reachable.start.execute reached,
    returned, stored, ?_⟩
  intro notEarly
  have isStored := notEarly.returned (0, none) (by simp [returned])
  rw [stored] at isStored
  cases isStored

/-- The range of the first future is assigned and mapped to its end. -/
def resolveFirst : List (Action Nat) :=
  [.assign 0, .invoke 0 .map, .visit 0, .resolve 0, .resolve 0,
    .resolve 0, .resolve 0, .release 0]

/-- The first future is polled again after its resolver's wake-up. -/
def completedRun : List (Action Nat) :=
  enqueueFirst ++ resolveFirst ++ [.poll 0 0]

/-- The run of one future from its first poll to its value. -/
theorem not_early_iff_polls_woken_completedRun :
    ∃ (trace : List (State Nat Nat × Action Nat)) (state : State Nat Nat),
      Run increment smallestBuffer id trace state ∧
        state.returned = [(0, some 1)] ∧
        (((∀ taken ∈ trace, NotEarly smallestBuffer taken.1) ∧
            NotEarly smallestBuffer state) ↔
          ∀ taken ∈ trace, PollsWoken taken.1 taken.2) := by
  have performed :
      ((TransitionSystem.execute (step increment smallestBuffer)
          (initial id) completedRun).map fun state => state.returned) =
        some [(0, some 1)] := by
    decide +kernel
  obtain ⟨state, reached, returned⟩ := Option.map_eq_some_iff.mp performed
  obtain ⟨trace, run⟩ :=
    TransitionSystem.Run.of_execute TransitionSystem.Run.start reached
  refine ⟨trace, state, run, returned,
    not_early_iff_polls_woken increment smallestBuffer id trace state run
      fun taken member => ?_⟩
  have reachable :
      Reachable increment smallestBuffer TransitionSystem.anyStep id
        taken.1 :=
    run.reachable_of_mem (fun _ _ => trivial) member
  exact Reachable.writesFree_of_small (by decide) reachable taken.2

end StackQueue.TaskQueue
