import StackQueue.TaskCompletion
import StackQueue.TaskWakers

namespace StackQueue.TaskQueue

open Queue

/-!
# Receivers and resolvers

When each future keeps to its own waker, the resolver of a task that was not
dropped in time finds the task's receiver alive and in its place from its
`fetch_or` to the end of its wake, however drops are interleaved with it, and
no receiver is written twice.
-/

variable {Task Value : Type}

/-- The task that a batch resolves in a cell, and its receiver. -/
structure Resolves
    {width : PointerWidth}
    (N : BufferSize width)
    (state : State Task Value)
    (batch cell position future : Nat)
    (receiver : Receiver Value) : Prop where
  /-- The task is one of the batch's range, and was written to the cell. -/
  inRange :
    ∃ handle,
      state.queue.handles[batch]? = some handle ∧
        handle.first ≤ position ∧
        position < handle.last
  isCell : cell = position % N.size
  enqueued : state.enqueuers[position]? = some future
  /-- The resolver's pointer designates the future of the task. -/
  pointer : (state.queue.buffer cell).rx = some future
  /-- The future still contains the receiver that was enqueued. -/
  holds : (state.futures future).receiver? = some receiver
  word : receiver.state = cell
  waker : receiver.waker = future

/--
Past a `fetch_or` that saw no `RX_DROPPED` and up to the end of the wake, the
receiver of the task exists where it was; and it is written once at most.
-/
theorem receiver_outlives_resolver
    (program : Program Task Value)
    (N : BufferSize .w64)
    (small : N.size ≤ 1024)
    (task : Nat → Task)
    (state : State Task Value)
    (reachable : Reachable program N OwnWaker task state) :
    (∀ batch method todo cell value point,
      state.batches batch = .resolving method todo cell value point →
      point = .write ∨ point = .wake →
      ∃ position future receiver,
        Resolves N state batch cell position future receiver) ∧
      (state.stored.map Prod.fst).Nodup := by
  have disciplined :=
    Reachable.disciplined small (fun _ _ => id) reachable
  have resolve := Reachable.resolveInvariant_of_disciplined disciplined
  have enqueue := Reachable.enqueueInvariant reachable
  have window := Reachable.liveInWindow_of_disciplined disciplined
  have wakers := Reachable.wakerInvariant (fun _ _ => id) disciplined
  have values : ValueInvariant state :=
    Reachable.valueInvariant (fun _ _ permitted => permitted.2.1)
      (fun _ _ permitted => permitted.2.2) disciplined
  refine ⟨?_, values.storedOnce⟩
  intro batch method todo cell value point resolving accessing
  obtain ⟨handle, position, future, current, _, _, _⟩ :=
    resolve.batches.resolving_current enqueue window resolving
  obtain ⟨other, receiver, pointer, holds, word⟩ :=
    resolve.receiver_of_resolving enqueue window resolving accessing
  have same : other = future := by
    have pointers := pointer.symm.trans current.pointer
    cases pointers
    rfl
  subst same
  exact ⟨position, other, receiver,
    ⟨handle, current.found, current.begun, current.below⟩,
    current.isCell, current.enqueued, current.pointer, holds, word,
    wakers.receivers other receiver holds⟩

/--
The first future is enqueued and dropped while its value is about to be
written; the drop has seen `SETTING_VALUE` and spins.
-/
def droppedWhileSetting : List (Action Nat) :=
  enqueueFirst ++
    [.assign 0, .invoke 0 .map, .visit 0, .resolve 0, .drop 0, .spin 0]

/-- There the receiver of the first future exists, and its drop spins. -/
theorem receiver_outlives_resolver_droppedWhileSetting :
    ∃ state : State Nat Nat,
      Reachable increment smallestBuffer OwnWaker id state ∧
        ((∃ position future receiver,
            Resolves smallestBuffer state 0 0 position future receiver) ∧
          (state.stored.map Prod.fst).Nodup) := by
  have performed :
      ((TransitionSystem.executeWhere (step increment smallestBuffer)
          OwnWaker (initial id) droppedWhileSetting).map fun state =>
        state.batches 0) =
        some (.resolving .map [] 0 (some 1) .write) := by
    decide +kernel
  obtain ⟨state, reached, resolving⟩ := Option.map_eq_some_iff.mp performed
  have reachable : Reachable increment smallestBuffer OwnWaker id state :=
    TransitionSystem.Reachable.start.executeWhere reached
  obtain ⟨outlives, once⟩ :=
    receiver_outlives_resolver increment smallestBuffer (by decide) id
      state reachable
  exact ⟨state, reachable, outlives _ _ _ _ _ _ resolving (Or.inl rfl),
    once⟩

end StackQueue.TaskQueue
