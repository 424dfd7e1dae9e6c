import StackQueue.TaskMoves

namespace StackQueue.TaskQueue

open Queue

/-!
# Futures, receivers and cells

`EnqueueInvariant` relates the futures to the positions of their tasks: a
receiver points to the word of the cell its future's task was written to, and
for as long as that cell is not reused its pointer designates that future.  It
holds for every buffer size and pointer width and every way of polling and
dropping the futures.
-/

variable {Task Value : Type}

/-- The futures of the accepted calls. -/
def State.enqueuers (state : State Task Value) : List Nat :=
  state.enqueued.map Prod.fst

/-- The enqueued futures depend on the accepted calls only. -/
theorem State.enqueuers_congr
    {state after : State Task Value}
    (enqueued : after.enqueued = state.enqueued) :
    after.enqueuers = state.enqueuers := by
  rw [State.enqueuers, enqueued, State.enqueuers]

/-- An accepted call enqueues its future after the others. -/
theorem State.enqueuers_concat
    {state after : State Task Value}
    {entry : Nat × Task}
    (enqueued : after.enqueued = state.enqueued ++ [entry]) :
    after.enqueuers = state.enqueuers ++ [entry.1] := by
  rw [State.enqueuers, enqueued, List.map_append]
  rfl

/-- What the owner's program point says about the poll in progress. -/
def CallAt
    (task : Nat → Task)
    (polling : Option (Call Task))
    (futures : Nat → Future Task Value)
    (enqueuers : List Nat)
    (buffer : Nat → TaskRef Task) :
    Owner (TaskRef Task) → Prop
  | .idle => polling = none
  | .entered write | .checking write _ | .loading write _
  | .writing write _ =>
      ∃ call,
        polling = some call ∧
          write = TaskRef.init call.task call.future ∧
          futures call.future = .unbatched call.task
  | .adding index =>
      ∃ call receiver,
        polling = some call ∧
          futures call.future = .batched receiver ∧
          receiver.state = index ∧
          (buffer index).rx = some call.future ∧
          call.task = task call.future ∧
          call.future ∉ enqueuers
  | .returning .queueFull =>
      ∃ call,
        polling = some call ∧
          futures call.future = .unbatched call.task
  | .replacing _ _ | .occupying _ _ | .returning _ =>
      ∃ call, polling = some call

/-- Where the futures' tasks and receivers are. -/
structure EnqueueInvariant
    {width : PointerWidth}
    (N : BufferSize width)
    (task : Nat → Task)
    (state : State Task Value) : Prop where
  count :
    state.enqueued.length = state.queue.accepted
  callAt :
    CallAt task state.polling state.futures state.enqueuers
      state.queue.buffer state.queue.owner
  distinct :
    state.enqueuers.Nodup
  ownTasks :
    ∀ entry ∈ state.enqueued, entry.2 = task entry.1
  unbatched :
    ∀ future held,
      state.futures future = .unbatched held →
      held = task future ∧ future ∉ state.enqueuers
  /-- A receiver points to the word of its task's cell. -/
  receivers :
    ∀ future receiver,
      (state.futures future).receiver? = some receiver →
      (∃ position : Nat,
        state.enqueuers[position]? = some future ∧
          receiver.state = position % N.size) ∨
        (state.isPolling future = true ∧
          state.queue.owner = .adding receiver.state)
  /-- A cell points to the receiver of its latest task's future. -/
  occupants :
    ∀ (position future : Nat),
      state.enqueuers[position]? = some future →
      state.queue.InWindow N position →
      (state.queue.buffer (position % N.size)).rx = some future

/-- The call in progress depends on little of its future and the buffer. -/
theorem CallAt.of_same
    {task : Nat → Task}
    {polling : Option (Call Task)}
    {futures futuresAfter : Nat → Future Task Value}
    {enqueuers : List Nat}
    {buffer bufferAfter : Nat → TaskRef Task}
    {owner : Owner (TaskRef Task)}
    (callAt : CallAt task polling futures enqueuers buffer owner)
    (unbatched :
      ∀ call,
        polling = some call →
        futures call.future = .unbatched call.task →
        futuresAfter call.future = .unbatched call.task)
    (batched :
      ∀ call receiver,
        polling = some call →
        futures call.future = .batched receiver →
        ∃ receiverAfter,
          futuresAfter call.future = .batched receiverAfter ∧
            receiverAfter.state = receiver.state)
    (pointers : ∀ cell, (bufferAfter cell).rx = (buffer cell).rx) :
    CallAt task polling futuresAfter enqueuers bufferAfter owner := by
  cases owner with
  | idle =>
      exact callAt
  | entered write | checking write index | loading write index
  | writing write index =>
      obtain ⟨call, called, written, holds⟩ := callAt
      exact ⟨call, called, written, unbatched call called holds⟩
  | adding index =>
      obtain ⟨call, receiver, called, holds, word, pointer, ownTask,
        fresh⟩ := callAt
      obtain ⟨receiverAfter, holdsAfter, sameWord⟩ :=
        batched call receiver called holds
      refine ⟨call, receiverAfter, called, holdsAfter, ?_, ?_, ownTask,
        fresh⟩
      · rw [sameWord, word]
      · rw [pointers, pointer]
  | replacing index baseSlot | occupying index baseSlot =>
      exact callAt
  | returning admission =>
      cases admission with
      | queueFull =>
          obtain ⟨call, called, holds⟩ := callAt
          exact ⟨call, called, unbatched call called holds⟩
      | joined | opened handle =>
          exact callAt

namespace EnqueueInvariant

variable
    {width : PointerWidth}
    {program : Program Task Value}
    {N : BufferSize width}
    {task : Nat → Task}
    {state after : State Task Value}

theorem initial :
    EnqueueInvariant N task
      (TaskQueue.initial task : State Task Value) := by
  constructor <;>
    simp [TaskQueue.initial, Queue.initial, CallAt, State.enqueuers,
      Future.receiver?, Queue.State.accepted]

/-- A step that neither writes a cell for a new task nor accepts one. -/
theorem of_frame
    (invariant : EnqueueInvariant N task state)
    (cells : after.queue.cells = state.queue.cells)
    (enqueued : after.enqueued = state.enqueued)
    (pointers :
      ∀ cell,
        (after.queue.buffer cell).rx = (state.queue.buffer cell).rx)
    (callAt :
      CallAt task after.polling after.futures state.enqueuers
        after.queue.buffer after.queue.owner)
    (adding :
      ∀ index,
        state.queue.owner = .adding index →
        after.queue.owner = .adding index ∧
          after.polling = state.polling)
    (unbatched :
      ∀ future held,
        after.futures future = .unbatched held →
        state.futures future = .unbatched held)
    (receivers :
      ∀ future receiver,
        (after.futures future).receiver? = some receiver →
        ∃ old,
          (state.futures future).receiver? = some old ∧
            old.state = receiver.state) :
    EnqueueInvariant N task after := by
  have enqueuers := State.enqueuers_congr enqueued
  constructor
  case count =>
    rw [enqueued, Queue.State.accepted, cells]
    exact invariant.count
  case callAt =>
    rw [enqueuers]
    exact callAt
  case distinct =>
    rw [enqueuers]
    exact invariant.distinct
  case ownTasks =>
    rw [enqueued]
    exact invariant.ownTasks
  case unbatched =>
    intro future held holds
    rw [enqueuers]
    exact invariant.unbatched future held (unbatched future held holds)
  case receivers =>
    intro future receiver holds
    obtain ⟨old, wasHeld, sameWord⟩ := receivers future receiver holds
    rw [enqueuers, ← sameWord]
    refine (invariant.receivers future old wasHeld).imp_right ?_
    rintro ⟨isPolling, at_⟩
    obtain ⟨atAfter, polling⟩ := adding old.state at_
    refine ⟨?_, atAfter⟩
    rw [State.isPolling, polling]
    exact isPolling
  case occupants =>
    intro position future atPosition inWindow
    rw [enqueuers] at atPosition
    rw [pointers]
    refine invariant.occupants position future atPosition
      (inWindow.of_same cells fun index at_ => ?_)
    rw [(adding index at_).1]
    rfl

/-- A step of the futures or batches that changes one future at most. -/
theorem of_future
    (invariant : EnqueueInvariant N task state)
    {future : Nat}
    {stage : Future Task Value}
    (futures :
      after.futures = Function.update state.futures future stage)
    (outside :
      state.isPolling future = true →
      (∀ held, state.futures future ≠ .unbatched held) ∧
        ∀ receiver, state.futures future ≠ .batched receiver)
    (notUnbatched : ∀ held, stage ≠ .unbatched held)
    (receivers :
      ∀ receiver,
        stage.receiver? = some receiver →
        ∃ old,
          (state.futures future).receiver? = some old ∧
            old.state = receiver.state)
    (cells : after.queue.cells = state.queue.cells)
    (owner : after.queue.owner = state.queue.owner)
    (enqueued : after.enqueued = state.enqueued)
    (polling : after.polling = state.polling)
    (pointers :
      ∀ cell,
        (after.queue.buffer cell).rx = (state.queue.buffer cell).rx) :
    EnqueueInvariant N task after := by
  have polled
      {call : Call Task}
      (called : state.polling = some call)
      (same : call.future = future) :
      state.isPolling future = true := by
    simp [State.isPolling, called, same]
  refine invariant.of_frame cells enqueued pointers ?_ ?_ ?_ ?_
  · rw [polling, owner]
    refine invariant.callAt.of_same ?_ ?_ pointers
    · intro call called holds
      by_cases same : call.future = future
      · rw [same] at holds
        exact ((outside (polled called same)).1 _ holds).elim
      · rw [futures, Function.update_of_ne same]
        exact holds
    · intro call receiver called holds
      by_cases same : call.future = future
      · rw [same] at holds
        exact ((outside (polled called same)).2 _ holds).elim
      · refine ⟨receiver, ?_, rfl⟩
        rw [futures, Function.update_of_ne same]
        exact holds
  · intro index at_
    exact ⟨owner.trans at_, polling⟩
  · intro other held holds
    by_cases same : other = future
    · rw [same, futures, Function.update_self] at holds
      exact (notUnbatched held holds).elim
    · rw [futures, Function.update_of_ne same] at holds
      exact holds
  · intro other receiver holds
    by_cases same : other = future
    · rw [same] at holds ⊢
      rw [futures, Function.update_self] at holds
      exact receivers receiver holds
    · rw [futures, Function.update_of_ne same] at holds
      exact ⟨receiver, holds, rfl⟩

/-- A step that leaves the futures alone. -/
theorem of_same
    (invariant : EnqueueInvariant N task state)
    (futures : after.futures = state.futures)
    (cells : after.queue.cells = state.queue.cells)
    (enqueued : after.enqueued = state.enqueued)
    (pointers :
      ∀ cell,
        (after.queue.buffer cell).rx = (state.queue.buffer cell).rx)
    (callAt :
      CallAt task after.polling state.futures state.enqueuers
        state.queue.buffer after.queue.owner)
    (adding :
      ∀ index,
        state.queue.owner = .adding index →
        after.queue.owner = .adding index ∧
          after.polling = state.polling) :
    EnqueueInvariant N task after := by
  refine invariant.of_frame cells enqueued pointers ?_ adding ?_ ?_
  · rw [futures]
    exact callAt.of_same (fun _ _ holds => holds)
      (fun _ receiver _ holds => ⟨receiver, holds, rfl⟩) pointers
  · rw [futures]
    exact fun _ _ holds => holds
  · rw [futures]
    exact fun _ receiver holds => ⟨receiver, holds, rfl⟩

/-- Each accepted call enqueues one future. -/
theorem length_enqueuers
    (invariant : EnqueueInvariant N task state) :
    state.enqueuers.length = state.queue.accepted := by
  rw [State.enqueuers, List.length_map, invariant.count]

/-- The future at a position has been accepted. -/
theorem accepted_of_enqueuer
    (invariant : EnqueueInvariant N task state)
    {position future : Nat}
    (atPosition : state.enqueuers[position]? = some future) :
    position < state.queue.accepted := by
  rw [← invariant.length_enqueuers]
  exact (List.getElem?_eq_some_iff.mp atPosition).1

/-- A future enters the queue once. -/
theorem position_unique
    (invariant : EnqueueInvariant N task state)
    {i j future : Nat}
    (first : state.enqueuers[i]? = some future)
    (second : state.enqueuers[j]? = some future) :
    i = j :=
  (List.getElem?_inj (List.getElem?_eq_some_iff.mp first).1
    invariant.distinct).mp (first.trans second.symm)

/-- The receiver of an accepted future points to its task's cell. -/
theorem receiver_state
    (invariant : EnqueueInvariant N task state)
    {position future : Nat}
    {receiver : Receiver Value}
    (atPosition : state.enqueuers[position]? = some future)
    (holds : (state.futures future).receiver? = some receiver) :
    receiver.state = position % N.size := by
  rcases invariant.receivers future receiver holds with
    ⟨index, found, isCell⟩ | ⟨isPolling, at_⟩
  · rw [isCell, invariant.position_unique found atPosition]
  · have callAt := invariant.callAt
    rw [at_] at callAt
    obtain ⟨call, _, called, _, _, _, _, fresh⟩ := callAt
    have isCall : call.future = future := by
      simpa [State.isPolling, called] using isPolling
    rw [isCall] at fresh
    exact (fresh (List.mem_of_getElem? atPosition)).elim

/-- A cell that still points to the future of a task was not reused. -/
theorem inWindow_of_pointer
    (invariant : EnqueueInvariant N task state)
    (phase : PhaseInvariant N state.queue)
    {position future : Nat}
    (atPosition : state.enqueuers[position]? = some future)
    (pointer :
      (state.queue.buffer (position % N.size)).rx = some future) :
    state.queue.InWindow N position := by
  have length := invariant.length_enqueuers
  have accepted := invariant.accepted_of_enqueuer atPosition
  rcases phase.exists_inWindow accepted with
    ⟨latest, latestAccepted, inWindow, sameCell⟩ | at_
  · rw [← length] at latestAccepted
    have atLatest := List.getElem?_eq_getElem latestAccepted
    have designates := invariant.occupants latest _ atLatest inWindow
    rw [sameCell, pointer, ← atLatest] at designates
    rw [invariant.position_unique atPosition designates.symm]
    exact inWindow
  · have callAt := invariant.callAt
    rw [at_] at callAt
    obtain ⟨call, _, _, _, _, designates, _, fresh⟩ := callAt
    rw [pointer] at designates
    cases designates
    exact (fresh (List.mem_of_getElem? atPosition)).elim

/-- The word that a receiver points to belongs to some task. -/
theorem occupant_of_receiver
    (invariant : EnqueueInvariant N task state)
    (phase : PhaseInvariant N state.queue)
    {future : Nat}
    {receiver : Receiver Value}
    (holds : (state.futures future).receiver? = some receiver) :
    (∃ position other : Nat,
        state.enqueuers[position]? = some other ∧
          state.queue.InWindow N position ∧
          position % N.size = receiver.state ∧
          (state.queue.buffer receiver.state).rx = some other) ∨
      ∃ call,
        state.queue.owner = .adding receiver.state ∧
          state.polling = some call ∧
          (state.queue.buffer receiver.state).rx = some call.future := by
  have newest
      (at_ : state.queue.owner = .adding receiver.state) :
      ∃ call,
        state.queue.owner = .adding receiver.state ∧
          state.polling = some call ∧
          (state.queue.buffer receiver.state).rx = some call.future := by
    have callAt := invariant.callAt
    rw [at_] at callAt
    obtain ⟨call, _, called, _, _, pointer, _⟩ := callAt
    exact ⟨call, at_, called, pointer⟩
  rcases invariant.receivers future receiver holds with
    ⟨earlier, atEarlier, isCell⟩ | ⟨_, at_⟩
  · have length := invariant.length_enqueuers
    have accepted := invariant.accepted_of_enqueuer atEarlier
    rcases phase.exists_inWindow accepted with
      ⟨position, positionAccepted, inWindow, sameCell⟩ | at_
    · rw [← length] at positionAccepted
      have atPosition := List.getElem?_eq_getElem positionAccepted
      have pointer :=
        invariant.occupants position _ atPosition inWindow
      rw [← isCell] at sameCell
      rw [sameCell] at pointer
      exact Or.inl ⟨position, _, atPosition, inWindow, sameCell, pointer⟩
    · rw [← isCell] at at_
      exact Or.inr (newest at_)
  · exact Or.inr (newest at_)

/-- A receiver's word belongs to an accepted task only in the task's cell. -/
theorem cell_of_pointer
    (invariant : EnqueueInvariant N task state)
    (phase : PhaseInvariant N state.queue)
    {position future other : Nat}
    {receiver : Receiver Value}
    (holds : (state.futures future).receiver? = some receiver)
    (pointer :
      (state.queue.buffer receiver.state).rx = some other)
    (atPosition : state.enqueuers[position]? = some other) :
    receiver.state = position % N.size := by
  rcases invariant.occupant_of_receiver phase holds with
    ⟨index, found, atIndex, _, sameCell, designates⟩ |
      ⟨call, at_, called, designates⟩
  · rw [pointer] at designates
    cases designates
    rw [← sameCell, invariant.position_unique atIndex atPosition]
  · have callAt := invariant.callAt
    rw [at_] at callAt
    obtain ⟨_, _, isCalled, _, _, _, _, fresh⟩ := callAt
    rw [called] at isCalled
    cases isCalled
    rw [pointer] at designates
    cases designates
    exact (fresh (List.mem_of_getElem? atPosition)).elim

/-- The owner writes the task and the pointer into the next cell. -/
theorem write
    (invariant : EnqueueInvariant N task state)
    (phase : PhaseInvariant N state.queue)
    {index : Nat}
    {call : Call Task}
    (at_ :
      state.queue.owner =
        .writing (TaskRef.init call.task call.future) index)
    (called : state.polling = some call)
    (holds : state.futures call.future = .unbatched call.task)
    (queue :
      after.queue =
        { state.queue.updateCell index
            (TaskRef.init call.task call.future) with
          owner := .adding index })
    (futures :
      after.futures =
        Function.update state.futures call.future
          (.batched ⟨index, none, call.waker⟩))
    (polling : after.polling = state.polling)
    (enqueued : after.enqueued = state.enqueued) :
    EnqueueInvariant N task after := by
  obtain ⟨ownTask, fresh⟩ := invariant.unbatched _ _ holds
  have enqueuers := State.enqueuers_congr enqueued
  have here :
      after.queue.buffer index =
        TaskRef.init call.task call.future
          (state.queue.buffer index) := by
    rw [queue]
    exact Queue.State.updateCell_self state.queue index _
  constructor
  case count =>
    rw [enqueued, queue]
    exact invariant.count
  case callAt =>
    rw [polling, enqueuers]
    have owner : after.queue.owner = .adding index := by rw [queue]
    rw [owner]
    refine ⟨call, ⟨index, none, call.waker⟩, called, ?_, rfl, ?_, ownTask,
      fresh⟩
    · rw [futures, Function.update_self]
    · rw [here]
      rfl
  case distinct =>
    rw [enqueuers]
    exact invariant.distinct
  case ownTasks =>
    rw [enqueued]
    exact invariant.ownTasks
  case unbatched =>
    intro other held holdsAfter
    rw [enqueuers]
    by_cases same : other = call.future
    · rw [same, futures, Function.update_self] at holdsAfter
      cases holdsAfter
    · rw [futures, Function.update_of_ne same] at holdsAfter
      exact invariant.unbatched other held holdsAfter
  case receivers =>
    intro other receiver holdsAfter
    rw [enqueuers]
    by_cases same : other = call.future
    · right
      rw [same, futures, Function.update_self] at holdsAfter
      cases holdsAfter
      refine ⟨?_, by rw [queue]⟩
      simp [State.isPolling, polling, called, same]
    · left
      rw [futures, Function.update_of_ne same] at holdsAfter
      rcases invariant.receivers other receiver holdsAfter with
        found | ⟨_, wasAdding⟩
      · exact found
      · rw [at_] at wasAdding
        cases wasAdding
  case occupants =>
    intro position other atPosition inWindow
    rw [enqueuers] at atPosition
    obtain ⟨differs, wasInWindow⟩ :=
      Queue.State.InWindow.of_write phase at_ (by rw [queue]; rfl)
        (by rw [queue]) inWindow (invariant.accepted_of_enqueuer atPosition)
    rw [queue]
    simp only [Queue.State.updateCell_of_ne state.queue _ differs]
    exact invariant.occupants position other atPosition wasInWindow

/-- The `fetch_add` accepts the call. -/
theorem add
    (invariant : EnqueueInvariant N task state)
    (phase : PhaseInvariant N state.queue)
    {index baseSlot : Nat}
    {call : Call Task}
    {receiver : Receiver Value}
    (at_ : state.queue.owner = .adding index)
    (called : state.polling = some call)
    (holds : state.futures call.future = .batched receiver)
    (word : receiver.state = index)
    (pointer : (state.queue.buffer index).rx = some call.future)
    (ownTask : call.task = task call.future)
    (fresh : call.future ∉ state.enqueuers)
    (cells : after.queue.cells = state.queue.cells ++ [index])
    (buffer : after.queue.buffer = state.queue.buffer)
    (owner : after.queue.owner = .replacing index baseSlot)
    (futures : after.futures = state.futures)
    (polling : after.polling = state.polling)
    (enqueued :
      after.enqueued =
        state.enqueued ++ [(call.future, call.task)]) :
    EnqueueInvariant N task after := by
  have accepted : after.queue.accepted = state.queue.accepted + 1 := by
    simp [Queue.State.accepted, cells]
  have enqueuers := State.enqueuers_concat enqueued
  have length := invariant.length_enqueuers
  have next := phase.adding_index at_
  have newest :
      (state.enqueuers ++ [call.future])[state.queue.accepted]? =
        some call.future := by
    rw [← length]
    simp
  constructor
  case count =>
    simp [enqueued, accepted, invariant.count]
  case callAt =>
    rw [polling, owner]
    exact ⟨call, called⟩
  case distinct =>
    rw [enqueuers, List.nodup_append]
    refine ⟨invariant.distinct, by simp, ?_⟩
    intro other member last isLast same
    rw [List.mem_singleton] at isLast
    subst same isLast
    exact fresh member
  case ownTasks =>
    intro entry member
    rw [enqueued] at member
    rcases List.mem_append.mp member with earlier | isNew
    · exact invariant.ownTasks entry earlier
    · rw [List.mem_singleton] at isNew
      subst isNew
      exact ownTask
  case unbatched =>
    intro other held holdsAfter
    rw [futures] at holdsAfter
    obtain ⟨isOwn, notEnqueued⟩ :=
      invariant.unbatched other held holdsAfter
    refine ⟨isOwn, ?_⟩
    rw [enqueuers, List.mem_append, List.mem_singleton]
    rintro (earlier | isNew)
    · exact notEnqueued earlier
    · rw [isNew, holds] at holdsAfter
      cases holdsAfter
  case receivers =>
    intro other held holdsAfter
    rw [futures] at holdsAfter
    left
    rw [enqueuers]
    rcases invariant.receivers other held holdsAfter with
      ⟨position, atPosition, cell⟩ | ⟨isPolling, wasAdding⟩
    · obtain ⟨inBounds, _⟩ := List.getElem?_eq_some_iff.mp atPosition
      refine ⟨position, ?_, cell⟩
      rw [List.getElem?_append_left inBounds]
      exact atPosition
    · have same : other = call.future := by
        simpa [State.isPolling, called, eq_comm] using isPolling
      rw [at_] at wasAdding
      cases wasAdding
      refine ⟨state.queue.accepted, ?_, next⟩
      rw [newest, same]
  case occupants =>
    intro position other atPosition inWindow
    rw [enqueuers] at atPosition
    rw [buffer]
    rcases ListUpdate.getElem?_concat_cases atPosition with
      earlier | ⟨last, isNew⟩
    · exact invariant.occupants position other earlier
        (inWindow.of_add accepted)
    · rw [last, length, ← next, isNew]
      exact pointer

/-- The owner's steps keep futures, receivers and cells together. -/
theorem ownerMove
    (invariant : EnqueueInvariant N task state)
    (phase : PhaseInvariant N state.queue)
    {queue : Queue.State (TaskRef Task) Nat}
    (moved : OwnerMove N state.queue queue) :
    EnqueueInvariant N task { state.progress with queue := queue } := by
  have callAt := invariant.callAt
  cases moved with
  | write at_ =>
      rw [at_] at callAt
      obtain ⟨call, called, written, holds⟩ := callAt
      subst written
      exact invariant.write phase at_ called holds rfl
        (by simp [State.progress, at_, called]) rfl
        (by simp [State.progress, at_])
  | add at_ =>
      rw [at_] at callAt
      obtain ⟨call, receiver, called, holds, word, pointer, ownTask,
        fresh⟩ := callAt
      exact invariant.add phase at_ called holds word pointer ownTask fresh
        rfl rfl rfl (by simp [State.progress, at_]) rfl
        (by simp [State.progress, at_, called])
  | enterAtBoundary at_ _ | enterInside at_ _ | cachedFree at_ _
  | cachedBusy at_ _ | loadedFree at_ _ | replaceJoined at_ _
  | replaceOpening at_ _ | occupy at_ =>
      rw [at_] at callAt
      exact invariant.of_same (by simp [State.progress, at_]) rfl
        (by simp [State.progress, at_]) (fun _ => rfl) callAt
        (by simp [at_])
  | loadedBusy at_ _ =>
      rw [at_] at callAt
      obtain ⟨call, called, _, holds⟩ := callAt
      exact invariant.of_same (by simp [State.progress, at_]) rfl
        (by simp [State.progress, at_]) (fun _ => rfl)
        ⟨call, called, holds⟩ (by simp [at_])

/-- Changing a cell without its pointer leaves all pointers alone. -/
theorem updateCell_rx
    (queue : Queue.State (TaskRef Task) Nat)
    (index : Nat)
    {update : TaskRef Task → TaskRef Task}
    (pointer : ∀ ref, (update ref).rx = ref.rx)
    (cell : Nat) :
    ((queue.updateCell index update).buffer cell).rx =
      (queue.buffer cell).rx := by
  by_cases here : cell = index
  · rw [here, Queue.State.updateCell]
    exact (congrArg TaskRef.rx (Function.update_self index _ _)).trans
      (pointer _)
  · rw [Queue.State.updateCell]
    exact congrArg TaskRef.rx (Function.update_of_ne here _ _)

/-- Writing a value through a pointer keeps the future's stage. -/
theorem store
    (invariant : EnqueueInvariant N task state)
    {rx : Nat}
    {value : Option Value}
    (futures :
      after.futures =
        Function.update state.futures rx ((state.futures rx).store value))
    (queue : after.queue = state.queue)
    (enqueued : after.enqueued = state.enqueued)
    (polling : after.polling = state.polling) :
    EnqueueInvariant N task after := by
  have here : after.futures rx = (state.futures rx).store value := by
    rw [futures, Function.update_self]
  have elsewhere {other : Nat} (differs : other ≠ rx) :
      after.futures other = state.futures other := by
    rw [futures, Function.update_of_ne differs]
  refine invariant.of_frame ?_ enqueued ?_ ?_ ?_ ?_ ?_
  · rw [queue]
  · rw [queue]
    exact fun _ => rfl
  · rw [queue, polling]
    refine invariant.callAt.of_same ?_ ?_ fun _ => rfl
    · intro call called holds
      by_cases same : call.future = rx
      · rw [same] at holds ⊢
        rw [here, holds]
        rfl
      · rw [elsewhere same]
        exact holds
    · intro call receiver called holds
      by_cases same : call.future = rx
      · refine ⟨{ receiver with value := value }, ?_, rfl⟩
        rw [same] at holds ⊢
        rw [here, holds]
        rfl
      · exact ⟨receiver, (elsewhere same).trans holds, rfl⟩
  · rw [queue]
    exact fun index at_ => ⟨at_, polling⟩
  · intro other held holds
    by_cases same : other = rx
    · rw [same, here] at holds
      rw [same]
      cases stage : state.futures rx <;> rw [stage] at holds <;>
        cases holds
      rfl
    · rw [elsewhere same] at holds
      exact holds
  · intro other receiver holds
    by_cases same : other = rx
    · rw [same, here] at holds
      rw [same]
      cases stage : state.futures rx <;> rw [stage] at holds <;>
        cases holds <;> exact ⟨_, rfl, rfl⟩
    · rw [elsewhere same] at holds
      exact ⟨receiver, holds, rfl⟩

/-- The steps of a resolver. -/
theorem resolveMove
    (invariant : EnqueueInvariant N task state)
    {batch cell : Nat}
    {method : Method}
    {todo : List Nat}
    {value : Option Value}
    {point : ResolvePoint}
    (moved :
      ResolveMove state batch method todo cell value point after) :
    EnqueueInvariant N task after := by
  cases moved with
  | setting _ | discard _ =>
      exact invariant.of_same rfl rfl rfl
        (updateCell_rx state.queue cell fun _ => rfl)
        invariant.callAt (fun _ at_ => ⟨at_, rfl⟩)
  | fetchXor =>
      exact invariant.of_same rfl rfl rfl
        (updateCell_rx state.queue cell fun _ => rfl)
        invariant.callAt (fun _ at_ => ⟨at_, rfl⟩)
  | wake _ =>
      exact invariant.of_same rfl rfl rfl (fun _ => rfl)
        invariant.callAt (fun _ at_ => ⟨at_, rfl⟩)
  | write pointer =>
      exact invariant.store rfl rfl rfl rfl

/-- Every step keeps futures, receivers and cells together. -/
theorem move
    (invariant : EnqueueInvariant N task state)
    (phase : PhaseInvariant N state.queue)
    {action : Action Value}
    (moved : Move program N state action after) :
    EnqueueInvariant N task after := by
  cases moved with
  | call holds noCall idle =>
      refine invariant.of_same rfl rfl rfl (fun _ => rfl)
        ⟨_, rfl, rfl, holds⟩ ?_
      rw [idle]
      exact fun _ at_ => by cases at_
  | ready outside holds =>
      exact invariant.of_future rfl (by simp [outside]) (by simp)
        (by simp [Future.receiver?]) rfl rfl rfl rfl (fun _ => rfl)
  | owner moved =>
      exact invariant.ownerMove phase moved
  | refuse called at_ | join called at_ | spawn called at_ =>
      refine invariant.of_same rfl rfl rfl (fun _ => rfl) rfl ?_
      rw [at_]
      exact fun _ at_ => by cases at_
  | idlePoll _ | assign _ _ _ _ _ | invoke _ | release _ _ _ _
  | retry _ | complete _ _ =>
      exact invariant.of_same rfl rfl rfl (fun _ => rfl)
        invariant.callAt (fun _ at_ => ⟨at_, rfl⟩)
  | @visitMap _ cell _ _ | @visitDrop _ cell _ _ =>
      exact invariant.of_same rfl rfl rfl
        (updateCell_rx state.queue cell fun _ => rfl) invariant.callAt
        (fun _ at_ => ⟨at_, rfl⟩)
  | @visitWith _ cell _ _ _ =>
      refine invariant.of_same rfl rfl rfl
        (updateCell_rx state.queue cell fun _ => ?_) invariant.callAt
        (fun _ at_ => ⟨at_, rfl⟩)
      split <;> rfl
  | resolve _ moved =>
      exact invariant.resolveMove moved
  | steal _ found draining =>
      obtain ⟨owner, buffer, cells⟩ :=
        (Queue.Move.frame (.steal found draining :
          Queue.Move N state.queue _ _) rfl)
      refine invariant.of_same rfl cells rfl ?_ ?_ ?_
      · intro cell
        exact congrArg (fun buffer => (buffer cell).rx) buffer
      · have callAt := invariant.callAt
        rw [← owner] at callAt
        exact callAt
      · exact fun index at_ => ⟨owner.trans at_, rfl⟩
  | @dropBatched future receiver outside holds =>
      refine invariant.of_future rfl (by simp [outside]) (by simp) ?_ rfl
        rfl rfl rfl (updateCell_rx state.queue receiver.state fun _ => rfl)
      intro other isReceiver
      cases isReceiver
      exact ⟨_, Future.receiver?_of_batched holds, rfl⟩
  | dropUnbatched outside holds =>
      exact invariant.of_future rfl (by simp [outside]) (by simp)
        (by simp [Future.receiver?]) rfl rfl rfl rfl (fun _ => rfl)
  | dropReceived holds | dropReturn holds clear =>
      exact invariant.of_future rfl (by simp [holds]) (by simp)
        (by simp [Future.receiver?]) rfl rfl rfl rfl (fun _ => rfl)
  | spin holds waits =>
      refine invariant.of_future rfl (by simp [holds]) (by simp) ?_ rfl
        rfl rfl rfl (fun _ => rfl)
      intro other isReceiver
      cases isReceiver
      exact ⟨_, Future.receiver?_of_dropping holds, rfl⟩

end EnqueueInvariant

/-- In every reachable state futures, receivers and cells belong together. -/
theorem Reachable.enqueueInvariant
    {width : PointerWidth}
    {program : Program Task Value}
    {N : BufferSize width}
    {allowed : State Task Value → Action Value → Prop}
    {task : Nat → Task}
    {state : State Task Value}
    (reachable : Reachable program N allowed task state) :
    EnqueueInvariant N task state :=
  TransitionSystem.Reachable.invariant EnqueueInvariant.initial
    (fun earlier invariant _ taken =>
      invariant.move
        (Queue.Reachable.phaseInvariant (Reachable.queue earlier))
        (step_move taken))
    reachable

end StackQueue.TaskQueue
