import StackQueue.TaskBatches

namespace StackQueue.TaskQueue

open Queue

/-!
# The resolver and the receivers

Words and batches together, along runs in which no future is polled in its
`Batched` state before its resolver has woken it and the owner writes to no
live cell.  The reuse window keeps the cell of a task that is being
processed with that task, so each access of `resolve_unchecked` finds the word
and the receiver of its own task.
-/

variable {Task Value : Type}

/-- A future in the `Batched` state is polled after its resolver's wake. -/
def PollsWoken (state : State Task Value) : Action Value → Prop
  | .poll future _ =>
      ∀ receiver,
        state.futures future = .batched receiver →
        (state.resolutions future).isWoken = true
  | _ => True

/-- The task that a batch is processing, and where it is. -/
structure Current
    {width : PointerWidth}
    (N : BufferSize width)
    (state : State Task Value)
    (batch cell : Nat)
    (handle : Handle)
    (position future : Nat) : Prop where
  found : state.queue.handles[batch]? = some handle
  bounded : IsBounded handle
  begun : handle.first ≤ position
  below : position < handle.last
  isCell : cell = position % N.size
  enqueued : state.enqueuers[position]? = some future
  inWindow : state.queue.InWindow N position
  pointer : (state.queue.buffer cell).rx = some future

theorem TaskRef.updateState_rx
    (update : Nat → Nat)
    (ref : TaskRef Task) :
    (TaskRef.updateState update ref).rx = ref.rx :=
  rfl

theorem TaskRef.takeTaskUnchecked_rx
    (ref : TaskRef Task) :
    ref.takeTaskUnchecked.rx = ref.rx :=
  rfl

/-- Marking a cell marks the task that its pointer designates. -/
theorem State.mark_resolutions
    {state : State Task Value}
    {cell future : Nat}
    {resolution : Resolution}
    (pointer : (state.queue.buffer cell).rx = some future) :
    (state.mark cell resolution).resolutions =
      Function.update state.resolutions future resolution := by
  simp [State.mark, pointer]

/-- So it does when the cell has changed, but not its pointer. -/
theorem State.updateCell_mark_resolutions
    {state : State Task Value}
    {cell future : Nat}
    {update : TaskRef Task → TaskRef Task}
    {resolution : Resolution}
    (samePointer : ∀ ref, (update ref).rx = ref.rx)
    (pointer : (state.queue.buffer cell).rx = some future) :
    ((state.updateCell cell update).mark cell resolution).resolutions =
      Function.update state.resolutions future resolution :=
  State.mark_resolutions
    ((EnqueueInvariant.updateCell_rx state.queue cell samePointer
      cell).trans pointer)

/-- The words and the batches of a state. -/
structure ResolveInvariant
    {width : PointerWidth}
    (N : BufferSize width)
    (state : State Task Value) : Prop where
  words : WordInvariant N state
  batches : BatchInvariant N state

namespace BatchInvariant

variable
    {width : PointerWidth}
    {N : BufferSize width}
    {task : Nat → Task}
    {state : State Task Value}

/-- A spawned batch has a range. -/
theorem exists_handle
    (invariant : BatchInvariant N state)
    {batch : Nat}
    (spawned : state.batches batch ≠ .unspawned) :
    ∃ handle, state.queue.handles[batch]? = some handle := by
  by_cases inBounds : batch < state.queue.handles.length
  · exact ⟨_, List.getElem?_eq_getElem inBounds⟩
  · exact (spawned
      (invariant.unspawned batch (Nat.le_of_not_lt inBounds))).elim

/-- The positions of a range that is not released have their own cells. -/
theorem current_of_position
    (enqueue : EnqueueInvariant N task state)
    (window : state.queue.LiveInWindow N)
    {batch position future : Nat}
    {handle : Handle}
    (found : state.queue.handles[batch]? = some handle)
    (bounded : IsBounded handle)
    (begun : handle.first ≤ position)
    (below : position < handle.last)
    (atPosition : state.enqueuers[position]? = some future) :
    Current N state batch (position % N.size) handle position future := by
  have inWindow :=
    window.inWindow (List.mem_of_getElem? found) bounded.isLive begun
  exact ⟨found, bounded, begun, below, rfl, atPosition, inWindow,
    enqueue.occupants position future atPosition inWindow⟩

/-- The next cell to visit holds an untouched task of the range. -/
theorem visiting_current
    (invariant : BatchInvariant N state)
    (enqueue : EnqueueInvariant N task state)
    (phase : PhaseInvariant N state.queue)
    (window : state.queue.LiveInWindow N)
    {batch cell : Nat}
    {method : Method}
    {todo : List Nat}
    (visiting : state.batches batch = .visiting method (cell :: todo)) :
    ∃ handle position future,
      Current N state batch cell handle position future ∧
        state.resolutions future = .untouched ∧
        todo =
          CircularBuffer.window N.size (position + 1) handle.last ∧
        Untouched state.enqueuers state.resolutions (position + 1)
          handle.last := by
  have spawned : state.batches batch ≠ .unspawned := by simp [visiting]
  obtain ⟨handle, found⟩ := invariant.exists_handle spawned
  have batchAt := invariant.batches batch handle found
  rw [visiting] at batchAt
  obtain ⟨bounded, position, begun, upTo, cells, untouched⟩ := batchAt
  have below : position < handle.last := by
    by_contra atEnd
    rw [CircularBuffer.window_eq_nil_iff.mpr
      (Nat.le_of_not_lt atEnd)] at cells
    cases cells
  rw [CircularBuffer.window_cons below] at cells
  obtain ⟨isCell, rest⟩ := List.cons_eq_cons.mp cells
  have accepted : position < state.enqueuers.length := by
    have bound := (phase.bounded_positions (List.mem_of_getElem? found)
      bounded.notUnbounded).2
    rw [enqueue.length_enqueuers]
    exact Nat.lt_of_lt_of_le below bound
  have atPosition := List.getElem?_eq_getElem accepted
  have current :=
    current_of_position enqueue window found bounded begun below
      atPosition
  rw [← isCell] at current
  refine ⟨handle, position, _, current, ?_, rest, ?_⟩
  · exact untouched position _ (Nat.le_refl _) below atPosition
  · intro index future fromNext inRange foundAt
    exact untouched index future (Nat.le_of_succ_le fromNext) inRange
      foundAt

/-- The cell being resolved holds the task that the batch has reached. -/
theorem resolving_current
    (invariant : BatchInvariant N state)
    (enqueue : EnqueueInvariant N task state)
    (window : state.queue.LiveInWindow N)
    {batch cell : Nat}
    {method : Method}
    {todo : List Nat}
    {value : Option Value}
    {point : ResolvePoint}
    (resolving :
      state.batches batch = .resolving method todo cell value point) :
    ∃ handle position future,
      Current N state batch cell handle position future ∧
        state.resolutions future = point.resolution ∧
        todo =
          CircularBuffer.window N.size (position + 1) handle.last ∧
        Untouched state.enqueuers state.resolutions (position + 1)
          handle.last := by
  have spawned : state.batches batch ≠ .unspawned := by simp [resolving]
  obtain ⟨handle, found⟩ := invariant.exists_handle spawned
  have batchAt := invariant.batches batch handle found
  rw [resolving] at batchAt
  obtain ⟨bounded, position, future, begun, below, isCell, rest,
    atPosition, resolution, untouched⟩ := batchAt
  have current :=
    current_of_position enqueue window found bounded begun below
      atPosition
  rw [← isCell] at current
  exact ⟨handle, position, future, current, resolution, rest, untouched⟩

end BatchInvariant

/-- A future is not disturbed when its resolver is done with the receiver. -/
theorem FutureAt.of_resolution
    {resolution resolutionAfter : Resolution}
    {future : Future Task Value}
    (futureAt : FutureAt resolution future)
    (notAccessing : resolutionAfter.isAccessing = false)
    (staysWoken :
      resolution.isWoken = true → resolutionAfter.isWoken = true) :
    FutureAt resolutionAfter future := by
  cases future with
  | unbatched held | batched receiver =>
      trivial
  | received =>
      exact staysWoken futureAt
  | dropping receiver seen =>
      intro accessing
      rw [notAccessing] at accessing
      cases accessing
  | dropped =>
      exact notAccessing

/-- A `fetch_or` that does not see `RX_DROPPED` finds no drop begun. -/
theorem WordAt.not_dropBegun
    {word : Nat}
    {dropBegun : Bool}
    {resolution : Resolution}
    (wordAt : WordAt word dropBegun resolution)
    (pending : resolution.isPending = true)
    (alive : isDropped word = false) :
    dropBegun = false := by
  rw [← Bool.not_eq_true]
  intro isBegun
  cases resolution with
  | untouched | visited =>
      have dropped := wordAt.2.2 isBegun
      rw [alive] at dropped
      cases dropped
  | setting | stored | woken | set | discarded =>
      cases pending

/-- The receiver of a task that is not woken is where it was enqueued. -/
theorem FutureAt.of_not_dropBegun
    {resolution resolutionAfter : Resolution}
    {future : Future Task Value}
    (futureAt : FutureAt resolution future)
    (notWoken : resolution.isWoken = false)
    (notBegun : future.isDropBegun = false) :
    FutureAt resolutionAfter future := by
  cases future with
  | unbatched held | batched receiver =>
      trivial
  | received =>
      rw [show resolution.isWoken = true from futureAt] at notWoken
      cases notWoken
  | dropping receiver seen | dropped =>
      cases notBegun

/-- The write of a value changes no future's stage. -/
theorem FutureAt.store
    {future : Future Task Value}
    {value : Option Value}
    (futureAt : FutureAt .setting future) :
    FutureAt .stored (future.store value) := by
  cases future with
  | received =>
      cases futureAt
  | unbatched held | batched receiver | dropping receiver seen
  | dropped =>
      exact futureAt

/-- The write of a value changes the slot of the receiver. -/
theorem Future.receiver?_store
    (future : Future Task Value)
    (value : Option Value) :
    (future.store value).receiver? =
      future.receiver?.map fun receiver =>
        { receiver with value := value } := by
  cases future <;> rfl

/-- The write of a value begins no drop. -/
theorem Future.store_dropping
    {future : Future Task Value}
    {value : Option Value}
    {receiver : Receiver Value}
    {seen : Nat}
    (holds : future.store value = .dropping receiver seen) :
    ∃ old, future = .dropping old seen ∧ old.state = receiver.state := by
  cases future with
  | dropping old oldSeen =>
      cases holds
      exact ⟨old, rfl, rfl⟩
  | unbatched held | batched old | received | dropped =>
      cases holds

@[simp]
theorem Future.isDropBegun_store
    (future : Future Task Value)
    (value : Option Value) :
    (future.store value).isDropBegun = future.isDropBegun := by
  cases future <;> rfl

namespace ResolveInvariant

variable
    {width : PointerWidth}
    {program : Program Task Value}
    {N : BufferSize width}
    {task : Nat → Task}
    {state after : State Task Value}

theorem initial :
    ResolveInvariant N (TaskQueue.initial task : State Task Value) :=
  ⟨.initial, .initial⟩

/-- While its resolver is at work, a receiver's word says so. -/
theorem isSetting_of_resolving
    (invariant : ResolveInvariant N state)
    (enqueue : EnqueueInvariant N task state)
    (window : state.queue.LiveInWindow N)
    {future : Nat}
    {receiver : Receiver Value}
    (holds : (state.futures future).receiver? = some receiver)
    (isResolving : (state.resolutions future).isResolving = true) :
    isSetting (state.queue.buffer receiver.state).state = true := by
  obtain ⟨batch, method, todo, cell, value, point, resolving, pointer⟩ :=
    invariant.batches.resolving future isResolving
  obtain ⟨handle, position, other, current, resolution, _, _⟩ :=
    invariant.batches.resolving_current enqueue window resolving
  have same : other = future := by
    have pointers := current.pointer.symm.trans pointer
    cases pointers
    rfl
  subst same
  have isPosition := enqueue.receiver_state current.enqueued holds
  have wordAt :=
    invariant.words.words position other current.enqueued
      current.inWindow
  rw [isPosition]
  cases stage : state.resolutions other with
  | untouched | visited | set | discarded =>
      rw [stage] at isResolving
      cases isResolving
  | setting | stored | woken =>
      rw [stage] at wordAt
      exact wordAt.1

/-- A batch processes its current task one step further. -/
theorem process
    (invariant : ResolveInvariant N state)
    (enqueue : EnqueueInvariant N task state)
    (phase : PhaseInvariant N state.queue)
    {batch cell position future : Nat}
    {handle : Handle}
    {todo : List Nat}
    {next : Batch Value}
    (method : Method)
    (resolution : Resolution)
    (ref : TaskRef Task)
    (current : Current N state batch cell handle position future)
    (rest :
      todo = CircularBuffer.window N.size (position + 1) handle.last)
    (untouched :
      Untouched state.enqueuers state.resolutions (position + 1)
        handle.last)
    (spawned : state.batches batch ≠ .unspawned)
    (sameCell :
      ∀ method todo other value point,
        state.batches batch = .resolving method todo other value point →
        other = cell)
    (isNext :
      (next = .visiting method todo ∧
          resolution.isResolving = false) ∨
        ∃ value point,
          next = .resolving method todo cell value point ∧
            resolution = point.resolution)
    (buffer :
      after.queue.buffer =
        Function.update state.queue.buffer cell ref)
    (samePointer : ref.rx = (state.queue.buffer cell).rx)
    (wordAt :
      WordAt ref.state (state.futures future).isDropBegun resolution)
    (futureAt : FutureAt resolution (after.futures future))
    (sameBegun :
      (after.futures future).isDropBegun =
        (state.futures future).isDropBegun)
    (elsewhere :
      ∀ other,
        other ≠ future → after.futures other = state.futures other)
    (resolutions :
      after.resolutions =
        Function.update state.resolutions future resolution)
    (batches :
      after.batches = Function.update state.batches batch next)
    (cells : after.queue.cells = state.queue.cells)
    (handles : after.queue.handles = state.queue.handles)
    (owner : after.queue.owner = state.queue.owner)
    (enqueued : after.enqueued = state.enqueued) :
    ResolveInvariant N after := by
  have unique
      {index other : Nat}
      (found : state.enqueuers[index]? = some other)
      (same : other = future) :
      index = position := by
    rw [same] at found
    exact (List.getElem?_inj (List.getElem?_eq_some_iff.mp found).1
      enqueue.distinct).mp (found.trans current.enqueued.symm)
  have stillUntouched :
      Untouched state.enqueuers after.resolutions (position + 1)
        handle.last := by
    intro index other fromNext inRange found
    have differs : other ≠ future := by
      intro same
      have := unique found same
      omega
    rw [resolutions, Function.update_of_ne differs]
    exact untouched index other fromNext inRange found
  constructor
  case words =>
    have isCell := current.isCell
    rw [isCell] at buffer
    exact invariant.words.of_resolution enqueue phase current.enqueued
      current.inWindow buffer resolutions wordAt futureAt sameBegun
      elsewhere cells owner enqueued
  case batches =>
    refine invariant.batches.of_batch phase current.found spawned ?_
      batches (fun bounded => ⟨bounded, rfl⟩) ?_ ?_ ?_ ?_ owner enqueued
    · rw [handles, ListUpdate.set_of_getElem? current.found]
    · intro index other found outside
      have differs : other ≠ future := by
        intro same
        have here := unique found same
        have := outside current.bounded (here ▸ current.begun)
        have := current.below
        omega
      rw [resolutions, Function.update_of_ne differs]
    · rcases isNext with ⟨isVisiting, _⟩ | ⟨value, point, isResolving, at_⟩
      · rw [isVisiting]
        exact ⟨current.bounded, position + 1,
          Nat.le_succ_of_le current.begun, current.below, rest,
          stillUntouched⟩
      · rw [isResolving]
        refine ⟨current.bounded, position, future, current.begun,
          current.below, current.isCell, rest, current.enqueued, ?_,
          stillUntouched⟩
        rw [resolutions, Function.update_self, at_]
    · intro other isResolving
      by_cases same : other = future
      · rw [same, resolutions, Function.update_self] at isResolving
        rcases isNext with ⟨_, notResolving⟩ | ⟨value, point, shape, _⟩
        · rw [notResolving] at isResolving
          cases isResolving
        · left
          rw [same]
          exact ⟨method, todo, cell, value, point, shape, current.pointer⟩
      · right
        rw [resolutions, Function.update_of_ne same] at isResolving
        refine ⟨isResolving, ?_⟩
        intro otherMethod otherTodo otherCell value point holds pointer
        rw [sameCell _ _ _ _ _ holds, current.pointer] at pointer
        cases pointer
        exact same rfl
    · intro other
      rw [buffer]
      by_cases here : other = cell
      · rw [here, Function.update_self, samePointer]
      · rw [Function.update_of_ne here]

/-- A batch takes the next task out of its cell. -/
theorem visit
    (invariant : ResolveInvariant N state)
    (enqueue : EnqueueInvariant N task state)
    (phase : PhaseInvariant N state.queue)
    (window : state.queue.LiveInWindow N)
    {batch cell : Nat}
    {method : Method}
    {todo : List Nat}
    {next : Batch Value}
    (update : TaskRef Task → TaskRef Task)
    (visiting : state.batches batch = .visiting method (cell :: todo))
    (isNext :
      next = .visiting method todo ∨
        ∃ value, next = .resolving method todo cell value .fetchOr)
    (samePointer : ∀ ref, (update ref).rx = ref.rx)
    (sameWord : ∀ ref, (update ref).state = ref.state)
    (queue : after.queue = state.queue.updateCell cell update)
    (futures : after.futures = state.futures)
    (resolutions :
      after.resolutions =
        ((state.updateCell cell update).mark cell .visited).resolutions)
    (batches :
      after.batches = Function.update state.batches batch next)
    (enqueued : after.enqueued = state.enqueued) :
    ResolveInvariant N after := by
  obtain ⟨handle, position, future, current, wasUntouched, rest,
    untouched⟩ :=
      invariant.batches.visiting_current enqueue phase window visiting
  have futureAt := invariant.words.futures future
  have wordAt :=
    invariant.words.words position future current.enqueued
      current.inWindow
  rw [wasUntouched] at futureAt wordAt
  rw [← current.isCell] at wordAt
  refine invariant.process enqueue phase method .visited
    (update (state.queue.buffer cell)) current rest untouched ?_ ?_ ?_ ?_
    ?_ ?_ ?_ ?_ ?_ ?_ batches ?_ ?_ ?_ enqueued
  · simp [visiting]
  · simp [visiting]
  · rcases isNext with isVisiting | ⟨value, isResolving⟩
    · exact Or.inl ⟨isVisiting, rfl⟩
    · exact Or.inr ⟨value, .fetchOr, isResolving, rfl⟩
  · rw [queue]
    rfl
  · exact samePointer _
  · rw [sameWord]
    exact wordAt
  · rw [futures]
    exact futureAt.of_resolution rfl (by simp [Resolution.isWoken])
  · rw [futures]
  · rw [futures]
    exact fun _ _ => rfl
  · rw [resolutions]
    exact State.updateCell_mark_resolutions samePointer current.pointer
  · rw [queue]
    rfl
  · rw [queue]
    rfl
  · rw [queue]
    rfl

/-- Each access of `resolve_unchecked` keeps words and batches. -/
theorem resolveMove
    (invariant : ResolveInvariant N state)
    (enqueue : EnqueueInvariant N task state)
    (phase : PhaseInvariant N state.queue)
    (window : state.queue.LiveInWindow N)
    {batch cell : Nat}
    {method : Method}
    {todo : List Nat}
    {value : Option Value}
    {point : ResolvePoint}
    (resolving :
      state.batches batch = .resolving method todo cell value point)
    (moved :
      ResolveMove state batch method todo cell value point after) :
    ResolveInvariant N after := by
  obtain ⟨handle, position, future, current, resolution, rest,
    untouched⟩ :=
      invariant.batches.resolving_current enqueue window resolving
  have spawned : state.batches batch ≠ .unspawned := by simp [resolving]
  have sameCell :
      ∀ method todo other value point,
        state.batches batch = .resolving method todo other value point →
        other = cell := by
    intro _ _ other _ _ holds
    rw [resolving] at holds
    cases holds
    rfl
  have futureAt := invariant.words.futures future
  have wordAt :=
    invariant.words.words position future current.enqueued
      current.inWindow
  rw [resolution] at futureAt wordAt
  rw [← current.isCell] at wordAt
  have marked (update : Nat → Nat) (next : Resolution) :
      ((state.updateCell cell (TaskRef.updateState update)).mark cell
          next).resolutions =
        Function.update state.resolutions future next :=
    State.updateCell_mark_resolutions (TaskRef.updateState_rx update)
      current.pointer
  cases moved with
  | setting alive =>
      have notBegun :=
        wordAt.not_dropBegun rfl ((and_rxDropped_eq_zero_iff _).mp alive)
      refine invariant.process enqueue phase method .setting
        (TaskRef.updateState (· ||| settingValue)
          (state.queue.buffer cell)) current rest untouched spawned
        sameCell (Or.inr ⟨value, .write, rfl, rfl⟩) rfl rfl ?_ ?_ rfl
        (fun _ _ => rfl)
        (marked _ _) rfl rfl
        rfl rfl rfl
      · obtain ⟨_, notSet, _⟩ := wordAt
        simp [WordAt, TaskRef.updateState, notSet]
      · exact futureAt.of_not_dropBegun rfl notBegun
  | discard dropped =>
      have isOn : isDropped (state.queue.buffer cell).state = true := by
        rw [← Bool.not_eq_false, ← and_rxDropped_eq_zero_iff]
        exact dropped
      refine invariant.process enqueue phase method .discarded
        (TaskRef.updateState (· ||| settingValue)
          (state.queue.buffer cell)) current rest untouched spawned
        sameCell (Or.inl ⟨rfl, rfl⟩) rfl rfl ?_ ?_ rfl (fun _ _ => rfl)
        (marked _ _) rfl rfl
        rfl rfl rfl
      · obtain ⟨_, notSet, _⟩ := wordAt
        simp [WordAt, TaskRef.updateState, notSet, isOn]
      · exact futureAt.of_resolution rfl fun woken => by cases woken
  | @write rx designates =>
      have same : rx = future := by
        have pointers := designates.symm.trans current.pointer
        cases pointers
        rfl
      subst same
      refine invariant.process enqueue phase method .stored
        (state.queue.buffer cell) current rest untouched spawned sameCell
        (Or.inr ⟨value, .wake, rfl, rfl⟩)
        (Function.update_eq_self cell _).symm rfl wordAt ?_ ?_ ?_
        (State.mark_resolutions designates) rfl rfl rfl rfl rfl
      · simp only [State.setBatch, State.setFuture, Function.update_self]
        exact futureAt.store
      · simp [State.setBatch, State.setFuture]
      · intro other differs
        exact Function.update_of_ne differs _ _
  | wake _ =>
      refine invariant.process enqueue phase method .woken
        (state.queue.buffer cell) current rest untouched spawned sameCell
        (Or.inr ⟨value, .fetchXor, rfl, rfl⟩)
        (Function.update_eq_self cell _).symm rfl wordAt ?_ rfl
        (fun _ _ => rfl) (State.mark_resolutions current.pointer) rfl rfl
        rfl rfl rfl
      exact futureAt.of_resolution rfl fun _ => rfl
  | fetchXor =>
      refine invariant.process enqueue phase method .set
        (TaskRef.updateState (· ^^^ (settingValue ||| valueSet))
          (state.queue.buffer cell)) current rest untouched spawned
        sameCell (Or.inl ⟨rfl, rfl⟩) rfl rfl ?_ ?_ rfl (fun _ _ => rfl)
        (marked _ _) rfl rfl
        rfl rfl rfl
      · obtain ⟨isOn, notSet⟩ := wordAt
        simp [WordAt, TaskRef.updateState, isOn, notSet]
      · exact futureAt.of_resolution rfl fun _ => rfl

/-- The owner never writes the cell of a task that is being processed. -/
theorem ne_of_writing
    (invariant : ResolveInvariant N state)
    (enqueue : EnqueueInvariant N task state)
    (phase : PhaseInvariant N state.queue)
    (window : state.queue.LiveInWindow N)
    (free : state.queue.WritesFreeCell N)
    {write : TaskRef Task → TaskRef Task}
    {index : Nat}
    (at_ : state.queue.owner = .writing write index)
    {batch cell : Nat}
    {method : Method}
    {todo : List Nat}
    {value : Option Value}
    {point : ResolvePoint}
    (resolving :
      state.batches batch = .resolving method todo cell value point) :
    cell ≠ index := by
  obtain ⟨handle, position, future, current, _, _, _⟩ :=
    invariant.batches.resolving_current enqueue window resolving
  have room :=
    (free _ _ at_ handle (List.mem_of_getElem? current.found)
      current.bounded.isLive).1
  have accepted :=
    (phase.bounded_positions (List.mem_of_getElem? current.found)
      current.bounded.notUnbounded).2
  have owner := phase.owner
  rw [at_] at owner
  have begun := current.begun
  have below := current.below
  rw [current.isCell, owner.1]
  apply CircularBuffer.mod_ne_of_window
  · omega
  · omega

/-- The owner's steps keep words and batches. -/
theorem ownerMove
    (invariant : ResolveInvariant N state)
    (enqueue : EnqueueInvariant N task state)
    (phase : PhaseInvariant N state.queue)
    (window : state.queue.LiveInWindow N)
    (free : state.queue.WritesFreeCell N)
    {queue : Queue.State (TaskRef Task) Nat}
    (moved : OwnerMove N state.queue queue) :
    ResolveInvariant N { state.progress with queue := queue } := by
  have callAt := enqueue.callAt
  cases moved with
  | @write _ index at_ =>
      have isWriting := at_
      rw [at_] at callAt
      obtain ⟨call, called, written, holds⟩ := callAt
      subst written
      constructor
      case words =>
        exact invariant.words.write enqueue phase at_ holds rfl
          (by simp [State.progress, at_, called])
          (by simp [State.progress, at_]) rfl
      case batches =>
        refine invariant.batches.of_same rfl rfl
          (by simp [State.progress, at_]) rfl ?_ ?_
        · intro batch method todo cell value point resolving
          have differs :=
            invariant.ne_of_writing enqueue phase window free isWriting
              resolving
          exact congrArg TaskRef.rx
            (Function.update_of_ne differs _ state.queue.buffer)
        · intro batch returning
          cases returning
  | add at_ =>
      rw [at_] at callAt
      obtain ⟨call, receiver, called, holds, _, _, _, fresh⟩ := callAt
      have enqueued :
          state.progress.enqueued =
            state.enqueued ++ [(call.future, call.task)] := by
        simp [State.progress, at_, called]
      constructor
      case words =>
        exact invariant.words.add enqueue phase at_ holds fresh rfl rfl
          rfl (by simp [State.progress, at_]) enqueued rfl
      case batches =>
        exact invariant.batches.add enqueue phase
          (invariant.words.notEnqueued _ fresh) rfl rfl enqueued rfl rfl
          (fun _ returning => by cases returning)
  | occupy at_ =>
      constructor
      case words =>
        exact invariant.words.of_same rfl rfl (by simp [at_])
          (by simp [State.progress, at_]) rfl
          (by simp [State.progress, at_])
      case batches =>
        exact invariant.batches.occupy rfl rfl rfl rfl
          (by simp [State.progress, at_]) rfl rfl
  | enterAtBoundary at_ _ | enterInside at_ _ | cachedFree at_ _
  | cachedBusy at_ _ | loadedFree at_ _ | loadedBusy at_ _
  | replaceJoined at_ _ | replaceOpening at_ _ =>
      constructor
      case words =>
        exact invariant.words.of_same rfl rfl (by simp [at_])
          (by simp [State.progress, at_]) rfl
          (by simp [State.progress, at_])
      case batches =>
        refine invariant.batches.of_same rfl rfl
          (by simp [State.progress, at_]) rfl
          (fun _ _ _ _ _ _ _ => rfl) ?_
        intro batch returning
        cases returning

/-- A step outside the cells, the handles and the futures' stages. -/
theorem of_same
    (invariant : ResolveInvariant N state)
    (cells : after.queue.cells = state.queue.cells)
    (buffer : after.queue.buffer = state.queue.buffer)
    (handles : after.queue.handles = state.queue.handles)
    (adding :
      ∀ index,
        state.queue.owner = .adding index ↔
          after.queue.owner = .adding index)
    (returning :
      ∀ batch,
        after.queue.owner = .returning (.opened batch) →
        state.queue.owner = .returning (.opened batch))
    (enqueued : after.enqueued = state.enqueued)
    (resolutions : after.resolutions = state.resolutions)
    (futures : after.futures = state.futures)
    (batches : after.batches = state.batches) :
    ResolveInvariant N after where
  words :=
    invariant.words.of_same cells buffer adding enqueued resolutions
      futures
  batches :=
    invariant.batches.of_same handles batches enqueued resolutions
      (fun _ _ _ _ _ _ _ => by rw [buffer]) returning

/-- A step of one future that reads its word at most. -/
theorem of_future
    (invariant : ResolveInvariant N state)
    {future : Nat}
    {stage : Future Task Value}
    (futures :
      after.futures = Function.update state.futures future stage)
    (futureAt : FutureAt (state.resolutions future) stage)
    (begins :
      future ∈ state.enqueuers →
      stage.isDropBegun = true →
      (state.futures future).isDropBegun = true ∨
        (state.resolutions future).isPending = false)
    (queue : after.queue = state.queue)
    (enqueued : after.enqueued = state.enqueued)
    (resolutions : after.resolutions = state.resolutions)
    (batches : after.batches = state.batches) :
    ResolveInvariant N after where
  words :=
    invariant.words.of_future futures futureAt begins queue enqueued
      resolutions
  batches :=
    invariant.batches.of_same (by rw [queue]) batches enqueued resolutions
      (fun _ _ _ _ _ _ _ => by rw [queue]) (fun _ => by
        rw [queue]
        exact id)

/-- A step of one batch that touches no task. -/
theorem of_quiet
    (invariant : ResolveInvariant N state)
    (phase : PhaseInvariant N state.queue)
    {batch : Nat}
    {old new : Handle}
    {next : Batch Value}
    (found : state.queue.handles[batch]? = some old)
    (spawned : state.batches batch ≠ .unspawned)
    (notResolving :
      ∀ method todo cell value point,
        state.batches batch ≠ .resolving method todo cell value point)
    (handles :
      after.queue.handles = state.queue.handles.set batch new)
    (batches :
      after.batches = Function.update state.batches batch next)
    (keepsEnd :
      old.isUnbounded = false →
      new.isUnbounded = false ∧ new.last = old.last)
    (batchAt :
      BatchAt N state.enqueuers state.resolutions new next)
    (cells : after.queue.cells = state.queue.cells)
    (buffer : after.queue.buffer = state.queue.buffer)
    (owner : after.queue.owner = state.queue.owner)
    (enqueued : after.enqueued = state.enqueued)
    (resolutions : after.resolutions = state.resolutions)
    (futures : after.futures = state.futures) :
    ResolveInvariant N after where
  words :=
    invariant.words.of_same cells buffer (fun _ => by rw [owner]) enqueued
      resolutions futures
  batches :=
    invariant.batches.of_quiet phase found spawned notResolving handles
      batches keepsEnd batchAt buffer owner enqueued resolutions

/-- The bounds of a batch are set: its cells are those of its range. -/
theorem assign
    (invariant : ResolveInvariant N state)
    (phase : PhaseInvariant N state.queue)
    {batch : Nat}
    {old new : Handle}
    {range : CounterRange}
    (pending : state.batches batch = .pending)
    (found : state.queue.handles[batch]? = some old)
    (unbounded : old.stage = .unbounded)
    (foundAfter :
      (Queue.setBounds width state.queue batch old).handles[batch]? =
        some new)
    (bounded : new.stage = .bounded range)
    (phaseAfter :
      PhaseInvariant N (Queue.setBounds width state.queue batch old))
    (windowAfter :
      (Queue.setBounds width state.queue batch old).LiveInWindow N) :
    ResolveInvariant N
      { state.setBatch batch (.assigned (taskIndices N range)) with
        queue := Queue.setBounds width state.queue batch old } := by
  have isUnbounded : old.isUnbounded = true := by
    simp [Handle.isUnbounded, unbounded]
  have member := List.mem_of_getElem? foundAfter
  obtain ⟨isFirst, handles⟩ := Queue.setBounds_handles found foundAfter
  have nonempty :=
    (phaseAfter.bounded_positions member
      (IsBounded.notUnbounded ⟨range, bounded⟩)).1
  refine invariant.of_quiet phase found (by simp [pending])
    (by simp [pending]) handles rfl ?_ ?_ rfl rfl rfl rfl rfl rfl
  · intro notUnbounded
    rw [isUnbounded] at notUnbounded
    cases notUnbounded
  · refine ⟨⟨range, bounded⟩, new.first, Nat.le_refl _,
      Nat.le_of_lt nonempty,
      windowAfter.taskIndices_of_live phaseAfter member bounded, ?_⟩
    intro position future fromFirst _ atPosition
    refine invariant.batches.beyond position future atPosition ?_
    intro handle isHandle isBounded
    rw [isFirst] at fromFirst
    exact Nat.le_trans
      (phase.last_le_first found isUnbounded isHandle isBounded) fromFirst

/-- Every step by a future that was woken keeps words and batches. -/
theorem move
    (invariant : ResolveInvariant N state)
    (enqueue : EnqueueInvariant N task state)
    (phase : PhaseInvariant N state.queue)
    (window : state.queue.LiveInWindow N)
    {action : Action Value}
    (writesFree : WritesFree N state action)
    (pollsWoken : PollsWoken state action)
    (moved : Move program N state action after)
    (phaseAfter : PhaseInvariant N after.queue)
    (windowAfter : after.queue.LiveInWindow N) :
    ResolveInvariant N after := by
  cases moved with
  | call holds noCall idle =>
      exact invariant.of_same rfl rfl rfl (by simp [idle])
        (fun _ returning => by cases returning) rfl rfl rfl rfl
  | ready outside holds =>
      refine invariant.of_future rfl (pollsWoken _ holds) ?_ rfl rfl rfl
        rfl
      exact fun _ begun => by cases begun
  | idlePoll holds =>
      exact invariant.of_same rfl rfl rfl (fun _ => Iff.rfl)
        (fun _ => id) rfl rfl rfl rfl
  | owner moved =>
      exact invariant.ownerMove enqueue phase window writesFree moved
  | refuse called at_ | join called at_ =>
      exact invariant.of_same rfl rfl rfl (by simp [at_])
        (fun _ returning => by cases returning) rfl rfl rfl rfl
  | spawn called at_ =>
      have exists_ := phase.owner
      rw [at_] at exists_
      constructor
      case words =>
        exact invariant.words.of_same rfl rfl (by simp [at_]) rfl rfl rfl
      case batches =>
        exact invariant.batches.spawn at_ (exists_.2.2 _ rfl).2 rfl rfl
          rfl rfl rfl rfl
  | assign pending found unbounded foundAfter bounded =>
      exact invariant.assign phase pending found unbounded foundAfter
        bounded phaseAfter windowAfter
  | @invoke batch method todo assigned =>
      have spawned : state.batches batch ≠ .unspawned := by
        simp [assigned]
      obtain ⟨handle, found⟩ := invariant.batches.exists_handle spawned
      have batchAt := invariant.batches.batches batch handle found
      rw [assigned] at batchAt
      exact invariant.of_quiet phase found spawned (by simp [assigned])
        (ListUpdate.set_of_getElem? found).symm rfl (fun kept => ⟨kept, rfl⟩)
        batchAt rfl rfl rfl rfl rfl rfl
  | visitMap visiting =>
      exact invariant.visit enqueue phase window
        TaskRef.takeTaskUnchecked visiting (Or.inr ⟨_, rfl⟩)
        (fun _ => rfl) (fun _ => rfl) rfl rfl rfl rfl rfl
  | visitDrop visiting =>
      exact invariant.visit enqueue phase window
        TaskRef.takeTaskUnchecked visiting (Or.inl rfl) (fun _ => rfl)
        (fun _ => rfl) rfl rfl rfl rfl rfl
  | visitWith visiting =>
      refine invariant.visit enqueue phase window _ visiting
        (Or.inr ⟨_, rfl⟩) (fun _ => ?_) (fun _ => ?_) rfl rfl rfl rfl rfl
      · split <;> rfl
      · split <;> rfl
  | resolve resolving moved =>
      exact invariant.resolveMove enqueue phase window resolving moved
  | @release batch method todo handle range visiting done found bounded =>
      obtain ⟨stage, handles, isReleasing⟩ :=
        deoccupyRegion_stage N state.queue batch handle range
      refine invariant.of_quiet phase found (by simp [visiting])
        (by simp [visiting]) handles rfl ?_ isReleasing rfl rfl rfl rfl
        rfl rfl
      rcases isReleasing with isStage | ⟨left, isStage⟩ <;>
        simp [Handle.isUnbounded, isStage]
  | retry releasing =>
      exact invariant
  | @steal batch batchLimit handle releasing found draining =>
      obtain ⟨stage, handles, isReleasing⟩ :=
        steal_handles state.queue batch handle batchLimit
      obtain ⟨owner, buffer, cells⟩ :=
        (Queue.Move.frame (.steal found draining :
          Queue.Move N state.queue _ _) rfl)
      have same :
          state.batches =
            Function.update state.batches batch .releasing := by
        rw [← releasing, Function.update_eq_self]
      refine invariant.of_quiet phase found (by simp [releasing])
        (by simp [releasing]) handles same ?_ isReleasing cells buffer
        owner rfl rfl rfl
      rcases isReleasing with isStage | ⟨left, isStage⟩ <;>
        simp [Handle.isUnbounded, isStage]
  | @complete batch releasing released =>
      have spawned : state.batches batch ≠ .unspawned := by
        simp [releasing]
      obtain ⟨handle, found⟩ := invariant.batches.exists_handle spawned
      have isReleased : handle.stage = .released := by
        simpa [State.hasReleased, found] using released
      exact invariant.of_quiet phase found spawned (by simp [releasing])
        (ListUpdate.set_of_getElem? found).symm rfl (fun kept => ⟨kept, rfl⟩)
        isReleased rfl rfl rfl rfl rfl rfl
  | @dropBatched future receiver outside holds =>
      constructor
      case words =>
        refine invariant.words.drop enqueue outside holds ?_ rfl rfl rfl
          rfl
        intro accessing
        have holdsReceiver := Future.receiver?_of_batched holds
        exact invariant.isSetting_of_resolving enqueue window
          holdsReceiver (Resolution.isResolving_of_isAccessing accessing)
      case batches =>
        exact invariant.batches.of_same rfl rfl rfl rfl
          (fun _ _ _ cell _ _ _ =>
            EnqueueInvariant.updateCell_rx state.queue receiver.state
              (TaskRef.updateState_rx _) cell)
          (fun _ => id)
  | @dropUnbatched future _ outside holds =>
      have fresh := (enqueue.unbatched _ _ holds).2
      refine invariant.of_future rfl ?_ (fun member => (fresh member).elim)
        rfl rfl rfl rfl
      rw [invariant.words.notEnqueued _ fresh]
      rfl
  | @dropReceived future holds =>
      have woken := invariant.words.futures future
      rw [holds] at woken
      exact invariant.of_future rfl
        (Resolution.not_isAccessing_of_isWoken woken)
        (fun _ _ => Or.inr (Resolution.not_isPending_of_isWoken woken))
        rfl rfl rfl rfl
  | @spin future seen receiver holds waits =>
      refine invariant.of_future rfl ?_
        (fun _ _ => Or.inl (by rw [holds]; rfl)) rfl rfl rfl rfl
      intro accessing
      have holdsReceiver := Future.receiver?_of_dropping holds
      exact invariant.isSetting_of_resolving enqueue window
        holdsReceiver (Resolution.isResolving_of_isAccessing accessing)
  | @dropReturn future seen receiver holds clear =>
      have futureAt := invariant.words.futures future
      rw [holds] at futureAt
      refine invariant.of_future rfl ?_
        (fun _ _ => Or.inl (by rw [holds]; rfl)) rfl rfl rfl rfl
      change (state.resolutions future).isAccessing = false
      rw [← Bool.not_eq_true]
      intro accessing
      rw [futureAt accessing] at clear
      cases clear

/-- Where the receiver of an accepted task is. -/
theorem receiver_of_enqueued
    (invariant : ResolveInvariant N state)
    (enqueue : EnqueueInvariant N task state)
    {position future : Nat}
    (atPosition : state.enqueuers[position]? = some future) :
    (state.resolutions future).isWoken = true ∨
      (∃ receiver,
        (state.futures future).receiver? = some receiver ∧
          receiver.state = position % N.size) ∨
      (state.futures future = .dropped ∧
        (state.resolutions future).isAccessing = false) := by
  have futureAt := invariant.words.futures future
  cases stage : state.futures future with
  | unbatched held =>
      exact ((enqueue.unbatched future held stage).2
        (List.mem_of_getElem? atPosition)).elim
  | batched receiver | dropping receiver seen =>
      have holds : (state.futures future).receiver? = some receiver := by
        rw [stage]
        rfl
      exact Or.inr (Or.inl
        ⟨receiver, rfl, enqueue.receiver_state atPosition holds⟩)
  | received =>
      rw [stage] at futureAt
      exact Or.inl futureAt
  | dropped =>
      rw [stage] at futureAt
      exact Or.inr (Or.inr ⟨rfl, futureAt⟩)

/-- The receiver of a task that is written or woken exists. -/
theorem receiver_of_resolving
    (invariant : ResolveInvariant N state)
    (enqueue : EnqueueInvariant N task state)
    (window : state.queue.LiveInWindow N)
    {batch cell : Nat}
    {method : Method}
    {todo : List Nat}
    {value : Option Value}
    {point : ResolvePoint}
    (resolving :
      state.batches batch = .resolving method todo cell value point)
    (accessing : point = .write ∨ point = .wake) :
    ∃ future receiver,
      (state.queue.buffer cell).rx = some future ∧
        (state.futures future).receiver? = some receiver ∧
        receiver.state = cell := by
  obtain ⟨_, position, future, current, resolution, _, _⟩ :=
    invariant.batches.resolving_current enqueue window resolving
  have isAccessing : (state.resolutions future).isAccessing = true := by
    rw [resolution]
    rcases accessing with isPoint | isPoint <;> rw [isPoint] <;> rfl
  rcases invariant.receiver_of_enqueued enqueue current.enqueued with
    woken | ⟨receiver, holds, isCell⟩ | ⟨_, notAccessing⟩
  · rw [Resolution.not_isAccessing_of_isWoken woken] at isAccessing
    cases isAccessing
  · rw [← current.isCell] at isCell
    exact ⟨future, receiver, current.pointer, holds, isCell⟩
  · rw [notAccessing] at isAccessing
    cases isAccessing

end ResolveInvariant

/-- Along a run that polls woken futures only and writes no live cell. -/
theorem Reachable.resolveInvariant
    {width : PointerWidth}
    {program : Program Task Value}
    {N : BufferSize width}
    {allowed : State Task Value → Action Value → Prop}
    (writesFree :
      ∀ state action, allowed state action → WritesFree N state action)
    (pollsWoken :
      ∀ state action, allowed state action → PollsWoken state action)
    {task : Nat → Task}
    {state : State Task Value}
    (reachable : Reachable program N allowed task state) :
    ResolveInvariant N state := by
  refine TransitionSystem.Reachable.invariant ResolveInvariant.initial ?_
    reachable
  intro before after action earlier invariant permitted taken
  have later : Reachable program N allowed task after :=
    .next earlier permitted taken
  exact invariant.move (Reachable.enqueueInvariant earlier)
    (Queue.Reachable.phaseInvariant (Reachable.queue earlier))
    (Reachable.liveInWindow writesFree earlier)
    (writesFree before action permitted)
    (pollsWoken before action permitted) (step_move taken)
    (Queue.Reachable.phaseInvariant (Reachable.queue later))
    (Reachable.liveInWindow writesFree later)

end StackQueue.TaskQueue
