import StackQueue.TaskCompletion
import StackQueue.TaskWakers

namespace StackQueue.TaskQueue

open Queue

/-!
# Answers to tasks

When each batch is consumed by `map` and each future keeps to its own waker,
`resolve_unchecked` is called with `op` of the task that the future was
created with.  `TaskCells` follows a task from its future into the cell where
the batch finds it, and `AnswerInvariant` its value from there on.
-/

variable {Task Value : Type}

/-- Futures keep to their own wakers, and batches are consumed by `map`. -/
def MapsBatches
    (state : State Task Value)
    (action : Action Value) :
    Prop :=
  OwnWaker state action ∧
    match action with
    | .invoke _ method => method = .map
    | _ => True

instance
    (state : State Task Value)
    (action : Action Value) :
    Decidable (MapsBatches state action) := by
  unfold MapsBatches
  cases action <;> infer_instance

/-! ## Tasks in their cells -/

/-- Until a task is visited its cell holds it. -/
structure TaskCells
    {width : PointerWidth}
    (N : BufferSize width)
    (task : Nat → Task)
    (state : State Task Value) : Prop where
  cells :
    ∀ (position future : Nat),
      state.enqueuers[position]? = some future →
      state.queue.InWindow N position →
      state.resolutions future = .untouched →
      (state.queue.buffer (position % N.size)).task = some (task future)
  /-- The cell of the task that is being enqueued. -/
  newCell :
    ∀ index call,
      state.queue.owner = .adding index →
      state.polling = some call →
      (state.queue.buffer index).task = some call.task

namespace TaskCells

variable
    {width : PointerWidth}
    {program : Program Task Value}
    {N : BufferSize width}
    {task : Nat → Task}
    {state after : State Task Value}

theorem initial :
    TaskCells N task (TaskQueue.initial task : State Task Value) := by
  constructor <;>
    simp [TaskQueue.initial, Queue.initial, State.enqueuers]

/-- A step that neither fills nor empties a cell. -/
theorem of_frame
    (invariant : TaskCells N task state)
    (cells : after.queue.cells = state.queue.cells)
    (enqueued : after.enqueued = state.enqueued)
    (adding :
      ∀ index,
        after.queue.owner = .adding index ↔
          state.queue.owner = .adding index)
    (polling :
      ∀ index,
        state.queue.owner = .adding index →
        after.polling = state.polling)
    (contents :
      ∀ cell,
        (after.queue.buffer cell).task = (state.queue.buffer cell).task)
    (untouched :
      ∀ future,
        after.resolutions future = .untouched →
        state.resolutions future = .untouched) :
    TaskCells N task after := by
  constructor
  case cells =>
    intro position future atPosition inWindow isUntouched
    rw [State.enqueuers, enqueued] at atPosition
    rw [contents]
    refine invariant.cells position future atPosition
      (inWindow.of_same cells fun index at_ => ?_)
      (untouched future isUntouched)
    rw [(adding index).mpr at_]
    rfl
  case newCell =>
    intro index call at_ called
    have wasAdding := (adding index).mp at_
    rw [polling index wasAdding] at called
    rw [contents]
    exact invariant.newCell index call wasAdding called

/-- The owner moves the task into the next cell. -/
theorem write
    (invariant : TaskCells N task state)
    (enqueue : EnqueueInvariant N task state)
    (phase : PhaseInvariant N state.queue)
    {index : Nat}
    {call : Call Task}
    (at_ :
      state.queue.owner =
        .writing (TaskRef.init call.task call.future) index)
    (called : state.polling = some call)
    (queue :
      after.queue =
        { state.queue.updateCell index
            (TaskRef.init call.task call.future) with
          owner := .adding index })
    (polling : after.polling = state.polling)
    (enqueued : after.enqueued = state.enqueued)
    (resolutions : after.resolutions = state.resolutions) :
    TaskCells N task after := by
  constructor
  case cells =>
    intro position future atPosition inWindow isUntouched
    rw [State.enqueuers, enqueued] at atPosition
    rw [resolutions] at isUntouched
    obtain ⟨differs, wasInWindow⟩ :=
      Queue.State.InWindow.of_write phase at_ (by rw [queue]; rfl)
        (by rw [queue]) inWindow (enqueue.accepted_of_enqueuer atPosition)
    rw [queue]
    simp only [Queue.State.updateCell_of_ne state.queue _ differs]
    exact invariant.cells position future atPosition wasInWindow isUntouched
  case newCell =>
    intro cell other isAdding isCall
    rw [polling, called] at isCall
    cases isCall
    rw [queue] at isAdding ⊢
    cases isAdding
    change
      ((state.queue.updateCell index
        (TaskRef.init call.task call.future)).buffer index).task =
        some call.task
    rw [Queue.State.updateCell_self]
    rfl

/-- The `fetch_add` accepts the task in the cell that was filled last. -/
theorem add
    (invariant : TaskCells N task state)
    (enqueue : EnqueueInvariant N task state)
    (phase : PhaseInvariant N state.queue)
    {index baseSlot : Nat}
    {call : Call Task}
    (at_ : state.queue.owner = .adding index)
    (called : state.polling = some call)
    (ownTask : call.task = task call.future)
    (cells : after.queue.cells = state.queue.cells ++ [index])
    (buffer : after.queue.buffer = state.queue.buffer)
    (owner : after.queue.owner = .replacing index baseSlot)
    (enqueued :
      after.enqueued = state.enqueued ++ [(call.future, call.task)])
    (resolutions : after.resolutions = state.resolutions) :
    TaskCells N task after := by
  have accepted : after.queue.accepted = state.queue.accepted + 1 := by
    simp [Queue.State.accepted, cells]
  have enqueuers := State.enqueuers_concat enqueued
  have length := enqueue.length_enqueuers
  have next := phase.adding_index at_
  constructor
  case cells =>
    intro position future atPosition inWindow isUntouched
    rw [enqueuers] at atPosition
    rw [resolutions] at isUntouched
    rw [buffer]
    rcases ListUpdate.getElem?_concat_cases atPosition with
      old | ⟨last, isNew⟩
    · exact invariant.cells position future old
        (inWindow.of_add accepted) isUntouched
    · rw [last, length, ← next, isNew, ← ownTask]
      exact invariant.newCell index call at_ called
  case newCell =>
    intro cell other isAdding
    rw [owner] at isAdding
    cases isAdding

/-- A batch takes a task out of its cell. -/
theorem visit
    (invariant : TaskCells N task state)
    (enqueue : EnqueueInvariant N task state)
    (phase : PhaseInvariant N state.queue)
    {batch cell position future : Nat}
    {handle : Handle}
    {update : TaskRef Task → TaskRef Task}
    (current : Current N state batch cell handle position future)
    (queue : after.queue = state.queue.updateCell cell update)
    (polling : after.polling = state.polling)
    (enqueued : after.enqueued = state.enqueued)
    (resolutions :
      after.resolutions =
        Function.update state.resolutions future .visited) :
    TaskCells N task after := by
  have elsewhere {other : Nat} (differs : other ≠ cell) :
      after.queue.buffer other = state.queue.buffer other := by
    rw [queue]
    exact Queue.State.updateCell_of_ne state.queue update differs
  constructor
  case cells =>
    intro index other atIndex inWindow isUntouched
    rw [State.enqueuers, enqueued] at atIndex
    rw [queue] at inWindow
    have notVisited : other ≠ future := by
      intro same
      rw [same, resolutions, Function.update_self] at isUntouched
      cases isUntouched
    rw [resolutions, Function.update_of_ne notVisited] at isUntouched
    have differs : index % N.size ≠ cell := by
      rw [current.isCell]
      intro sameCell
      have here :=
        Queue.State.InWindow.unique inWindow current.inWindow
          (enqueue.accepted_of_enqueuer atIndex)
          (enqueue.accepted_of_enqueuer current.enqueued) sameCell
      rw [here] at atIndex
      have sameTask := atIndex.symm.trans current.enqueued
      cases sameTask
      exact notVisited rfl
    rw [elsewhere differs]
    exact invariant.cells index other atIndex inWindow isUntouched
  case newCell =>
    intro index call at_ called
    rw [polling] at called
    rw [queue] at at_
    have isAdding : state.queue.owner = .adding index := at_
    have differs : index ≠ cell := by
      rw [current.isCell]
      exact (Queue.State.InWindow.not_adding phase isAdding
        current.inWindow (enqueue.accepted_of_enqueuer current.enqueued)).symm
    rw [elsewhere differs]
    exact invariant.newCell index call isAdding called

/-- The owner's steps keep the tasks in their cells. -/
theorem ownerMove
    (invariant : TaskCells N task state)
    (enqueue : EnqueueInvariant N task state)
    (phase : PhaseInvariant N state.queue)
    {queue : Queue.State (TaskRef Task) Nat}
    (moved : OwnerMove N state.queue queue) :
    TaskCells N task { state.progress with queue := queue } := by
  have callAt := enqueue.callAt
  cases moved with
  | write at_ =>
      rw [at_] at callAt
      obtain ⟨call, called, written, _⟩ := callAt
      subst written
      exact invariant.write enqueue phase at_ called rfl rfl
        (by simp [State.progress, at_]) rfl
  | add at_ =>
      rw [at_] at callAt
      obtain ⟨call, _, called, _, _, _, ownTask, _⟩ := callAt
      exact invariant.add enqueue phase at_ called ownTask rfl rfl rfl
        (by simp [State.progress, at_, called]) rfl
  | occupy at_ | enterAtBoundary at_ _ | enterInside at_ _
  | cachedFree at_ _ | cachedBusy at_ _ | loadedFree at_ _
  | loadedBusy at_ _ | replaceJoined at_ _ | replaceOpening at_ _ =>
      exact invariant.of_frame rfl (by simp [State.progress, at_])
        (by simp [at_]) (fun _ _ => rfl) (fun _ => rfl) (fun _ => id)

/-- Changing a cell without its task leaves all tasks alone. -/
theorem updateCell_task
    (queue : Queue.State (TaskRef Task) Nat)
    (index : Nat)
    (update : Nat → Nat)
    (cell : Nat) :
    ((queue.updateCell index (TaskRef.updateState update)).buffer
        cell).task =
      (queue.buffer cell).task := by
  by_cases here : cell = index
  · rw [here, Queue.State.updateCell_self]
    rfl
  · rw [Queue.State.updateCell_of_ne queue _ here]

/-- Every step keeps the tasks that are not visited in their cells. -/
theorem move
    (invariant : TaskCells N task state)
    (resolve : ResolveInvariant N state)
    (enqueue : EnqueueInvariant N task state)
    (phase : PhaseInvariant N state.queue)
    (window : state.queue.LiveInWindow N)
    {action : Action Value}
    (moved : Move program N state action after) :
    TaskCells N task after := by
  have untouched (future : Nat) :
      after.resolutions future = .untouched →
        state.resolutions future = .untouched :=
    resolve.untouched_of_untouched enqueue phase window moved
  cases moved with
  | owner moved =>
      exact invariant.ownerMove enqueue phase moved
  | call _ _ idle =>
      exact invariant.of_frame rfl rfl (by simp [idle]) (by simp [idle])
        (fun _ => rfl) untouched
  | refuse _ at_ | join _ at_ | spawn _ at_ =>
      exact invariant.of_frame rfl rfl (by simp [at_]) (by simp [at_])
        (fun _ => rfl) untouched
  | ready _ _ | idlePoll _ | assign _ _ _ _ _ | invoke _
  | release _ _ _ _ | retry _ | complete _ _ | dropUnbatched _ _
  | dropReceived _ | spin _ _ | dropReturn _ _ =>
      exact invariant.of_frame rfl rfl (fun _ => Iff.rfl) (fun _ _ => rfl)
        (fun _ => rfl) untouched
  | steal _ found draining =>
      obtain ⟨owner, buffer, cells⟩ :=
        (Queue.Move.frame (.steal found draining :
          Queue.Move N state.queue _ _) rfl)
      exact invariant.of_frame cells rfl (fun _ => by rw [owner])
        (fun _ _ => rfl) (fun _ => by rw [buffer]) untouched
  | dropBatched _ _ =>
      exact invariant.of_frame rfl rfl (fun _ => Iff.rfl) (fun _ _ => rfl)
        (updateCell_task state.queue _ _) untouched
  | resolve _ moved =>
      cases moved with
      | setting _ | discard _ | fetchXor =>
          exact invariant.of_frame rfl rfl (fun _ => Iff.rfl)
            (fun _ _ => rfl) (updateCell_task state.queue _ _) untouched
      | write _ | wake _ =>
          exact invariant.of_frame rfl rfl (fun _ => Iff.rfl)
            (fun _ _ => rfl) (fun _ => rfl) untouched
  | visitMap visiting | visitDrop visiting =>
      obtain ⟨_, _, _, current, _, _, _⟩ :=
        resolve.batches.visiting_current enqueue phase window visiting
      exact invariant.visit enqueue phase current rfl rfl rfl
        (State.updateCell_mark_resolutions TaskRef.takeTaskUnchecked_rx
          current.pointer)
  | visitWith visiting =>
      obtain ⟨_, _, _, current, _, _, _⟩ :=
        resolve.batches.visiting_current enqueue phase window visiting
      refine invariant.visit enqueue phase current rfl rfl rfl
        (State.updateCell_mark_resolutions (fun _ => ?_) current.pointer)
      split <;> rfl

end TaskCells

/-! ## Values on their way -/

/-- A batch uses `map`, and carries `op` of the task that it resolves. -/
def ValueAt
    (program : Program Task Value)
    (task : Nat → Task)
    (buffer : Nat → TaskRef Task) :
    Batch Value → Prop
  | .visiting method _ => method = .map
  | .resolving method _ cell value _ =>
      method = .map ∧
        ∀ future,
          (buffer cell).rx = some future →
          value = some (program.op (task future))
  | .unspawned | .pending | .assigned _ | .releasing | .finished => True

/-- The values of the batches, and those passed to `resolve_unchecked`. -/
structure AnswerInvariant
    (program : Program Task Value)
    (task : Nat → Task)
    (state : State Task Value) : Prop where
  batches :
    ∀ batch,
      ValueAt program task state.queue.buffer (state.batches batch)
  passed :
    ∀ entry ∈ state.passed, entry.2 = some (program.op (task entry.1))

/-- A batch depends on the pointer of the cell that it resolves. -/
theorem ValueAt.of_pointers
    {program : Program Task Value}
    {task : Nat → Task}
    {buffer bufferAfter : Nat → TaskRef Task}
    {batch : Batch Value}
    (valueAt : ValueAt program task buffer batch)
    (pointers :
      ∀ method todo cell value point,
        batch = .resolving method todo cell value point →
        (bufferAfter cell).rx = (buffer cell).rx) :
    ValueAt program task bufferAfter batch := by
  cases batch with
  | resolving method todo cell value point =>
      obtain ⟨isMap, carries⟩ := valueAt
      refine ⟨isMap, fun future pointer => carries future ?_⟩
      rw [← pointers method todo cell value point rfl]
      exact pointer
  | visiting method todo =>
      exact valueAt
  | unspawned | pending | assigned todo | releasing | finished =>
      trivial

namespace AnswerInvariant

variable
    {width : PointerWidth}
    {program : Program Task Value}
    {N : BufferSize width}
    {task : Nat → Task}
    {state after : State Task Value}

theorem initial :
    AnswerInvariant program task
      (TaskQueue.initial task : State Task Value) where
  batches := fun _ => trivial
  passed := fun _ member => by cases member

/-- A step that leaves the batches alone. -/
theorem of_same
    (invariant : AnswerInvariant program task state)
    (batches : after.batches = state.batches)
    (pointers :
      ∀ batch method todo cell value point,
        state.batches batch = .resolving method todo cell value point →
        (after.queue.buffer cell).rx = (state.queue.buffer cell).rx)
    (passed : after.passed = state.passed) :
    AnswerInvariant program task after where
  batches := by
    intro batch
    rw [batches]
    exact (invariant.batches batch).of_pointers (pointers batch)
  passed := by
    rw [passed]
    exact invariant.passed

/-- A step of one batch. -/
theorem of_batch
    (invariant : AnswerInvariant program task state)
    {batch : Nat}
    {next : Batch Value}
    (batches :
      after.batches = Function.update state.batches batch next)
    (valueAt : ValueAt program task state.queue.buffer next)
    (pointers :
      ∀ cell,
        (after.queue.buffer cell).rx = (state.queue.buffer cell).rx)
    (passed :
      ∀ entry ∈ after.passed,
        entry ∈ state.passed ∨
          entry.2 = some (program.op (task entry.1))) :
    AnswerInvariant program task after where
  batches := by
    intro other
    rw [batches]
    by_cases same : other = batch
    · rw [same, Function.update_self]
      exact valueAt.of_pointers fun _ _ cell _ _ _ => pointers cell
    · rw [Function.update_of_ne same]
      exact (invariant.batches other).of_pointers
        fun _ _ cell _ _ _ => pointers cell
  passed := by
    intro entry member
    rcases passed entry member with old | isAnswer
    · exact invariant.passed entry old
    · exact isAnswer

/-- `map` calls `resolve_unchecked` with `op` of the task it took. -/
theorem visit
    (invariant : AnswerInvariant program task state)
    (taskCells : TaskCells N task state)
    (resolve : ResolveInvariant N state)
    (enqueue : EnqueueInvariant N task state)
    (phase : PhaseInvariant N state.queue)
    (window : state.queue.LiveInWindow N)
    {batch cell : Nat}
    {todo : List Nat}
    (visiting : state.batches batch = .visiting .map (cell :: todo))
    (queue :
      after.queue =
        state.queue.updateCell cell TaskRef.takeTaskUnchecked)
    (batches :
      after.batches =
        Function.update state.batches batch
          (.resolving .map todo cell
            ((state.queue.buffer cell).task.map program.op) .fetchOr))
    (passed : after.passed = state.passed) :
    AnswerInvariant program task after := by
  obtain ⟨_, position, future, current, untouched, _, _⟩ :=
    resolve.batches.visiting_current enqueue phase window visiting
  have holds : (state.queue.buffer cell).task = some (task future) := by
    rw [current.isCell]
    exact taskCells.cells position future current.enqueued
      current.inWindow untouched
  refine invariant.of_batch batches ⟨rfl, fun other pointer => ?_⟩ ?_ ?_
  · have same := current.pointer.symm.trans pointer
    cases same
    rw [holds]
    rfl
  · rw [queue]
    exact EnqueueInvariant.updateCell_rx state.queue cell
      TaskRef.takeTaskUnchecked_rx
  · rw [passed]
    exact fun _ member => Or.inl member

/-- The accesses of `resolve_unchecked` hand the value on. -/
theorem resolveMove
    (invariant : AnswerInvariant program task state)
    {batch cell : Nat}
    {method : Method}
    {todo : List Nat}
    {value : Option Value}
    {point : ResolvePoint}
    (resolving :
      state.batches batch = .resolving method todo cell value point)
    (moved :
      ResolveMove state batch method todo cell value point after) :
    AnswerInvariant program task after := by
  have valueAt := invariant.batches batch
  rw [resolving] at valueAt
  obtain ⟨isMap, carries⟩ := valueAt
  have passes :
      ∀ entry ∈ (state.pass cell value).passed,
        entry ∈ state.passed ∨
          entry.2 = some (program.op (task entry.1)) := by
    intro entry member
    rcases List.mem_append.mp member with old | isNew
    · exact Or.inl old
    · obtain ⟨future, pointer, shape⟩ := List.mem_map.mp isNew
      subst shape
      exact Or.inr (carries future (Option.mem_toList.mp pointer))
  have pointers (update : Nat → Nat) (index : Nat) :
      ((state.queue.updateCell cell
          (TaskRef.updateState update)).buffer index).rx =
        (state.queue.buffer index).rx :=
    EnqueueInvariant.updateCell_rx state.queue cell
      (TaskRef.updateState_rx update) index
  cases moved with
  | setting _ =>
      exact invariant.of_batch rfl ⟨isMap, carries⟩ (pointers _) passes
  | discard _ =>
      exact invariant.of_batch rfl isMap (pointers _) passes
  | write _ | wake _ =>
      exact invariant.of_batch rfl ⟨isMap, carries⟩ (fun _ => rfl)
        fun _ member => Or.inl member
  | fetchXor =>
      exact invariant.of_batch rfl isMap (pointers _)
        fun _ member => Or.inl member

/-- Every step of a run that consumes its batches by `map`. -/
theorem move
    (invariant : AnswerInvariant program task state)
    (taskCells : TaskCells N task state)
    (resolve : ResolveInvariant N state)
    (enqueue : EnqueueInvariant N task state)
    (phase : PhaseInvariant N state.queue)
    (window : state.queue.LiveInWindow N)
    {action : Action Value}
    (writesFree : WritesFree N state action)
    (mapsBatches : MapsBatches state action)
    (moved : Move program N state action after) :
    AnswerInvariant program task after := by
  cases moved with
  | owner moved =>
      cases moved with
      | write at_ =>
          refine invariant.of_same rfl ?_ rfl
          intro batch method todo cell value point resolving
          have differs :=
            resolve.ne_of_writing enqueue phase window writesFree at_
              resolving
          exact congrArg TaskRef.rx
            (Queue.State.updateCell_of_ne state.queue _ differs)
      | _ => exact invariant.of_same rfl (fun _ _ _ _ _ _ _ => rfl) rfl
  | call _ _ _ | ready _ _ | idlePoll _ | refuse _ _ | join _ _ | retry _
  | dropUnbatched _ _ | dropReceived _ | spin _ _ | dropReturn _ _ =>
      exact invariant.of_same rfl (fun _ _ _ _ _ _ _ => rfl) rfl
  | steal _ found draining =>
      obtain ⟨_, buffer, _⟩ :=
        (Queue.Move.frame (.steal found draining :
          Queue.Move N state.queue _ _) rfl)
      exact invariant.of_same rfl (fun _ _ _ _ _ _ _ => by rw [buffer]) rfl
  | dropBatched _ _ =>
      exact invariant.of_same rfl
        (fun _ _ _ cell _ _ _ =>
          EnqueueInvariant.updateCell_rx state.queue _
            (TaskRef.updateState_rx _) cell)
        rfl
  | spawn _ _ | assign _ _ _ _ _ | release _ _ _ _ | complete _ _ =>
      exact invariant.of_batch rfl trivial (fun _ => rfl)
        fun _ member => Or.inl member
  | invoke assigned =>
      exact invariant.of_batch rfl mapsBatches.2 (fun _ => rfl)
        fun _ member => Or.inl member
  | visitMap visiting =>
      exact invariant.visit taskCells resolve enqueue phase window visiting
        rfl rfl rfl
  | @visitDrop batch _ _ visiting | @visitWith batch _ _ _ visiting =>
      have valueAt := invariant.batches batch
      rw [visiting] at valueAt
      cases valueAt
  | resolve resolving moved =>
      exact invariant.resolveMove resolving moved

end AnswerInvariant

end StackQueue.TaskQueue
