import StackQueue.TaskAnswers

namespace StackQueue.TaskQueue

open Queue IntervalChain

/-!
# Each task is mapped once and answered

`AppliedInvariant` says which tasks of its range a batch has gone through:
those before the cells it still has to visit, each once and in order.  With
the values of `AnswerInvariant` this makes the answers of a run those of the
tasks.
-/

variable {Task Value : Type}

/-- The tasks accepted so far, in the order of their positions. -/
def State.tasks (state : State Task Value) : List Task :=
  state.enqueued.map Prod.snd

/-- The tasks that `op` was applied to on behalf of a batch, in order. -/
def State.appliedIn
    (state : State Task Value)
    (batch : Nat) :
    List (Option Task) :=
  (state.applied.filter fun entry => entry.1 = batch).map Prod.snd

/-- A batch has gone through its range up to the cells it has to visit. -/
def AppliedAt
    (tasks : List Task)
    (handle : Handle)
    (applied : List (Option Task)) :
    Batch Value → Prop
  | .unspawned | .pending => applied = []
  | .assigned todo | .visiting _ todo | .resolving _ todo _ _ _ =>
      applied =
        (slice tasks ⟨handle.first, handle.last - todo.length⟩).map some
  | .releasing | .finished =>
      applied = (slice tasks ⟨handle.first, handle.last⟩).map some

/-- The tasks that the batches have gone through. -/
structure AppliedInvariant (state : State Task Value) : Prop where
  batches :
    ∀ (batch : Nat) (handle : Handle),
      state.queue.handles[batch]? = some handle →
      AppliedAt state.tasks handle (state.appliedIn batch)
        (state.batches batch)
  known :
    ∀ entry ∈ state.applied, entry.1 < state.queue.handles.length

/-- The task at a position is that of the future at this position. -/
theorem EnqueueInvariant.task_of_enqueuer
    {width : PointerWidth}
    {N : BufferSize width}
    {task : Nat → Task}
    {state : State Task Value}
    (enqueue : EnqueueInvariant N task state)
    {position future : Nat}
    (atPosition : state.enqueuers[position]? = some future) :
    state.tasks[position]? = some (task future) := by
  rw [State.enqueuers, List.getElem?_map] at atPosition
  obtain ⟨entry, found, isFuture⟩ := Option.map_eq_some_iff.mp atPosition
  rw [State.tasks, List.getElem?_map, found, ← isFuture,
    ← enqueue.ownTasks entry (List.mem_of_getElem? found)]
  rfl

/-- Once a batch has its range, the range is bounded. -/
theorem BatchAt.notUnbounded
    {width : PointerWidth}
    {N : BufferSize width}
    {enqueuers : List Nat}
    {resolutions : Nat → Resolution}
    {handle : Handle}
    {batch : Batch Value}
    (batchAt : BatchAt N enqueuers resolutions handle batch)
    (spawned : batch ≠ .unspawned)
    (assigned : batch ≠ .pending) :
    handle.isUnbounded = false := by
  cases batch with
  | unspawned => exact (spawned rfl).elim
  | pending => exact (assigned rfl).elim
  | assigned todo | visiting method todo
  | resolving method todo cell value point =>
      exact batchAt.1.notUnbounded
  | releasing =>
      rcases batchAt with stage | ⟨left, stage⟩ <;>
        simp [Handle.isUnbounded, stage]
  | finished =>
      have stage : handle.stage = .released := batchAt
      simp [Handle.isUnbounded, stage]

/-- A batch does not depend on the tasks after its range. -/
theorem AppliedAt.append
    {tasks : List Task}
    {handle : Handle}
    {applied : List (Option Task)}
    {batch : Batch Value}
    (appliedAt : AppliedAt tasks handle applied batch)
    (newest : List Task)
    (within :
      batch ≠ .unspawned →
      batch ≠ .pending →
      handle.last ≤ tasks.length) :
    AppliedAt (tasks ++ newest) handle applied batch := by
  cases batch with
  | unspawned | pending =>
      exact appliedAt
  | assigned todo | visiting method todo
  | resolving method todo cell value point =>
      have upTo := within (by simp) (by simp)
      simp only [AppliedAt]
      rw [slice_append (Nat.le_trans (Nat.sub_le _ _) upTo)]
      exact appliedAt
  | releasing | finished =>
      simp only [AppliedAt]
      rw [slice_append (within (by simp) (by simp))]
      exact appliedAt

namespace AppliedInvariant

variable
    {width : PointerWidth}
    {program : Program Task Value}
    {N : BufferSize width}
    {task : Nat → Task}
    {state after : State Task Value}

theorem initial :
    AppliedInvariant (TaskQueue.initial task : State Task Value) := by
  constructor <;> simp [TaskQueue.initial, Queue.initial]

/-- A batch without a range has not begun. -/
theorem appliedIn_eq_nil
    (invariant : AppliedInvariant state)
    {batch : Nat}
    (outside : state.queue.handles.length ≤ batch) :
    state.appliedIn batch = [] := by
  rw [State.appliedIn, List.map_eq_nil_iff, List.filter_eq_nil_iff]
  intro entry member isBatch
  have below := invariant.known entry member
  rw [decide_eq_true_iff] at isBatch
  omega

/-- A step that leaves the batches and their ranges alone. -/
theorem of_same
    (invariant : AppliedInvariant state)
    (handles : after.queue.handles = state.queue.handles)
    (batches : after.batches = state.batches)
    (enqueued : after.enqueued = state.enqueued)
    (applied : after.applied = state.applied) :
    AppliedInvariant after where
  batches := by
    rw [handles, batches, State.tasks, enqueued]
    simp only [State.appliedIn, applied]
    exact invariant.batches
  known := by
    rw [handles, applied]
    exact invariant.known

/-- The `fetch_add` accepts a task after all ranges. -/
theorem add
    (invariant : AppliedInvariant state)
    (batchInvariant : BatchInvariant N state)
    (enqueue : EnqueueInvariant N task state)
    (phase : PhaseInvariant N state.queue)
    {entry : Nat × Task}
    (handles : after.queue.handles = state.queue.handles)
    (batches : after.batches = state.batches)
    (enqueued : after.enqueued = state.enqueued ++ [entry])
    (applied : after.applied = state.applied) :
    AppliedInvariant after := by
  have tasks : after.tasks = state.tasks ++ [entry.2] := by
    simp [State.tasks, enqueued]
  have length : state.tasks.length = state.queue.accepted := by
    rw [State.tasks, List.length_map, enqueue.count]
  constructor
  case batches =>
    intro batch handle found
    rw [handles] at found
    rw [batches, tasks]
    simp only [State.appliedIn, applied]
    refine (invariant.batches batch handle found).append _
      fun spawned assigned => ?_
    have bounded :=
      (batchInvariant.batches batch handle found).notUnbounded spawned
        assigned
    rw [length]
    exact (phase.bounded_positions (List.mem_of_getElem? found) bounded).2
  case known =>
    rw [handles, applied]
    exact invariant.known

/-- The owner creates a range. -/
theorem occupy
    (invariant : AppliedInvariant state)
    (batchInvariant : BatchInvariant N state)
    {created : Handle}
    (handles : after.queue.handles = state.queue.handles ++ [created])
    (batches : after.batches = state.batches)
    (enqueued : after.enqueued = state.enqueued)
    (applied : after.applied = state.applied) :
    AppliedInvariant after := by
  constructor
  case batches =>
    intro batch handle found
    rw [handles] at found
    rw [batches, State.tasks, enqueued]
    simp only [State.appliedIn, applied]
    rcases ListUpdate.getElem?_concat_cases found with
      earlier | ⟨isLast, _⟩
    · exact invariant.batches batch handle earlier
    · have outside := Nat.le_of_eq isLast.symm
      rw [batchInvariant.unspawned batch outside]
      exact invariant.appliedIn_eq_nil outside
  case known =>
    intro entry member
    rw [applied] at member
    rw [handles, List.length_append]
    exact Nat.lt_add_right _ (invariant.known entry member)

/-- A step of one batch, which may go through some tasks. -/
theorem of_batch
    (invariant : AppliedInvariant state)
    {batch : Nat}
    {old new : Handle}
    {next : Batch Value}
    {newest : List (Option Task)}
    (found : state.queue.handles[batch]? = some old)
    (handles :
      after.queue.handles = state.queue.handles.set batch new)
    (batches :
      after.batches = Function.update state.batches batch next)
    (enqueued : after.enqueued = state.enqueued)
    (applied :
      after.applied = state.applied ++ newest.map fun item => (batch, item))
    (appliedAt :
      AppliedAt state.tasks new (state.appliedIn batch ++ newest) next) :
    AppliedInvariant after := by
  obtain ⟨inBounds, _⟩ := List.getElem?_eq_some_iff.mp found
  have here : after.appliedIn batch = state.appliedIn batch ++ newest := by
    simp [State.appliedIn, applied, List.filter_append, List.filter_map,
      Function.comp_def]
  have elsewhere
      {other : Nat}
      (differs : other ≠ batch) :
      after.appliedIn other = state.appliedIn other := by
    simp [State.appliedIn, applied, List.filter_append, List.filter_map,
      Function.comp_def, Ne.symm differs]
  constructor
  case batches =>
    intro other handle foundAfter
    rw [handles] at foundAfter
    rw [batches, State.tasks, enqueued]
    rcases ListUpdate.getElem?_set_cases foundAfter with
      ⟨isHere, isNew⟩ | ⟨differs, before⟩
    · rw [isHere, Function.update_self, isNew, here]
      exact appliedAt
    · rw [Function.update_of_ne differs, elsewhere differs]
      exact invariant.batches other handle before
  case known =>
    intro entry member
    rw [handles, List.length_set]
    rw [applied] at member
    rcases List.mem_append.mp member with old | isNew
    · exact invariant.known entry old
    · obtain ⟨item, _, shape⟩ := List.mem_map.mp isNew
      rw [← shape]
      exact inBounds

/-- A step of one batch that goes through no task. -/
theorem of_quiet
    (invariant : AppliedInvariant state)
    {batch : Nat}
    {old new : Handle}
    {next : Batch Value}
    (found : state.queue.handles[batch]? = some old)
    (handles :
      after.queue.handles = state.queue.handles.set batch new)
    (batches :
      after.batches = Function.update state.batches batch next)
    (enqueued : after.enqueued = state.enqueued)
    (applied : after.applied = state.applied)
    (appliedAt :
      AppliedAt state.tasks new (state.appliedIn batch) next) :
    AppliedInvariant after := by
  have noneNewest :
      after.applied =
        state.applied ++
          ([] : List (Option Task)).map fun item => (batch, item) := by
    rw [applied, List.map_nil, List.append_nil]
  refine invariant.of_batch found handles batches enqueued noneNewest ?_
  rw [List.append_nil]
  exact appliedAt

/-- The owner's steps keep what the batches have gone through. -/
theorem ownerMove
    (invariant : AppliedInvariant state)
    (batchInvariant : BatchInvariant N state)
    (enqueue : EnqueueInvariant N task state)
    (phase : PhaseInvariant N state.queue)
    {queue : Queue.State (TaskRef Task) Nat}
    (moved : OwnerMove N state.queue queue) :
    AppliedInvariant { state.progress with queue := queue } := by
  have callAt := enqueue.callAt
  cases moved with
  | add at_ =>
      rw [at_] at callAt
      obtain ⟨call, _, called, _⟩ := callAt
      have enqueued :
          state.progress.enqueued =
            state.enqueued ++ [(call.future, call.task)] := by
        simp [State.progress, at_, called]
      exact invariant.add batchInvariant enqueue phase rfl rfl enqueued rfl
  | occupy at_ =>
      exact invariant.occupy batchInvariant rfl rfl
        (by simp [State.progress, at_]) rfl
  | write at_ | enterAtBoundary at_ _ | enterInside at_ _
  | cachedFree at_ _ | cachedBusy at_ _ | loadedFree at_ _
  | loadedBusy at_ _ | replaceJoined at_ _ | replaceOpening at_ _ =>
      exact invariant.of_same rfl rfl (by simp [State.progress, at_]) rfl

/-- A range that was opened is spawned as a batch. -/
theorem spawn
    (invariant : AppliedInvariant state)
    (batchInvariant : BatchInvariant N state)
    {batch : Nat}
    (at_ : state.queue.owner = .returning (.opened batch))
    (exists_ : batch < state.queue.handles.length)
    (handles : after.queue.handles = state.queue.handles)
    (batches :
      after.batches = Function.update state.batches batch .pending)
    (enqueued : after.enqueued = state.enqueued)
    (applied : after.applied = state.applied) :
    AppliedInvariant after := by
  have found := List.getElem?_eq_getElem exists_
  have appliedAt := invariant.batches batch _ found
  rw [batchInvariant.spawning batch at_] at appliedAt
  have sameHandles := ListUpdate.set_of_getElem? found
  exact invariant.of_quiet found (handles.trans sameHandles.symm) batches
    enqueued applied appliedAt

/-- A batch that is assigned has all cells of its range to visit. -/
theorem assign
    (invariant : AppliedInvariant state)
    {batch : Nat}
    {old new : Handle}
    {range : CounterRange}
    (pending : state.batches batch = .pending)
    (found : state.queue.handles[batch]? = some old)
    (foundAfter :
      (Queue.setBounds width state.queue batch old).handles[batch]? =
        some new)
    (bounded : new.stage = .bounded range)
    (phaseAfter :
      PhaseInvariant N (Queue.setBounds width state.queue batch old))
    (windowAfter :
      (Queue.setBounds width state.queue batch old).LiveInWindow N) :
    AppliedInvariant
      { state.setBatch batch (.assigned (taskIndices N range)) with
        queue := Queue.setBounds width state.queue batch old } := by
  have member := List.mem_of_getElem? foundAfter
  obtain ⟨_, handles⟩ := Queue.setBounds_handles found foundAfter
  have nonempty :=
    (phaseAfter.bounded_positions member
      (IsBounded.notUnbounded ⟨range, bounded⟩)).1
  have notBegun := invariant.batches batch old found
  rw [pending] at notBegun
  refine invariant.of_quiet found handles rfl rfl rfl ?_
  rw [windowAfter.taskIndices_of_live phaseAfter member bounded]
  simp only [AppliedAt]
  rw [CircularBuffer.length_window,
    Nat.sub_sub_self (Nat.le_of_lt nonempty)]
  have nothing : slice state.tasks ⟨new.first, new.first⟩ = [] := by
    simp [slice]
  rw [nothing]
  exact notBegun

/-- `map` applies `op` to the task at the next position of the range. -/
theorem visit
    (invariant : AppliedInvariant state)
    (taskCells : TaskCells N task state)
    (batchInvariant : BatchInvariant N state)
    (enqueue : EnqueueInvariant N task state)
    (phase : PhaseInvariant N state.queue)
    (window : state.queue.LiveInWindow N)
    {batch cell : Nat}
    {todo : List Nat}
    {value : Option Value}
    (visiting : state.batches batch = .visiting .map (cell :: todo))
    (handles : after.queue.handles = state.queue.handles)
    (batches :
      after.batches =
        Function.update state.batches batch
          (.resolving .map todo cell value .fetchOr))
    (enqueued : after.enqueued = state.enqueued)
    (applied :
      after.applied =
        state.applied ++ [(batch, (state.queue.buffer cell).task)]) :
    AppliedInvariant after := by
  obtain ⟨handle, position, future, current, untouched, rest, _⟩ :=
    batchInvariant.visiting_current enqueue phase window visiting
  have holds : (state.queue.buffer cell).task = some (task future) := by
    rw [current.isCell]
    exact taskCells.cells position future current.enqueued
      current.inWindow untouched
  have left : todo.length = handle.last - (position + 1) := by
    rw [rest, CircularBuffer.length_window]
  have appliedAt := invariant.batches batch handle current.found
  rw [visiting] at appliedAt
  have sameHandles :
      after.queue.handles = state.queue.handles.set batch handle := by
    rw [handles]
    exact (ListUpdate.set_of_getElem? current.found).symm
  have newest :
      after.applied =
        state.applied ++
          [some (task future)].map fun item => (batch, item) := by
    rw [applied, holds, List.map_singleton]
  refine invariant.of_batch current.found sameHandles batches enqueued
    newest ?_
  have below := current.below
  have before : handle.last - (todo.length + 1) = position := by omega
  have next : handle.last - todo.length = position + 1 := by omega
  simp only [AppliedAt, List.length_cons] at appliedAt ⊢
  rw [before] at appliedAt
  rw [next, slice_concat current.begun
    (enqueue.task_of_enqueuer current.enqueued), List.map_append,
    ← appliedAt]
  rfl

/-- Every step of a run that consumes its batches by `map`. -/
theorem move
    (invariant : AppliedInvariant state)
    (answers : AnswerInvariant program task state)
    (taskCells : TaskCells N task state)
    (batchInvariant : BatchInvariant N state)
    (enqueue : EnqueueInvariant N task state)
    (phase : PhaseInvariant N state.queue)
    (window : state.queue.LiveInWindow N)
    {action : Action Value}
    (moved : Move program N state action after)
    (phaseAfter : PhaseInvariant N after.queue)
    (windowAfter : after.queue.LiveInWindow N) :
    AppliedInvariant after := by
  cases moved with
  | owner moved =>
      exact invariant.ownerMove batchInvariant enqueue phase moved
  | spawn _ at_ =>
      have owner := phase.owner
      rw [at_] at owner
      exact invariant.spawn batchInvariant at_ (owner.2.2 _ rfl).2 rfl rfl
        rfl rfl
  | assign pending found _ foundAfter bounded =>
      exact invariant.assign pending found foundAfter bounded phaseAfter
        windowAfter
  | @invoke batch method todo assigned =>
      have spawned : state.batches batch ≠ .unspawned := by
        simp [assigned]
      obtain ⟨handle, found⟩ := batchInvariant.exists_handle spawned
      have appliedAt := invariant.batches batch handle found
      rw [assigned] at appliedAt
      exact invariant.of_quiet found
        (ListUpdate.set_of_getElem? found).symm rfl rfl rfl appliedAt
  | visitMap visiting =>
      exact invariant.visit taskCells batchInvariant enqueue phase window
        visiting rfl rfl rfl rfl
  | @visitDrop batch _ _ visiting | @visitWith batch _ _ _ visiting =>
      have valueAt := answers.batches batch
      rw [visiting] at valueAt
      cases valueAt
  | @resolve batch cell method todo value point _ resolving moved =>
      have spawned : state.batches batch ≠ .unspawned := by
        simp [resolving]
      obtain ⟨handle, found⟩ := batchInvariant.exists_handle spawned
      have appliedAt := invariant.batches batch handle found
      rw [resolving] at appliedAt
      have sameHandles := (ListUpdate.set_of_getElem? found).symm
      cases moved with
      | setting _ | discard _ | write _ | wake _ | fetchXor =>
          exact invariant.of_quiet found sameHandles rfl rfl rfl appliedAt
  | @release batch method todo handle range visiting done found bounded =>
      obtain ⟨stage, handles, _⟩ :=
        deoccupyRegion_stage N state.queue batch handle range
      have valueAt := answers.batches batch
      rw [visiting] at valueAt
      have isMap : method = .map := valueAt
      rw [isMap, Method.isDone, List.isEmpty_iff] at done
      have appliedAt := invariant.batches batch handle found
      rw [visiting, done] at appliedAt
      exact invariant.of_quiet found handles rfl rfl rfl appliedAt
  | steal releasing found draining =>
      obtain ⟨stage, handles, _⟩ := steal_handles state.queue _ _ _
      have appliedAt := invariant.batches _ _ found
      refine invariant.of_quiet found handles ?_ rfl rfl appliedAt
      exact (Function.update_eq_self _ _).symm
  | @complete batch releasing _ =>
      have spawned : state.batches batch ≠ .unspawned := by
        simp [releasing]
      obtain ⟨handle, found⟩ := batchInvariant.exists_handle spawned
      have appliedAt := invariant.batches batch handle found
      rw [releasing] at appliedAt
      exact invariant.of_quiet found
        (ListUpdate.set_of_getElem? found).symm rfl rfl rfl appliedAt
  | call _ _ _ | ready _ _ | idlePoll _ | refuse _ _ | join _ _ | retry _
  | dropBatched _ _ | dropUnbatched _ _ | dropReceived _ | spin _ _
  | dropReturn _ _ =>
      exact invariant.of_same rfl rfl rfl rfl

/-- A batch goes through a prefix of its range. -/
theorem isPrefix
    (invariant : AppliedInvariant state)
    (batchInvariant : BatchInvariant N state)
    {batch : Nat}
    {interval : Interval}
    (isRange : state.queue.ranges[batch]? = some interval) :
    state.appliedIn batch <+: (slice state.tasks interval).map some := by
  by_cases known : batch < state.queue.handles.length
  · have found := List.getElem?_eq_getElem known
    have appliedAt := invariant.batches batch _ found
    have batchAt := batchInvariant.batches batch _ found
    rw [PhaseInvariant.ranges_getElem? found] at isRange
    cases isRange
    cases at_ : state.batches batch with
    | unspawned | pending =>
        rw [at_] at appliedAt
        rw [appliedAt]
        exact List.nil_prefix
    | assigned todo | visiting method todo
    | resolving method todo cell value point =>
        rw [at_] at appliedAt batchAt
        rw [appliedAt, Handle.span_of_bounded batchAt.1.notUnbounded]
        exact (slice_prefix_of_le state.tasks (Nat.sub_le _ _)).map some
    | releasing | finished =>
        rw [at_] at appliedAt batchAt
        rw [appliedAt, Handle.span_of_bounded
          (batchAt.notUnbounded (by simp) (by simp))]
  · rw [invariant.appliedIn_eq_nil (Nat.le_of_not_lt known)]
    exact List.nil_prefix

/-- A batch that releases its range has gone through all of it. -/
theorem isComplete
    (invariant : AppliedInvariant state)
    (batchInvariant : BatchInvariant N state)
    {batch : Nat}
    {interval : Interval}
    (isRange : state.queue.ranges[batch]? = some interval)
    (released :
      state.batches batch = .releasing ∨
        state.batches batch = .finished) :
    state.appliedIn batch = (slice state.tasks interval).map some := by
  have spawned : state.batches batch ≠ .unspawned := by
    rcases released with at_ | at_ <;> simp [at_]
  obtain ⟨handle, found⟩ := batchInvariant.exists_handle spawned
  have appliedAt := invariant.batches batch handle found
  have batchAt := batchInvariant.batches batch handle found
  rw [PhaseInvariant.ranges_getElem? found] at isRange
  cases isRange
  rcases released with at_ | at_ <;>
    rw [at_] at appliedAt batchAt <;>
    rw [appliedAt, Handle.span_of_bounded
      (batchAt.notUnbounded (by simp) (by simp))]

end AppliedInvariant

/-! ## Answers along a run -/

section Runs

variable
    {width : PointerWidth}
    {program : Program Task Value}
    {N : BufferSize width}
    {task : Nat → Task}
    {state : State Task Value}

/-- Untouched tasks are found in their cells. -/
theorem Reachable.taskCells
    {allowed : State Task Value → Action Value → Prop}
    (reachable :
      Reachable program N (Disciplined N allowed) task state) :
    TaskCells N task state :=
  TransitionSystem.Reachable.invariant TaskCells.initial
    (fun earlier invariant _ taken =>
      invariant.move (Reachable.resolveInvariant_of_disciplined earlier)
        (Reachable.enqueueInvariant earlier)
        (Queue.Reachable.phaseInvariant (Reachable.queue earlier))
        (Reachable.liveInWindow_of_disciplined earlier)
        (step_move taken))
    reachable

/-- Batches carry `op` of the tasks that they resolve. -/
theorem Reachable.answerInvariant
    (reachable :
      Reachable program N (Disciplined N MapsBatches) task state) :
    AnswerInvariant program task state :=
  TransitionSystem.Reachable.invariant AnswerInvariant.initial
    (fun earlier invariant permitted taken =>
      invariant.move (Reachable.taskCells earlier)
        (Reachable.resolveInvariant_of_disciplined earlier)
        (Reachable.enqueueInvariant earlier)
        (Queue.Reachable.phaseInvariant (Reachable.queue earlier))
        (Reachable.liveInWindow_of_disciplined earlier)
        permitted.2.1 permitted.1 (step_move taken))
    reachable

/-- Batches have gone through their ranges up to where they stand. -/
theorem Reachable.appliedInvariant
    (reachable :
      Reachable program N (Disciplined N MapsBatches) task state) :
    AppliedInvariant state := by
  refine TransitionSystem.Reachable.invariant AppliedInvariant.initial ?_
    reachable
  intro before after action earlier invariant permitted taken
  have later : Reachable program N (Disciplined N MapsBatches) task after :=
    .next earlier permitted taken
  exact invariant.move (Reachable.answerInvariant earlier)
    (Reachable.taskCells earlier)
    (Reachable.resolveInvariant_of_disciplined earlier).batches
    (Reachable.enqueueInvariant earlier)
    (Queue.Reachable.phaseInvariant (Reachable.queue earlier))
    (Reachable.liveInWindow_of_disciplined earlier) (step_move taken)
    (Queue.Reachable.phaseInvariant (Reachable.queue later))
    (Reachable.liveInWindow_of_disciplined later)

end Runs

/-- Tasks are batched, mapped and answered as their futures ask for. -/
structure Answered
    {width : PointerWidth}
    (program : Program Task Value)
    (N : BufferSize width)
    (task : Nat → Task)
    (state : State Task Value) : Prop where
  /-- The accepted tasks are those of different futures. -/
  ownTasks :
    state.tasks = state.enqueuers.map task ∧ state.enqueuers.Nodup
  /-- Every accepted task is in exactly one batch. -/
  exactlyOneBatch :
    ∀ position,
      position < state.tasks.length →
      ∃! batch : Nat,
        ∃ interval : Interval,
          state.queue.ranges[batch]? = some interval ∧
            interval.Covers position
  /-- For a batch `op` is applied to tasks of the batch, in their order. -/
  mapping :
    ∀ (batch : Nat) (interval : Interval),
      state.queue.ranges[batch]? = some interval →
      state.appliedIn batch <+: (slice state.tasks interval).map some
  /-- Before `map` returns it was applied to all of them. -/
  mapped :
    ∀ (batch : Nat) (interval : Interval),
      state.queue.ranges[batch]? = some interval →
      state.batches batch = .releasing ∨
        state.batches batch = .finished →
      state.appliedIn batch = (slice state.tasks interval).map some
  /-- It was applied for batches only. -/
  applied :
    ∀ entry ∈ state.applied, entry.1 < state.queue.ranges.length
  /-- `Ready(v)` comes with `op` of the future's own task. -/
  returned :
    ∀ entry ∈ state.returned,
      entry.2 = some (program.op (task entry.1))

/--
Each future gets the answer to its own task, in every run in which futures
keep to their own wakers and batches are consumed by `map`.
-/
theorem answers_own_tasks
    (program : Program Task Value)
    (N : BufferSize .w64)
    (small : N.size ≤ 1024)
    (task : Nat → Task)
    (state : State Task Value)
    (reachable : Reachable program N MapsBatches task state) :
    Answered program N task state := by
  have disciplined :=
    Reachable.disciplined small (fun _ _ permitted => permitted.1) reachable
  have enqueue := Reachable.enqueueInvariant reachable
  have phase := Queue.Reachable.phaseInvariant (Reachable.queue reachable)
  have batches :=
    (Reachable.resolveInvariant_of_disciplined disciplined).batches
  have values : ValueInvariant state :=
    Reachable.valueInvariant (fun _ _ permitted => permitted.2.1)
      (fun _ _ permitted => permitted.2.2) disciplined
  have answers := Reachable.answerInvariant disciplined
  have applied := Reachable.appliedInvariant disciplined
  constructor
  case ownTasks =>
    refine ⟨?_, enqueue.distinct⟩
    rw [State.tasks, State.enqueuers, List.map_map]
    exact List.map_congr_left enqueue.ownTasks
  case exactlyOneBatch =>
    intro position isTask
    rw [State.tasks, List.length_map, enqueue.count] at isTask
    exact phase.partition.exactlyOneRange position isTask
  case mapping =>
    exact fun _ _ isRange => applied.isPrefix batches isRange
  case mapped =>
    exact fun _ _ isRange => applied.isComplete batches isRange
  case applied =>
    intro entry member
    have known := applied.known entry member
    simp only [Queue.State.ranges, Queue.State.spans, List.length_append,
      List.length_map]
    exact Nat.lt_add_right _ known
  case returned =>
    intro entry member
    have isStored := values.returned entry member
    exact answers.passed entry (values.stored entry isStored).1

/--
Two futures share a batch; the first is polled between its wake-up and the
visit to the cell of the second.
-/
def sharedBatchRun : List (Action Nat) :=
  enqueueFirst ++
    [.poll 1 1, .owner, .owner, .owner, .owner, .finish,
      .assign 0, .invoke 0 .map,
      .visit 0, .resolve 0, .resolve 0, .resolve 0, .poll 0 0, .resolve 0,
      .visit 0, .resolve 0, .resolve 0, .resolve 0, .resolve 0,
      .release 0, .steal 0 false, .complete 0, .poll 1 1]

/-- Both futures of the batch are answered. -/
theorem answers_own_tasks_sharedBatchRun :
    ∃ state : State Nat Nat,
      Reachable increment smallestBuffer MapsBatches id state ∧
        state.returned = [(0, some 1), (1, some 2)] ∧
        state.batches 0 = .finished ∧
        Answered increment smallestBuffer id state := by
  have performed :
      ((TransitionSystem.executeWhere (step increment smallestBuffer)
          MapsBatches (initial id) sharedBatchRun).map fun state =>
        (state.returned, state.batches 0)) =
        some ([(0, some 1), (1, some 2)], .finished) := by
    decide +kernel
  obtain ⟨state, reached, shape⟩ := Option.map_eq_some_iff.mp performed
  simp only [Prod.mk.injEq] at shape
  have reachable :
      Reachable increment smallestBuffer MapsBatches id state :=
    TransitionSystem.Reachable.start.executeWhere reached
  exact ⟨state, reachable, shape.1, shape.2,
    answers_own_tasks increment smallestBuffer (by decide) id state
      reachable⟩

end StackQueue.TaskQueue
