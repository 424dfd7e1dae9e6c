import StackQueue.Settling
import StackQueue.TaskApplied

namespace StackQueue.TaskQueue

open Queue TransitionSystem

/-!
# The work that is left

Once the polls and drops have been made, what remains is up to the code
itself: the accesses of the call in progress, the batches that it has handed
out, and the drops that negotiate with a resolver.  `State.work` bounds the
steps that this can take.  Every internal step uses up some of it, in whatever
order the threads take their turns.
-/

variable {Task Value : Type}

/--
A step that goes on with what was begun: no poll, no drop and no answer
`Retry`.  A turn of a drop's loop counts if it gets the drop further, that is
unless the drop sees `SETTING_VALUE` once more.
-/
def IsInternal (state : State Task Value) : Action Value → Prop
  | .poll _ _ | .drop _ => False
  | .steal _ retry => retry = false
  | .spin future =>
      ∀ receiver seen,
        state.futures future = .dropping receiver seen →
        isSetting seen = true →
        isSetting (state.queue.buffer receiver.state).state = false
  | .owner | .finish | .assign _ | .invoke _ _ | .visit _
  | .visitWith _ _ | .resolve _ | .release _ | .complete _ => True

/-! ## Measures -/

/-- The accesses left to `resolve_unchecked`. -/
def ResolvePoint.work : ResolvePoint → Nat
  | .fetchOr => 4
  | .write => 3
  | .wake => 2
  | .fetchXor => 1

/-- The most that a range takes from its opening on. -/
def rangeWork {width : PointerWidth} (N : BufferSize width) : Nat :=
  5 * N.size + regionSize width N.size + 5

/-- What is left to a batch, given where its range stands. -/
def Batch.work
    {width : PointerWidth}
    (N : BufferSize width)
    (stage : Stage) :
    Batch Value → Nat
  | .unspawned | .pending =>
      rangeWork N
  | .assigned todo =>
      5 * todo.length + regionSize width N.size + 4
  | .visiting _ todo =>
      5 * todo.length + regionSize width N.size + 3
  | .resolving _ todo _ _ point =>
      5 * todo.length + point.work + regionSize width N.size + 3
  | .releasing =>
      match stage with
      | .draining batchLimit => batchLimit + 2
      | .unbounded | .bounded _ | .released => 1
  | .finished =>
      0

/-- What is left to the call in progress, with the range it may open. -/
def ownerWork {Cell : Type} (range : Nat) : Owner Cell → Nat
  | .idle => 0
  | .returning _ => 1
  | .occupying _ _ => range + 2
  | .replacing _ _ => range + 3
  | .adding _ => range + 4
  | .writing _ _ => range + 5
  | .loading _ _ => range + 6
  | .checking _ _ => range + 7
  | .entered _ => range + 8

/-- What is left to the drop of a future. -/
def Future.work : Future Task Value → Nat
  | .dropping _ seen => if isSetting seen then 2 else 1
  | .unbatched _ | .batched _ | .received | .dropped => 0

namespace State

/-- What is left to one batch. -/
def batchWork
    {width : PointerWidth}
    (N : BufferSize width)
    (state : State Task Value)
    (batch : Nat) :
    Nat :=
  match state.queue.handles[batch]? with
  | some handle => (state.batches batch).work N handle.stage
  | none => 0

/-- What is left to the batches. -/
def batchesWork
    {width : PointerWidth}
    (N : BufferSize width)
    (state : State Task Value) :
    Nat :=
  ∑ batch ∈ Finset.range state.queue.handles.length,
    state.batchWork N batch

/-- What is left to the drops of enqueued futures. -/
def dropsWork (state : State Task Value) : Nat :=
  ∑ future ∈ state.enqueuers.toFinset, (state.futures future).work

/-- What is left to the call in progress, the batches and the drops. -/
def work
    {width : PointerWidth}
    (N : BufferSize width)
    (state : State Task Value) :
    Nat :=
  ownerWork (rangeWork N) state.queue.owner + state.batchesWork N +
    state.dropsWork

end State

theorem Future.work_store
    (value : Option Value)
    (future : Future Task Value) :
    (future.store value).work = future.work := by
  cases future <;> rfl

/-- The owner's accesses, with the range that the last of them opens. -/
theorem ownerMove_work
    {width : PointerWidth}
    {N : BufferSize width}
    {Cell Waker : Type}
    {state after : Queue.State Cell Waker}
    (range : Nat)
    (moved : OwnerMove N state after) :
    (after.handles = state.handles ∧
        ownerWork range after.owner < ownerWork range state.owner) ∨
      ∃ opened,
        after.handles = state.handles ++ [opened] ∧
          ownerWork range after.owner + range <
            ownerWork range state.owner := by
  cases moved with
  | occupy at_ =>
      refine Or.inr ⟨_, rfl, ?_⟩
      rw [at_]
      simp only [ownerWork]
      omega
  | enterAtBoundary at_ _ | enterInside at_ _ | cachedFree at_ _
  | cachedBusy at_ _ | loadedFree at_ _ | loadedBusy at_ _ | write at_
  | add at_ | replaceJoined at_ _ | replaceOpening at_ _ =>
      refine Or.inl ⟨rfl, ?_⟩
      rw [at_]
      simp only [ownerWork]
      omega

/-! ## One component at a time -/

section Components

variable
    {width : PointerWidth}
    {program : Program Task Value}
    {N : BufferSize width}
    {task : Nat → Task}
    {state after : State Task Value}

theorem State.batchWork_of_found
    {batch : Nat}
    {handle : Handle}
    (found : state.queue.handles[batch]? = some handle) :
    state.batchWork N batch =
      (state.batches batch).work N handle.stage := by
  rw [State.batchWork, found]

/-- The batches' work depends on their states and the ranges' stages. -/
theorem State.batchesWork_congr
    (handles : after.queue.handles = state.queue.handles)
    (batches : after.batches = state.batches) :
    after.batchesWork N = state.batchesWork N := by
  simp only [State.batchesWork, State.batchWork, handles, batches]

/-- A step of one batch that shortens its own work. -/
theorem State.batchesWork_lt
    {batch : Nat}
    {old new : Handle}
    {next : Batch Value}
    (found : state.queue.handles[batch]? = some old)
    (handles : after.queue.handles = state.queue.handles.set batch new)
    (batches : after.batches = Function.update state.batches batch next)
    (less :
      next.work N new.stage < (state.batches batch).work N old.stage) :
    after.batchesWork N < state.batchesWork N := by
  obtain ⟨inBounds, _⟩ := List.getElem?_eq_some_iff.mp found
  rw [State.batchesWork, State.batchesWork, handles, List.length_set]
  refine sum_lt_of_term (Finset.mem_range.mpr inBounds) ?_ ?_
  · have foundAfter : after.queue.handles[batch]? = some new := by
      rw [handles, List.getElem?_set_self inBounds]
    rw [State.batchWork_of_found found, State.batchWork_of_found foundAfter,
      batches, Function.update_self]
    exact less
  · intro other _ differs
    simp only [State.batchWork, handles, batches,
      List.getElem?_set_ne differs.symm, Function.update_of_ne differs]

/-- So does one that leaves the ranges alone. -/
theorem State.batchesWork_lt_of_same
    {batch : Nat}
    {handle : Handle}
    {next : Batch Value}
    (found : state.queue.handles[batch]? = some handle)
    (handles : after.queue.handles = state.queue.handles)
    (batches : after.batches = Function.update state.batches batch next)
    (less :
      next.work N handle.stage <
        (state.batches batch).work N handle.stage) :
    after.batchesWork N < state.batchesWork N := by
  refine State.batchesWork_lt found ?_ batches less
  obtain ⟨inBounds, isHandle⟩ := List.getElem?_eq_some_iff.mp found
  rw [handles, ← isHandle, List.set_getElem_self]

/-- The drops' work depends on the futures that are enqueued. -/
theorem State.dropsWork_congr
    (enqueued : after.enqueued = state.enqueued)
    (futures :
      ∀ future ∈ state.enqueuers,
        (after.futures future).work = (state.futures future).work) :
    after.dropsWork = state.dropsWork := by
  rw [State.dropsWork, State.dropsWork, State.enqueuers_congr enqueued]
  apply Finset.sum_congr rfl
  intro future member
  exact futures future (List.mem_toFinset.mp member)

/-- It is the same for the same futures. -/
theorem State.dropsWork_of_same
    (enqueued : after.enqueued = state.enqueued)
    (futures : after.futures = state.futures) :
    after.dropsWork = state.dropsWork := by
  apply State.dropsWork_congr enqueued
  intro future _
  rw [futures]

/-- A future within its drop has been enqueued. -/
theorem EnqueueInvariant.mem_of_dropping
    (enqueue : EnqueueInvariant N task state)
    {future seen : Nat}
    {receiver : Receiver Value}
    (holds : state.futures future = .dropping receiver seen) :
    future ∈ state.enqueuers := by
  rcases enqueue.receivers future receiver
      (Future.receiver?_of_dropping holds) with
    ⟨position, atPosition, _⟩ | ⟨isPolling, at_⟩
  · exact List.mem_of_getElem? atPosition
  · have callAt := enqueue.callAt
    rw [at_] at callAt
    obtain ⟨call, other, called, batched, _⟩ := callAt
    have same : call.future = future := by
      simpa [State.isPolling, called] using isPolling
    rw [same, holds] at batched
    cases batched

end Components

/-! ## Every internal move uses up work -/

section Moves

variable
    {width : PointerWidth}
    {program : Program Task Value}
    {N : BufferSize width}
    {task : Nat → Task}
    {state after : State Task Value}

/-- A step of one batch that leaves the owner and the drops alone. -/
theorem work_lt_of_batch
    (owner : after.queue.owner = state.queue.owner)
    (batches : after.batchesWork N < state.batchesWork N)
    (drops : after.dropsWork = state.dropsWork) :
    after.work N < state.work N := by
  rw [State.work, State.work, owner, drops]
  omega

/-- The call in progress begins no drop. -/
theorem EnqueueInvariant.dropsWork_progress
    (enqueue : EnqueueInvariant N task state)
    (queue : Queue.State (TaskRef Task) Nat) :
    ({ state.progress with queue := queue } :
        State Task Value).dropsWork = state.dropsWork := by
  have callAt := enqueue.callAt
  cases at_ : state.queue.owner with
  | writing write index =>
      rw [at_] at callAt
      obtain ⟨call, called, _, holds⟩ := callAt
      have fresh := (enqueue.unbatched _ _ holds).2
      apply State.dropsWork_congr
      · simp [State.progress, at_]
      · intro future member
        have differs : future ≠ call.future := by
          rintro rfl
          exact fresh member
        simp [State.progress, at_, called, Function.update_of_ne differs]
  | adding index =>
      rw [at_] at callAt
      obtain ⟨call, receiver, called, holds, _, _, _, fresh⟩ := callAt
      have enqueued :
          ({ state.progress with queue := queue } :
              State Task Value).enqueued =
            state.enqueued ++ [(call.future, call.task)] := by
        simp [State.progress, at_, called]
      have futures : state.progress.futures = state.futures := by
        simp [State.progress, at_]
      rw [State.dropsWork, State.dropsWork,
        State.enqueuers_concat enqueued, futures,
        List.toFinset_append, List.toFinset_cons, List.toFinset_nil,
        insert_empty_eq, Finset.sum_union, Finset.sum_singleton, holds]
      · rfl
      · simpa using fresh
  | idle | entered write | checking write index | loading write index
  | replacing index baseSlot | occupying index baseSlot
  | returning admission =>
      apply State.dropsWork_congr
      · simp [State.progress, at_]
      · simp [State.progress, at_]

/-- An access of the owner uses up its work, or turns it into a range's. -/
theorem BatchInvariant.work_lt_owner
    (invariant : BatchInvariant N state)
    (enqueue : EnqueueInvariant N task state)
    {queue : Queue.State (TaskRef Task) Nat}
    (moved : OwnerMove N state.queue queue) :
    ({ state.progress with queue := queue } : State Task Value).work N <
      state.work N := by
  have drops := enqueue.dropsWork_progress queue
  rcases ownerMove_work (rangeWork N) moved with
    ⟨handles, less⟩ | ⟨opened, handles, less⟩
  · have batches :
        ({ state.progress with queue := queue } :
            State Task Value).batchesWork N = state.batchesWork N :=
      State.batchesWork_congr handles rfl
    rw [State.work, State.work, drops, batches]
    simp only
    omega
  · have batches :
        ({ state.progress with queue := queue } :
            State Task Value).batchesWork N =
          state.batchesWork N + rangeWork N := by
      rw [State.batchesWork, State.batchesWork]
      simp only [handles, List.length_append, List.length_singleton]
      rw [Finset.sum_range_succ]
      congr 1
      · apply Finset.sum_congr rfl
        intro batch member
        have inBounds := Finset.mem_range.mp member
        simp only [State.batchWork, handles,
          List.getElem?_append_left inBounds]
        rfl
      · have unspawned :
            state.progress.batches state.queue.handles.length =
              .unspawned :=
          invariant.unspawned _ (Nat.le_refl _)
        simp only [State.batchWork, handles, List.getElem?_concat_length,
          unspawned]
        rfl
    rw [State.work, State.work, drops, batches]
    simp only
    omega

/-- An access of `resolve_unchecked` brings its batch on. -/
theorem BatchInvariant.work_lt_resolve
    (invariant : BatchInvariant N state)
    {batch cell : Nat}
    {method : Method}
    {todo : List Nat}
    {value : Option Value}
    {point : ResolvePoint}
    (resolving :
      state.batches batch = .resolving method todo cell value point)
    (moved :
      ResolveMove state batch method todo cell value point after) :
    after.work N < state.work N := by
  have spawned : state.batches batch ≠ .unspawned := by
    simp [resolving]
  obtain ⟨handle, found⟩ := invariant.exists_handle spawned
  cases moved with
  | setting _ | discard _ | wake _ | fetchXor =>
      apply work_lt_of_batch
      · rfl
      · refine State.batchesWork_lt_of_same found rfl rfl ?_
        rw [resolving]
        simp only [Batch.work, ResolvePoint.work]
        omega
      · exact State.dropsWork_of_same rfl rfl
  | @write rx pointer =>
      apply work_lt_of_batch
      · rfl
      · refine State.batchesWork_lt_of_same found rfl rfl ?_
        rw [resolving]
        simp only [Batch.work, ResolvePoint.work]
        omega
      · refine State.dropsWork_congr rfl fun future _ => ?_
        by_cases same : future = rx
        · subst same
          simp [State.setBatch, State.setFuture, State.mark,
            Future.work_store]
        · simp [State.setBatch, State.setFuture, State.mark,
            Function.update_of_ne same]

/-- A turn of a drop's loop that gets the drop further. -/
theorem EnqueueInvariant.work_lt_spin
    (enqueue : EnqueueInvariant N task state)
    {future seen : Nat}
    {receiver : Receiver Value}
    {next : Future Task Value}
    (holds : state.futures future = .dropping receiver seen)
    (queue : after.queue = state.queue)
    (batches : after.batches = state.batches)
    (enqueued : after.enqueued = state.enqueued)
    (futures : after.futures = Function.update state.futures future next)
    (less : next.work < (state.futures future).work) :
    after.work N < state.work N := by
  have drops : after.dropsWork < state.dropsWork := by
    rw [State.dropsWork, State.dropsWork, State.enqueuers_congr enqueued]
    apply sum_lt_of_term
      (List.mem_toFinset.mpr (enqueue.mem_of_dropping holds))
    · rw [futures, Function.update_self]
      exact less
    · intro other _ differs
      rw [futures, Function.update_of_ne differs]
  have sameBatches : after.batchesWork N = state.batchesWork N :=
    State.batchesWork_congr (congrArg Queue.State.handles queue) batches
  rw [State.work, State.work, queue, sameBatches]
  omega

/-- A step of one batch, within its queue's step for the same range. -/
theorem BatchInvariant.work_lt_batch
    (invariant : BatchInvariant N state)
    {batch : Nat}
    {next : Batch Value}
    (spawned : state.batches batch ≠ .unspawned)
    (owner : after.queue.owner = state.queue.owner)
    (handles : after.queue.handles = state.queue.handles)
    (batches : after.batches = Function.update state.batches batch next)
    (less :
      ∀ stage,
        next.work N stage < (state.batches batch).work N stage)
    (enqueued : after.enqueued = state.enqueued)
    (futures : after.futures = state.futures) :
    after.work N < state.work N := by
  obtain ⟨handle, found⟩ := invariant.exists_handle spawned
  apply work_lt_of_batch owner
  · exact
      State.batchesWork_lt_of_same found handles batches
        (less handle.stage)
  · exact State.dropsWork_of_same enqueued futures

/-- A step of one batch that takes its range to another stage. -/
theorem work_lt_of_stage
    {batch : Nat}
    {old : Handle}
    {stage : Stage}
    {next : Batch Value}
    (found : state.queue.handles[batch]? = some old)
    (owner : after.queue.owner = state.queue.owner)
    (handles :
      after.queue.handles =
        state.queue.handles.set batch { old with stage := stage })
    (batches : after.batches = Function.update state.batches batch next)
    (less : next.work N stage < (state.batches batch).work N old.stage)
    (enqueued : after.enqueued = state.enqueued)
    (futures : after.futures = state.futures) :
    after.work N < state.work N := by
  apply work_lt_of_batch owner
  · exact State.batchesWork_lt found handles batches less
  · exact State.dropsWork_of_same enqueued futures

/-- The end of a call leaves the batches' work as it is. -/
theorem work_lt_of_finish
    {admission : Admission}
    (at_ : state.queue.owner = .returning admission)
    (owner : after.queue.owner = .idle)
    (batches : after.batchesWork N = state.batchesWork N)
    (enqueued : after.enqueued = state.enqueued)
    (futures : after.futures = state.futures) :
    after.work N < state.work N := by
  have drops := State.dropsWork_of_same enqueued futures
  rw [State.work, State.work, batches, drops, owner, at_]
  simp only [ownerWork]
  omega

/-- A batch that is spawned takes as much as the range it is spawned for. -/
theorem BatchInvariant.batchesWork_spawn
    (invariant : BatchInvariant N state)
    {batch : Nat}
    (at_ : state.queue.owner = .returning (.opened batch))
    (handles : after.queue.handles = state.queue.handles)
    (batches :
      after.batches = Function.update state.batches batch .pending) :
    after.batchesWork N = state.batchesWork N := by
  have unspawned := invariant.spawning batch at_
  rw [State.batchesWork, State.batchesWork, handles]
  apply Finset.sum_congr rfl
  intro other _
  by_cases same : other = batch
  · subst same
    simp only [State.batchWork, handles, batches, Function.update_self,
      unspawned]
    rfl
  · simp only [State.batchWork, handles, batches,
      Function.update_of_ne same]

/-- The tasks of a range that is not released fit into the buffer. -/
theorem taskIndices_length_le
    {queue : Queue.State (TaskRef Task) Nat}
    (phase : PhaseInvariant N queue)
    (window : queue.LiveInWindow N)
    {handle : Handle}
    {range : CounterRange}
    (member : handle ∈ queue.handles)
    (bounded : handle.stage = .bounded range) :
    (taskIndices N range).length ≤ N.size := by
  have isBounded : IsBounded handle := ⟨range, bounded⟩
  have positions :=
    phase.bounded_positions member isBounded.notUnbounded
  have near :=
    (window.inWindow member isBounded.isLive (Nat.le_refl _)).1
  rw [window.taskIndices_of_live phase member bounded,
    CircularBuffer.length_window]
  omega

/-- An iteration of the wake loop is one of those that were left. -/
theorem steal_work
    (N : BufferSize width)
    (queue : Queue.State (TaskRef Task) Nat)
    (index : Nat)
    (handle : Handle)
    (batchLimit : Nat) :
    ∃ stage,
      (Queue.steal queue index handle batchLimit).handles =
          queue.handles.set index { handle with stage := stage } ∧
        (Batch.releasing : Batch Value).work N stage <
          (Batch.releasing : Batch Value).work N
            (.draining batchLimit) := by
  unfold Queue.steal
  split
  · refine ⟨.released, rfl, ?_⟩
    simp only [Batch.work]
    omega
  · refine ⟨_, rfl, ?_⟩
    split
    · simp only [Batch.work]
      omega
    · simp only [Batch.work]
      omega

/-- Every internal step uses up some of the work that is left. -/
theorem Move.work_lt
    {action : Action Value}
    (batches : BatchInvariant N state)
    (enqueue : EnqueueInvariant N task state)
    (phaseAfter : PhaseInvariant N after.queue)
    (windowAfter : after.queue.LiveInWindow N)
    (isInternal : IsInternal state action)
    (moved : Move program N state action after) :
    after.work N < state.work N := by
  cases moved with
  | call _ _ _ | ready _ _ | idlePoll _ | dropBatched _ _
  | dropUnbatched _ _ | dropReceived _ =>
      exact isInternal.elim
  | retry _ =>
      cases isInternal
  | owner moved =>
      exact batches.work_lt_owner enqueue moved
  | refuse _ at_ | join _ at_ =>
      exact
        work_lt_of_finish at_ rfl (State.batchesWork_congr rfl rfl) rfl rfl
  | spawn _ at_ =>
      exact
        work_lt_of_finish at_ rfl (batches.batchesWork_spawn at_ rfl rfl)
          rfl rfl
  | @assign batch old new range pending found unbounded foundAfter
      bounded =>
      have handles := (Queue.setBounds_handles found foundAfter).2
      have fits :=
        taskIndices_length_le phaseAfter windowAfter
          (List.mem_of_getElem? foundAfter) bounded
      apply work_lt_of_batch
      · rfl
      · refine State.batchesWork_lt found handles rfl ?_
        rw [pending]
        simp only [Batch.work, rangeWork]
        omega
      · exact State.dropsWork_of_same rfl rfl
  | invoke assigned =>
      refine batches.work_lt_batch (by simp [assigned]) rfl rfl rfl ?_ rfl
        rfl
      intro stage
      rw [assigned]
      simp only [Batch.work]
      omega
  | visitMap visiting | visitDrop visiting | visitWith visiting =>
      refine batches.work_lt_batch (by simp [visiting]) rfl rfl rfl ?_ rfl
        rfl
      intro stage
      rw [visiting]
      simp only [Batch.work, ResolvePoint.work, List.length_cons]
      omega
  | resolve resolving moved =>
      exact batches.work_lt_resolve resolving moved
  | @release batch method todo handle range visiting done found bounded =>
      refine work_lt_of_stage found rfl rfl rfl ?_ rfl rfl
      rw [visiting]
      split
      · simp only [Batch.work]
        omega
      · simp only [Batch.work]
        omega
  | @steal batch batchLimit handle releasing found draining =>
      obtain ⟨stage, handles, fewer⟩ :=
        steal_work N state.queue batch handle batchLimit
      have batches :
          state.batches =
            Function.update state.batches batch .releasing := by
        rw [← releasing, Function.update_eq_self]
      refine
        work_lt_of_stage found
          (steal_owner state.queue batch handle batchLimit) handles batches
          ?_ rfl rfl
      rw [releasing, draining]
      exact fewer
  | @complete batch releasing released =>
      refine batches.work_lt_batch (by simp [releasing]) rfl rfl rfl ?_ rfl
        rfl
      intro stage
      rw [releasing]
      cases stage <;> simp only [Batch.work] <;> omega
  | spin holds waits =>
      have clear := isInternal _ _ holds waits
      refine enqueue.work_lt_spin holds rfl rfl rfl rfl ?_
      rw [holds]
      simp [Future.work, waits, clear]
  | dropReturn holds clear =>
      refine enqueue.work_lt_spin holds rfl rfl rfl rfl ?_
      rw [holds]
      simp [Future.work, clear]

end Moves

end StackQueue.TaskQueue
