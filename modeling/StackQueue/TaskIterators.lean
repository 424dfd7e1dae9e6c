import StackQueue.TaskApplied

namespace StackQueue.TaskQueue

open Queue

/-!
# Values for the tasks of a batch

What a method passes to `resolve_unchecked` for the task at an offset into its
batch: `map` the result of its operation, `resolve_with_iter` the value that
its iterator yields at the same offset.  The values that an iterator yields
are those of the `visitWith` actions along a run.
-/

variable {Task Value : Type}

/-- The value that an action takes from the iterator given to a batch. -/
def Action.drawn? (batch : Nat) : Action Value → Option Value
  | .visitWith other value => if other = batch then some value else none
  | _ => none

/-- The values that the iterator of a batch has yielded in a run, in order. -/
def drawn
    (trace : List (State Task Value × Action Value))
    (batch : Nat) :
    List Value :=
  trace.filterMap fun taken => taken.2.drawn? batch

/-- In a run a batch was consumed by a method. -/
def Consumes
    (trace : List (State Task Value × Action Value))
    (batch : Nat)
    (method : Method) :
    Prop :=
  ∃ taken ∈ trace, taken.2 = .invoke batch method

/-- A future's task is at an offset into a bounded batch. -/
def IsTask
    (state : State Task Value)
    (batch offset future : Nat) :
    Prop :=
  ∃ handle,
    state.queue.handles[batch]? = some handle ∧
      handle.isUnbounded = false ∧
      handle.first + offset < handle.last ∧
      state.enqueuers[handle.first + offset]? = some future

/-- The value that a method has for the task at an offset. -/
def IsAnswer
    (program : Program Task Value)
    (task : Nat → Task)
    (values : List Value)
    (offset future : Nat)
    (value : Option Value) :
    Method → Prop
  | .map => value = some (program.op (task future))
  | .resolveWithIter => offset < values.length ∧ values[offset]? = value
  | .drop => False

/-- How many values were taken when some of the tasks are still left. -/
def TakenBefore (values : List Value) (left total : Nat) : Method → Prop
  | .resolveWithIter => values.length + left = total
  | .map | .drop => values = []

/-- The method that a batch is being consumed by. -/
def Batch.method? : Batch Value → Option Method
  | .visiting method _ | .resolving method _ _ _ _ => some method
  | .unspawned | .pending | .assigned _ | .releasing | .finished => none

/-- The batch has a value that it is about to pass to `resolve_unchecked`. -/
def Batch.isTaking : Batch Value → Prop
  | .resolving .resolveWithIter _ _ _ .fetchOr => True
  | _ => False

/-- What a batch has taken from its iterator, and what it has in hand. -/
def TakesAt
    (program : Program Task Value)
    (task : Nat → Task)
    (enqueuers : List Nat)
    (handle : Handle)
    (values : List Value) :
    Batch Value → Prop
  | .unspawned | .pending => values = []
  | .assigned todo =>
      values = [] ∧ handle.first + todo.length = handle.last
  | .visiting method todo =>
      TakenBefore values (handle.first + todo.length) handle.last method
  | .resolving method todo _ value _ =>
      TakenBefore values (handle.first + todo.length) handle.last method ∧
        ∀ (offset future : Nat),
          handle.first + offset + (todo.length + 1) = handle.last →
          enqueuers[handle.first + offset]? = some future →
          IsAnswer program task values offset future value method
  | .releasing | .finished => True

/-- The values taken along a run, and where they were passed to. -/
structure IteratorInvariant
    (program : Program Task Value)
    (task : Nat → Task)
    (trace : List (State Task Value × Action Value))
    (state : State Task Value) : Prop where
  batches :
    ∀ (batch : Nat) (handle : Handle),
      state.queue.handles[batch]? = some handle →
      TakesAt program task state.enqueuers handle (drawn trace batch)
        (state.batches batch)
  unspawned :
    ∀ batch,
      state.batches batch = .unspawned →
      drawn trace batch = []
  consumed :
    ∀ batch method,
      (state.batches batch).method? = some method →
      Consumes trace batch method
  passed :
    ∀ entry ∈ state.passed,
      ∃ batch offset method,
        IsTask state batch offset entry.1 ∧
          Consumes trace batch method ∧
          IsAnswer program task (drawn trace batch) offset entry.1 entry.2
            method
  delivered :
    ∀ (batch offset : Nat) (value : Value),
      (drawn trace batch)[offset]? = some value →
      ∃ future,
        IsTask state batch offset future ∧
          ((future, some value) ∈ state.passed ∨
            (offset + 1 = (drawn trace batch).length ∧
              (state.batches batch).isTaking))

/-! ## What a step leaves as it was -/

section Steps

variable
    {width : PointerWidth}
    {program : Program Task Value}
    {N : BufferSize width}
    {task : Nat → Task}
    {trace : List (State Task Value × Action Value)}
    {state after : State Task Value}
    {action : Action Value}

theorem drawn_concat
    (taken : State Task Value × Action Value)
    (batch : Nat) :
    drawn (trace ++ [taken]) batch =
      drawn trace batch ++ (taken.2.drawn? batch).toList := by
  rw [drawn, List.filterMap_append, drawn]
  cases shape : taken.2.drawn? batch with
  | none => simp [shape]
  | some value => simp [shape]

theorem drawn_of_none
    {taken : State Task Value × Action Value}
    {batch : Nat}
    (none_ : taken.2.drawn? batch = none) :
    drawn (trace ++ [taken]) batch = drawn trace batch := by
  rw [drawn_concat, none_]
  exact List.append_nil _

theorem Consumes.append
    {batch : Nat}
    {method : Method}
    (consumes : Consumes trace batch method)
    (taken : State Task Value × Action Value) :
    Consumes (trace ++ [taken]) batch method := by
  obtain ⟨earlier, member, invoked⟩ := consumes
  exact ⟨earlier, List.mem_append_left _ member, invoked⟩

theorem IsAnswer.append
    {values : List Value}
    {offset future : Nat}
    {value : Option Value}
    {method : Method}
    (answers :
      IsAnswer program task values offset future value method)
    (newest : List Value) :
    IsAnswer program task (values ++ newest) offset future value
      method := by
  cases method with
  | map => exact answers
  | resolveWithIter =>
      obtain ⟨inBounds, shape⟩ := answers
      refine ⟨?_, ?_⟩
      · rw [List.length_append]
        exact Nat.lt_add_right _ inBounds
      · rw [List.getElem?_append_left inBounds]
        exact shape
  | drop => exact answers

/-- A bounded range keeps its ends. -/
theorem bounded_kept
    {Cell Waker : Type}
    {queue next : Queue.State Cell Waker}
    {queueAction : Queue.Action Cell Waker}
    (moved : Queue.Move N queue queueAction next)
    {batch : Nat}
    {handle : Handle}
    (found : queue.handles[batch]? = some handle)
    (bounded : handle.isUnbounded = false) :
    ∃ kept,
      next.handles[batch]? = some kept ∧
        kept.isUnbounded = false ∧
        kept.first = handle.first ∧
        kept.last = handle.last := by
  obtain ⟨inBounds, _⟩ := List.getElem?_eq_some_iff.mp found
  have replaced
      {index : Nat}
      {old : Handle}
      {stage : Stage}
      (atIndex : queue.handles[index]? = some old)
      (notUnbounded : stage ≠ .unbounded)
      (handles :
        next.handles = queue.handles.set index { old with stage := stage }) :
      ∃ kept,
        next.handles[batch]? = some kept ∧
          kept.isUnbounded = false ∧
          kept.first = handle.first ∧
          kept.last = handle.last := by
    rw [handles]
    by_cases here : index = batch
    · subst here
      rw [atIndex] at found
      cases found
      rw [List.getElem?_set_self inBounds]
      refine ⟨_, rfl, ?_, rfl, rfl⟩
      simp [Handle.isUnbounded, notUnbounded]
    · rw [List.getElem?_set_ne here]
      exact ⟨handle, found, bounded, rfl, rfl⟩
  cases moved with
  | owner moved =>
      rcases moved.handles with same | ⟨_, _, _, created⟩
      · rw [same]
        exact ⟨handle, found, bounded, rfl, rfl⟩
      · rw [created, List.getElem?_append_left inBounds]
        exact ⟨handle, found, bounded, rfl, rfl⟩
  | @setBounds index old atIndex stage =>
      have differs : index ≠ batch := by
        intro same
        subst same
        rw [atIndex] at found
        cases found
        simp [Handle.isUnbounded, stage] at bounded
      refine ⟨handle, ?_, bounded, rfl, rfl⟩
      change (queue.handles.set index _)[batch]? = some handle
      rw [List.getElem?_set_ne differs]
      exact found
  | @deoccupyRegion index old range atIndex stage =>
      obtain ⟨next, handles, released | ⟨left, draining⟩⟩ :=
        deoccupyRegion_stage N queue index old range
      · apply replaced atIndex _ handles
        simp [released]
      · apply replaced atIndex _ handles
        simp [draining]
  | @steal index batchLimit old atIndex stage =>
      obtain ⟨next, handles, released | ⟨left, draining⟩⟩ :=
        steal_handles queue index old batchLimit
      · apply replaced atIndex _ handles
        simp [released]
      · apply replaced atIndex _ handles
        simp [draining]
  | call at_ | finish at_ | register at_ | retry _ _ | touch =>
      exact ⟨handle, found, bounded, rfl, rfl⟩

/-- So it does through a step of the whole machine. -/
theorem Move.bounded_kept
    (moved : Move program N state action after)
    {batch : Nat}
    {handle : Handle}
    (found : state.queue.handles[batch]? = some handle)
    (bounded : handle.isUnbounded = false) :
    ∃ kept,
      after.queue.handles[batch]? = some kept ∧
        kept.isUnbounded = false ∧
        kept.first = handle.first ∧
        kept.last = handle.last := by
  rcases moved.queue with same | ⟨queueAction, queueMoved, _⟩
  · rw [same]
    exact ⟨handle, found, bounded, rfl, rfl⟩
  · exact TaskQueue.bounded_kept queueMoved found bounded

/-- The futures enqueued before a step keep their positions. -/
theorem Move.enqueuer_kept
    (moved : Move program N state action after)
    {position future : Nat}
    (atPosition : state.enqueuers[position]? = some future) :
    after.enqueuers[position]? = some future := by
  have appended
      {newest : List (Nat × Task)}
      (enqueued : after.enqueued = state.enqueued ++ newest) :
      after.enqueuers[position]? = some future := by
    have inBounds := (List.getElem?_eq_some_iff.mp atPosition).1
    rw [State.enqueuers] at atPosition inBounds
    rw [State.enqueuers, enqueued, List.map_append,
      List.getElem?_append_left inBounds]
    exact atPosition
  cases moved with
  | owner moved =>
      have enqueued :
          ∃ newest, state.progress.enqueued = state.enqueued ++ newest := by
        unfold State.progress
        simp only
        split
        · exact ⟨_, rfl⟩
        · exact ⟨[], (List.append_nil _).symm⟩
      obtain ⟨newest, shape⟩ := enqueued
      exact appended shape
  | resolve _ moved =>
      cases moved with
      | setting _ | discard _ | write _ | wake _ | fetchXor =>
          exact atPosition
  | _ => exact atPosition

theorem IsTask.move
    {batch offset future : Nat}
    (isTask : IsTask state batch offset future)
    (moved : Move program N state action after) :
    IsTask after batch offset future := by
  obtain ⟨handle, found, bounded, within, enqueued⟩ := isTask
  obtain ⟨kept, foundAfter, boundedAfter, first, last⟩ :=
    moved.bounded_kept found bounded
  refine ⟨kept, foundAfter, boundedAfter, ?_, ?_⟩
  · rw [first, last]
    exact within
  · rw [first]
    exact moved.enqueuer_kept enqueued

/-- There is one task at an offset. -/
theorem IsTask.unique
    {batch offset future other : Nat}
    (isTask : IsTask state batch offset future)
    (also : IsTask state batch offset other) :
    future = other := by
  obtain ⟨handle, found, _, _, enqueued⟩ := isTask
  obtain ⟨same, foundAlso, _, _, enqueuedAlso⟩ := also
  rw [found] at foundAlso
  cases foundAlso
  exact Option.some.inj (enqueued.symm.trans enqueuedAlso)

/-- The task that a batch is processing, by its offset. -/
theorem Current.isTask
    {batch cell position future : Nat}
    {handle : Handle}
    (current : Current N state batch cell handle position future) :
    IsTask state batch (position - handle.first) future := by
  have position_ := Nat.add_sub_cancel' current.begun
  refine ⟨handle, current.found, current.bounded.notUnbounded, ?_, ?_⟩
  · rw [position_]
    exact current.below
  · rw [position_]
    exact current.enqueued

end Steps

end StackQueue.TaskQueue
