import StackQueue.QueueContents
import StackQueue.TaskIterators

namespace StackQueue.TaskQueue

open Queue IntervalChain

/-!
# `resolve_with_iter` aligns values with tasks

Along any run, with batches consumed in any way, the value at an index of an
iterator is passed to the task at the same index of the batch and to no other,
whatever futures are enqueued, polled and dropped in the meantime.
-/

variable {Task Value : Type}

/-- A batch depends on the ends of its bounded range only. -/
theorem TakesAt.kept
    {width : PointerWidth}
    {N : BufferSize width}
    {program : Program Task Value}
    {task : Nat → Task}
    {enqueuers enqueuersAfter : List Nat}
    {resolutions : Nat → Resolution}
    {old new : Handle}
    {values : List Value}
    {batch : Batch Value}
    (takes : TakesAt program task enqueuers old values batch)
    (batchAt : BatchAt N enqueuers resolutions old batch)
    (ends :
      old.isUnbounded = false →
      new.first = old.first ∧ new.last = old.last)
    (earlier :
      ∀ (position future : Nat),
        old.isUnbounded = false →
        position < old.last →
        enqueuersAfter[position]? = some future →
        enqueuers[position]? = some future) :
    TakesAt program task enqueuersAfter new values batch := by
  cases batch with
  | unspawned | pending | releasing | finished =>
      exact takes
  | assigned todo | visiting method todo =>
      obtain ⟨first, last⟩ := ends batchAt.1.notUnbounded
      rw [TakesAt, first, last]
      exact takes
  | resolving method todo cell value point =>
      have bounded := batchAt.1.notUnbounded
      obtain ⟨first, last⟩ := ends bounded
      rw [TakesAt, first, last]
      refine ⟨takes.1, fun offset future atOffset found => ?_⟩
      apply takes.2 offset future atOffset
      apply earlier _ future bounded _ found
      omega

namespace IteratorInvariant

variable
    {width : PointerWidth}
    {program : Program Task Value}
    {N : BufferSize width}
    {task : Nat → Task}
    {trace : List (State Task Value × Action Value)}
    {state after : State Task Value}
    {action : Action Value}

theorem initial :
    IteratorInvariant program task []
      (TaskQueue.initial task : State Task Value) := by
  constructor <;>
    simp [TaskQueue.initial, Queue.initial, drawn, Batch.method?]

/-! ## What is kept -/

/-- A batch that a step leaves alone has what it had. -/
theorem takes_kept
    (invariant : IteratorInvariant program task trace state)
    (batchInvariant : BatchInvariant N state)
    (enqueue : EnqueueInvariant N task state)
    (phase : PhaseInvariant N state.queue)
    (moved : Move program N state action after)
    {batch : Nat}
    (same : after.batches batch = state.batches batch)
    (draws : action.drawn? batch = none)
    {handle : Handle}
    (found : after.queue.handles[batch]? = some handle) :
    TakesAt program task after.enqueuers handle
      (drawn (trace ++ [(state, action)]) batch)
      (after.batches batch) := by
  rw [drawn_of_none draws, same]
  by_cases inBounds : batch < state.queue.handles.length
  · have foundBefore := List.getElem?_eq_getElem inBounds
    apply (invariant.batches batch _ foundBefore).kept
      (batchInvariant.batches batch _ foundBefore)
    case ends =>
      intro bounded
      obtain ⟨kept, foundAfter, _, ends⟩ :=
        moved.bounded_kept foundBefore bounded
      rw [found] at foundAfter
      cases foundAfter
      exact ends
    case earlier =>
      intro position future bounded below atPosition
      have upTo :=
        (phase.bounded_positions (List.mem_of_getElem? foundBefore)
          bounded).2
      rw [← enqueue.length_enqueuers] at upTo
      have before :=
        List.getElem?_eq_getElem (Nat.lt_of_lt_of_le below upTo)
      rw [moved.enqueuer_kept before] at atPosition
      rw [before]
      exact atPosition
  · have unspawned :=
      batchInvariant.unspawned batch (Nat.le_of_not_lt inBounds)
    rw [unspawned]
    exact invariant.unspawned batch unspawned

/-- The values passed before a step stay answers. -/
theorem passed_kept
    (invariant : IteratorInvariant program task trace state)
    (moved : Move program N state action after)
    {entry : Nat × Option Value}
    (member : entry ∈ state.passed) :
    ∃ batch offset method,
      IsTask after batch offset entry.1 ∧
        Consumes (trace ++ [(state, action)]) batch method ∧
        IsAnswer program task
          (drawn (trace ++ [(state, action)]) batch) offset entry.1
          entry.2 method := by
  obtain ⟨batch, offset, method, isTask, consumes, answers⟩ :=
    invariant.passed entry member
  refine ⟨batch, offset, method, isTask.move moved, consumes.append _, ?_⟩
  rw [drawn_concat]
  exact answers.append _

/-- A value taken before a step that does not hand it on is where it was. -/
theorem delivered_kept
    (invariant : IteratorInvariant program task trace state)
    (moved : Move program N state action after)
    {batch : Nat}
    (same :
      (state.batches batch).isTaking →
      after.batches batch = state.batches batch)
    (draws : action.drawn? batch = none)
    (passed : ∀ entry ∈ state.passed, entry ∈ after.passed)
    {offset : Nat}
    {value : Value}
    (taken :
      (drawn (trace ++ [(state, action)]) batch)[offset]? = some value) :
    ∃ future,
      IsTask after batch offset future ∧
        ((future, some value) ∈ after.passed ∨
          (offset + 1 =
              (drawn (trace ++ [(state, action)]) batch).length ∧
            (after.batches batch).isTaking)) := by
  rw [drawn_of_none draws] at taken ⊢
  obtain ⟨future, isTask, wasPassed | ⟨newest, taking⟩⟩ :=
    invariant.delivered batch offset value taken
  · exact ⟨future, isTask.move moved, .inl (passed _ wasPassed)⟩
  · refine ⟨future, isTask.move moved, .inr ⟨newest, ?_⟩⟩
    rw [same taking]
    exact taking

/-! ## Steps -/

/-- A step that leaves the batches alone. -/
theorem of_unchanged
    (invariant : IteratorInvariant program task trace state)
    (batchInvariant : BatchInvariant N state)
    (enqueue : EnqueueInvariant N task state)
    (phase : PhaseInvariant N state.queue)
    (moved : Move program N state action after)
    (batches : after.batches = state.batches)
    (draws : ∀ batch, action.drawn? batch = none)
    (passed : after.passed = state.passed) :
    IteratorInvariant program task (trace ++ [(state, action)]) after := by
  constructor
  case batches =>
    intro batch handle found
    exact
      invariant.takes_kept batchInvariant enqueue phase moved
        (congrFun batches batch) (draws batch) found
  case unspawned =>
    intro batch unspawned
    rw [batches] at unspawned
    rw [drawn_of_none (draws batch)]
    exact invariant.unspawned batch unspawned
  case consumed =>
    intro batch method holds
    rw [batches] at holds
    exact (invariant.consumed batch method holds).append _
  case passed =>
    intro entry member
    rw [passed] at member
    exact invariant.passed_kept moved member
  case delivered =>
    intro batch offset value taken
    apply invariant.delivered_kept moved _ (draws batch) _ taken
    · exact fun _ => congrFun batches batch
    · rw [passed]
      exact fun _ => id

/-- A step of one batch. -/
theorem of_update
    (invariant : IteratorInvariant program task trace state)
    (batchInvariant : BatchInvariant N state)
    (enqueue : EnqueueInvariant N task state)
    (phase : PhaseInvariant N state.queue)
    (moved : Move program N state action after)
    {stepping : Nat}
    {next : Batch Value}
    (batches :
      after.batches = Function.update state.batches stepping next)
    (draws : ∀ other, other ≠ stepping → action.drawn? other = none)
    (takes :
      ∀ handle,
        after.queue.handles[stepping]? = some handle →
        TakesAt program task after.enqueuers handle
          (drawn (trace ++ [(state, action)]) stepping) next)
    (spawned : next ≠ .unspawned)
    (consumed :
      ∀ method,
        next.method? = some method →
        Consumes (trace ++ [(state, action)]) stepping method)
    (kept : ∀ entry ∈ state.passed, entry ∈ after.passed)
    (passed :
      ∀ entry ∈ after.passed,
        entry ∈ state.passed ∨
          ∃ offset method,
            IsTask after stepping offset entry.1 ∧
              Consumes (trace ++ [(state, action)]) stepping method ∧
              IsAnswer program task
                (drawn (trace ++ [(state, action)]) stepping) offset
                entry.1 entry.2 method)
    (delivered :
      ∀ (offset : Nat) (value : Value),
        (drawn (trace ++ [(state, action)]) stepping)[offset]? =
          some value →
        ∃ future,
          IsTask after stepping offset future ∧
            ((future, some value) ∈ after.passed ∨
              (offset + 1 =
                  (drawn (trace ++ [(state, action)])
                    stepping).length ∧
                next.isTaking))) :
    IteratorInvariant program task (trace ++ [(state, action)]) after := by
  have here : after.batches stepping = next := by
    rw [batches, Function.update_self]
  have elsewhere
      {other : Nat}
      (differs : other ≠ stepping) :
      after.batches other = state.batches other := by
    rw [batches, Function.update_of_ne differs]
  constructor
  case batches =>
    intro batch handle found
    by_cases same : batch = stepping
    · subst same
      rw [here]
      exact takes handle found
    · exact
        invariant.takes_kept batchInvariant enqueue phase moved
          (elsewhere same) (draws batch same) found
  case unspawned =>
    intro batch unspawned
    by_cases same : batch = stepping
    · subst same
      rw [here] at unspawned
      exact (spawned unspawned).elim
    · rw [elsewhere same] at unspawned
      rw [drawn_of_none (draws batch same)]
      exact invariant.unspawned batch unspawned
  case consumed =>
    intro batch method holds
    by_cases same : batch = stepping
    · subst same
      rw [here] at holds
      exact consumed method holds
    · rw [elsewhere same] at holds
      exact (invariant.consumed batch method holds).append _
  case passed =>
    intro entry member
    rcases passed entry member with
      earlier | ⟨offset, method, isTask, consumes, answers⟩
    · exact invariant.passed_kept moved earlier
    · exact ⟨stepping, offset, method, isTask, consumes, answers⟩
  case delivered =>
    intro batch offset value taken
    by_cases same : batch = stepping
    · subst same
      rw [here]
      exact delivered offset value taken
    · exact
        invariant.delivered_kept moved (fun _ => elsewhere same)
          (draws batch same) kept taken

/-- A step of one batch that neither takes a value nor passes one. -/
theorem of_quiet
    (invariant : IteratorInvariant program task trace state)
    (batchInvariant : BatchInvariant N state)
    (enqueue : EnqueueInvariant N task state)
    (phase : PhaseInvariant N state.queue)
    (moved : Move program N state action after)
    {stepping : Nat}
    {next : Batch Value}
    (batches :
      after.batches = Function.update state.batches stepping next)
    (draws : ∀ batch, action.drawn? batch = none)
    (passed : after.passed = state.passed)
    (notTaking : ¬ (state.batches stepping).isTaking)
    (spawned : next ≠ .unspawned)
    (takes :
      ∀ handle,
        after.queue.handles[stepping]? = some handle →
        TakesAt program task after.enqueuers handle
          (drawn trace stepping) next)
    (consumed :
      ∀ method,
        next.method? = some method →
        (state.batches stepping).method? = some method ∨
          action = .invoke stepping method) :
    IteratorInvariant program task (trace ++ [(state, action)]) after := by
  apply invariant.of_update batchInvariant enqueue phase moved batches
  case draws => exact fun other _ => draws other
  case takes =>
    rw [drawn_of_none (draws stepping)]
    exact takes
  case spawned => exact spawned
  case consumed =>
    intro method holds
    rcases consumed method holds with earlier | invoked
    · exact (invariant.consumed stepping method earlier).append _
    · exact ⟨(state, action), by simp, invoked⟩
  case kept =>
    rw [passed]
    exact fun _ => id
  case passed =>
    rw [passed]
    exact fun _ => .inl
  case delivered =>
    intro offset value taken
    rw [drawn_of_none (draws stepping)] at taken ⊢
    obtain ⟨future, isTask, wasPassed | ⟨_, taking⟩⟩ :=
      invariant.delivered stepping offset value taken
    · refine ⟨future, isTask.move moved, .inl ?_⟩
      rw [passed]
      exact wasPassed
    · exact (notTaking taking).elim

/-- A batch that is assigned has all tasks of its range left. -/
theorem assign
    (invariant : IteratorInvariant program task trace state)
    (batchInvariant : BatchInvariant N state)
    (enqueue : EnqueueInvariant N task state)
    (phase : PhaseInvariant N state.queue)
    (moved : Move program N state action after)
    {batch : Nat}
    {old new : Handle}
    {range : CounterRange}
    (pending : state.batches batch = .pending)
    (found : state.queue.handles[batch]? = some old)
    (foundAfter : after.queue.handles[batch]? = some new)
    (bounded : new.stage = .bounded range)
    (phaseAfter : PhaseInvariant N after.queue)
    (windowAfter : after.queue.LiveInWindow N)
    (batches :
      after.batches =
        Function.update state.batches batch
          (.assigned (taskIndices N range)))
    (draws : ∀ other, action.drawn? other = none)
    (passed : after.passed = state.passed) :
    IteratorInvariant program task (trace ++ [(state, action)]) after := by
  have nothing := invariant.batches batch old found
  rw [pending] at nothing
  have member := List.mem_of_getElem? foundAfter
  have nonempty :=
    (phaseAfter.bounded_positions member
      (IsBounded.notUnbounded ⟨range, bounded⟩)).1
  apply invariant.of_quiet batchInvariant enqueue phase moved batches draws
    passed
  case notTaking =>
    rw [pending]
    exact id
  case spawned => exact fun same => by cases same
  case takes =>
    intro handle atBatch
    rw [foundAfter] at atBatch
    cases atBatch
    refine ⟨nothing, ?_⟩
    rw [windowAfter.taskIndices_of_live phaseAfter member bounded,
      CircularBuffer.length_window]
    exact Nat.add_sub_cancel' (Nat.le_of_lt nonempty)
  case consumed => exact fun method holds => by cases holds

/-- A batch is consumed by a method, from its first task on. -/
theorem invoke
    (invariant : IteratorInvariant program task trace state)
    (batchInvariant : BatchInvariant N state)
    (enqueue : EnqueueInvariant N task state)
    (phase : PhaseInvariant N state.queue)
    {batch : Nat}
    {method : Method}
    {todo : List Nat}
    (assigned : state.batches batch = .assigned todo) :
    IteratorInvariant program task
      (trace ++ [(state, .invoke batch method)])
      (state.setBatch batch (.visiting method todo)) := by
  have moved :
      Move program N state (.invoke batch method)
        (state.setBatch batch (.visiting method todo)) :=
    .invoke assigned
  apply invariant.of_quiet batchInvariant enqueue phase moved rfl
    (fun _ => rfl) rfl
  case notTaking =>
    rw [assigned]
    exact id
  case spawned => exact fun same => by cases same
  case takes =>
    intro handle found
    have takes := invariant.batches batch handle found
    rw [assigned] at takes
    obtain ⟨nothing, total⟩ := takes
    cases method with
    | map | drop => exact nothing
    | resolveWithIter =>
        change (drawn trace batch).length + _ = _
        rw [nothing, List.length_nil, Nat.zero_add]
        exact total
  case consumed =>
    intro other holds
    cases holds
    exact .inr rfl

/-- The offset of the task that a batch is at, by the tasks left. -/
theorem offset_of_left
    {batch cell position future left : Nat}
    {handle : Handle}
    (current : Current N state batch cell handle position future)
    (rest : left = handle.last - (position + 1)) :
    handle.first + (position - handle.first) + (left + 1) =
      handle.last := by
  have begun := current.begun
  have below := current.below
  omega

/-- `map` has the result of its operation for the task it has taken. -/
theorem visitMap
    (invariant : IteratorInvariant program task trace state)
    (taskCells : TaskCells N task state)
    (batchInvariant : BatchInvariant N state)
    (enqueue : EnqueueInvariant N task state)
    (phase : PhaseInvariant N state.queue)
    (window : state.queue.LiveInWindow N)
    (moved : Move program N state action after)
    {batch cell : Nat}
    {todo : List Nat}
    (visiting : state.batches batch = .visiting .map (cell :: todo))
    (handles : after.queue.handles = state.queue.handles)
    (enqueued : after.enqueued = state.enqueued)
    (batches :
      after.batches =
        Function.update state.batches batch
          (.resolving .map todo cell
            ((state.queue.buffer cell).task.map program.op) .fetchOr))
    (draws : ∀ other, action.drawn? other = none)
    (passed : after.passed = state.passed) :
    IteratorInvariant program task (trace ++ [(state, action)]) after := by
  obtain ⟨handle, position, future, current, untouched, rest, _⟩ :=
    batchInvariant.visiting_current enqueue phase window visiting
  have holds : (state.queue.buffer cell).task = some (task future) := by
    rw [current.isCell]
    exact taskCells.cells position future current.enqueued
      current.inWindow untouched
  have left : todo.length = handle.last - (position + 1) := by
    rw [rest, CircularBuffer.length_window]
  apply invariant.of_quiet batchInvariant enqueue phase moved batches draws
    passed
  case notTaking =>
    rw [visiting]
    exact id
  case spawned => exact fun same => by cases same
  case takes =>
    intro other found
    rw [handles, current.found] at found
    cases found
    have nothing := invariant.batches batch handle current.found
    rw [visiting] at nothing
    refine ⟨nothing, fun offset caller atOffset atPosition => ?_⟩
    have here := offset_of_left current left
    have same : offset = position - handle.first := by omega
    rw [State.enqueuers, enqueued, same,
      Nat.add_sub_cancel' current.begun] at atPosition
    have isFuture := current.enqueued.symm.trans atPosition
    cases isFuture
    change Option.map program.op (state.queue.buffer cell).task = _
    rw [holds]
    rfl
  case consumed =>
    intro method isMethod
    cases isMethod
    rw [visiting]
    exact .inl rfl

/-- The destructor of a batch passes no values. -/
theorem visitDrop
    (invariant : IteratorInvariant program task trace state)
    (batchInvariant : BatchInvariant N state)
    (enqueue : EnqueueInvariant N task state)
    (phase : PhaseInvariant N state.queue)
    (moved : Move program N state action after)
    {batch cell : Nat}
    {todo : List Nat}
    (visiting : state.batches batch = .visiting .drop (cell :: todo))
    (handles : after.queue.handles = state.queue.handles)
    (batches :
      after.batches =
        Function.update state.batches batch (.visiting .drop todo))
    (draws : ∀ other, action.drawn? other = none)
    (passed : after.passed = state.passed) :
    IteratorInvariant program task (trace ++ [(state, action)]) after := by
  apply invariant.of_quiet batchInvariant enqueue phase moved batches draws
    passed
  case notTaking =>
    rw [visiting]
    exact id
  case spawned => exact fun same => by cases same
  case takes =>
    intro handle found
    rw [handles] at found
    have nothing := invariant.batches batch handle found
    rw [visiting] at nothing
    exact nothing
  case consumed =>
    intro method isMethod
    cases isMethod
    rw [visiting]
    exact .inl rfl

/-- The iterator yields the value for the next task of the batch. -/
theorem visitWith
    (invariant : IteratorInvariant program task trace state)
    (batchInvariant : BatchInvariant N state)
    (enqueue : EnqueueInvariant N task state)
    (phase : PhaseInvariant N state.queue)
    (window : state.queue.LiveInWindow N)
    {batch cell : Nat}
    {todo : List Nat}
    {value : Value}
    (moved : Move program N state (.visitWith batch value) after)
    (visiting :
      state.batches batch = .visiting .resolveWithIter (cell :: todo))
    (handles : after.queue.handles = state.queue.handles)
    (batches :
      after.batches =
        Function.update state.batches batch
          (.resolving .resolveWithIter todo cell (some value) .fetchOr))
    (passed : after.passed = state.passed) :
    IteratorInvariant program task
      (trace ++ [(state, .visitWith batch value)]) after := by
  obtain ⟨handle, position, future, current, untouched, rest, _⟩ :=
    batchInvariant.visiting_current enqueue phase window visiting
  have left : todo.length = handle.last - (position + 1) := by
    rw [rest, CircularBuffer.length_window]
  have here := offset_of_left current left
  have before := invariant.batches batch handle current.found
  rw [visiting] at before
  change
    (drawn trace batch).length + (handle.first + (todo.length + 1)) =
      handle.last at before
  have isOffset : position - handle.first = (drawn trace batch).length := by
    omega
  have longer :
      drawn (trace ++ [(state, .visitWith batch value)]) batch =
        drawn trace batch ++ [value] := by
    rw [drawn_concat, Action.drawn?, if_pos rfl]
    rfl
  apply invariant.of_update batchInvariant enqueue phase moved batches
  case draws => exact fun other differs => if_neg (Ne.symm differs)
  case takes =>
    intro other found
    rw [handles, current.found] at found
    cases found
    rw [longer]
    refine ⟨?_, fun offset caller atOffset _ => ?_⟩
    · change (drawn trace batch ++ [value]).length + _ = _
      rw [List.length_append, List.length_singleton]
      omega
    · have isNewest : offset = (drawn trace batch).length := by omega
      subst isNewest
      refine ⟨?_, List.getElem?_concat_length⟩
      rw [List.length_append]
      exact Nat.lt_succ_self _
  case spawned => exact fun same => by cases same
  case consumed =>
    intro method isMethod
    cases isMethod
    apply (invariant.consumed batch .resolveWithIter _).append
    rw [visiting]
    rfl
  case kept =>
    rw [passed]
    exact fun _ => id
  case passed =>
    rw [passed]
    exact fun _ => .inl
  case delivered =>
    intro offset other taken
    rw [longer] at taken ⊢
    rcases ListUpdate.getElem?_concat_cases taken with
      earlier | ⟨newest, _⟩
    · obtain ⟨caller, isTask, wasPassed | ⟨_, taking⟩⟩ :=
        invariant.delivered batch offset other earlier
      · refine ⟨caller, isTask.move moved, .inl ?_⟩
        rw [passed]
        exact wasPassed
      · rw [visiting] at taking
        exact taking.elim
    · have isTask := current.isTask
      rw [isOffset, ← newest] at isTask
      refine ⟨future, isTask.move moved, .inr ⟨?_, trivial⟩⟩
      rw [newest, List.length_append]
      rfl

/-- A `fetch_or` passes the value to the task that the batch is at. -/
theorem pass
    (invariant : IteratorInvariant program task trace state)
    (batchInvariant : BatchInvariant N state)
    (enqueue : EnqueueInvariant N task state)
    (phase : PhaseInvariant N state.queue)
    (window : state.queue.LiveInWindow N)
    (moved : Move program N state action after)
    {batch cell : Nat}
    {method : Method}
    {todo : List Nat}
    {value : Option Value}
    {next : Batch Value}
    (resolving :
      state.batches batch = .resolving method todo cell value .fetchOr)
    (resumes :
      next = .resolving method todo cell value .write ∨
        next = .visiting method todo)
    (handles : after.queue.handles = state.queue.handles)
    (enqueued : after.enqueued = state.enqueued)
    (batches :
      after.batches = Function.update state.batches batch next)
    (draws : ∀ other, action.drawn? other = none)
    (passed :
      after.passed =
        state.passed ++
          (state.queue.buffer cell).rx.toList.map (·, value)) :
    IteratorInvariant program task (trace ++ [(state, action)]) after := by
  obtain ⟨handle, position, future, current, _, rest, _⟩ :=
    batchInvariant.resolving_current enqueue window resolving
  have left : todo.length = handle.last - (position + 1) := by
    rw [rest, CircularBuffer.length_window]
  have here := offset_of_left current left
  have takes := invariant.batches batch handle current.found
  rw [resolving] at takes
  obtain ⟨taken, answers⟩ := takes
  have answer :=
    answers (position - handle.first) future here (by
      rw [Nat.add_sub_cancel' current.begun]
      exact current.enqueued)
  have isPassed : after.passed = state.passed ++ [(future, value)] := by
    rw [passed, current.pointer]
    rfl
  have isMethod : (state.batches batch).method? = some method := by
    rw [resolving]
    rfl
  have consumes := (invariant.consumed batch method isMethod).append
    (state, action)
  apply invariant.of_update batchInvariant enqueue phase moved batches
  case draws => exact fun other _ => draws other
  case takes =>
    intro other found
    rw [handles, current.found] at found
    cases found
    rw [drawn_of_none (draws batch), State.enqueuers, enqueued]
    rcases resumes with resumes | resumes
    · rw [resumes]
      exact ⟨taken, answers⟩
    · rw [resumes]
      exact taken
  case spawned =>
    rcases resumes with resumes | resumes
    · rw [resumes]
      exact fun same => by cases same
    · rw [resumes]
      exact fun same => by cases same
  case consumed =>
    intro other holds
    rcases resumes with resumes | resumes
    · rw [resumes] at holds
      cases holds
      exact consumes
    · rw [resumes] at holds
      cases holds
      exact consumes
  case kept =>
    rw [isPassed]
    exact fun _ => List.mem_append_left _
  case passed =>
    intro entry member
    rw [isPassed] at member
    rcases List.mem_append.mp member with earlier | newest
    · exact .inl earlier
    · rw [List.mem_singleton.mp newest]
      refine .inr
        ⟨position - handle.first, method, current.isTask.move moved,
          consumes, ?_⟩
      rw [drawn_of_none (draws batch)]
      exact answer
  case delivered =>
    intro offset other atOffset
    rw [drawn_of_none (draws batch)] at atOffset ⊢
    obtain ⟨caller, isTask, wasPassed | ⟨newest, taking⟩⟩ :=
      invariant.delivered batch offset other atOffset
    · refine ⟨caller, isTask.move moved, .inl ?_⟩
      rw [isPassed]
      exact List.mem_append_left _ wasPassed
    · rw [resolving] at taking
      cases method with
      | map | drop => exact taking.elim
      | resolveWithIter =>
          change
            (drawn trace batch).length + (handle.first + todo.length) =
              handle.last at taken
          have isOffset : offset = position - handle.first := by omega
          rw [isOffset] at isTask atOffset
          have sameTask := isTask.unique current.isTask
          have sameValue := answer.2.symm.trans atOffset
          refine ⟨caller, ?_, .inl ?_⟩
          · rw [isOffset]
            exact isTask.move moved
          · rw [isPassed, sameTask, sameValue]
            exact List.mem_append_right _ (List.mem_singleton_self _)

/-- The accesses of `resolve_unchecked` after the value was passed. -/
theorem finishValue
    (invariant : IteratorInvariant program task trace state)
    (batchInvariant : BatchInvariant N state)
    (enqueue : EnqueueInvariant N task state)
    (phase : PhaseInvariant N state.queue)
    (moved : Move program N state action after)
    {batch cell : Nat}
    {method : Method}
    {todo : List Nat}
    {value : Option Value}
    {point nextPoint : ResolvePoint}
    {next : Batch Value}
    (resolving :
      state.batches batch = .resolving method todo cell value point)
    (later : point ≠ .fetchOr)
    (resumes :
      next = .resolving method todo cell value nextPoint ∨
        next = .visiting method todo)
    (handles : after.queue.handles = state.queue.handles)
    (enqueued : after.enqueued = state.enqueued)
    (batches :
      after.batches = Function.update state.batches batch next)
    (draws : ∀ other, action.drawn? other = none)
    (passed : after.passed = state.passed) :
    IteratorInvariant program task (trace ++ [(state, action)]) after := by
  apply invariant.of_quiet batchInvariant enqueue phase moved batches draws
    passed
  case notTaking =>
    rw [resolving]
    cases point with
    | fetchOr => exact (later rfl).elim
    | write | wake | fetchXor => cases method <;> exact id
  case spawned =>
    rcases resumes with resumes | resumes
    · rw [resumes]
      exact fun same => by cases same
    · rw [resumes]
      exact fun same => by cases same
  case takes =>
    intro handle found
    rw [handles] at found
    have takes := invariant.batches batch handle found
    rw [resolving] at takes
    rw [State.enqueuers, enqueued]
    rcases resumes with resumes | resumes
    · rw [resumes]
      exact takes
    · rw [resumes]
      exact takes.1
  case consumed =>
    intro other holds
    rw [resolving]
    rcases resumes with resumes | resumes
    · rw [resumes] at holds
      exact .inl holds
    · rw [resumes] at holds
      exact .inl holds

/-- Every step hands the values on to the tasks at their offsets. -/
theorem move
    (invariant : IteratorInvariant program task trace state)
    (taskCells : TaskCells N task state)
    (batchInvariant : BatchInvariant N state)
    (enqueue : EnqueueInvariant N task state)
    (phase : PhaseInvariant N state.queue)
    (window : state.queue.LiveInWindow N)
    (moved : Move program N state action after)
    (phaseAfter : PhaseInvariant N after.queue)
    (windowAfter : after.queue.LiveInWindow N) :
    IteratorInvariant program task (trace ++ [(state, action)]) after := by
  have isMove := moved
  cases moved with
  | call _ _ _ | ready _ _ | idlePoll _ | owner _ | refuse _ _ | join _ _
  | retry _ | dropBatched _ _ | dropUnbatched _ _ | dropReceived _
  | spin _ _ | dropReturn _ _ | steal _ _ _ =>
      exact
        invariant.of_unchanged batchInvariant enqueue phase isMove rfl
          (fun _ => rfl) rfl
  | @spawn call batch _ at_ =>
      have unspawned := batchInvariant.spawning batch at_
      apply invariant.of_quiet batchInvariant enqueue phase isMove rfl
        (fun _ => rfl) rfl
      case notTaking =>
        rw [unspawned]
        exact id
      case spawned => exact fun same => by cases same
      case takes =>
        exact fun _ _ => invariant.unspawned batch unspawned
      case consumed => exact fun _ holds => by cases holds
  | assign pending found _ foundAfter bounded =>
      exact
        invariant.assign batchInvariant enqueue phase isMove pending found
          foundAfter bounded phaseAfter windowAfter rfl (fun _ => rfl) rfl
  | invoke assigned =>
      exact invariant.invoke batchInvariant enqueue phase assigned
  | visitMap visiting =>
      exact
        invariant.visitMap taskCells batchInvariant enqueue phase window
          isMove visiting rfl rfl rfl (fun _ => rfl) rfl
  | visitDrop visiting =>
      exact
        invariant.visitDrop batchInvariant enqueue phase isMove visiting
          rfl rfl (fun _ => rfl) rfl
  | visitWith visiting =>
      exact
        invariant.visitWith batchInvariant enqueue phase window isMove
          visiting rfl rfl rfl
  | resolve resolving moved =>
      cases moved with
      | setting _ =>
          exact
            invariant.pass batchInvariant enqueue phase window isMove
              resolving (.inl rfl) rfl rfl rfl (fun _ => rfl) rfl
      | discard _ =>
          exact
            invariant.pass batchInvariant enqueue phase window isMove
              resolving (.inr rfl) rfl rfl rfl (fun _ => rfl) rfl
      | write _ | wake _ =>
          exact
            invariant.finishValue batchInvariant enqueue phase isMove
              resolving (fun same => by cases same) (.inl rfl) rfl rfl rfl
              (fun _ => rfl) rfl
      | fetchXor =>
          have resumes :
              ∀ method todo cell value,
                (Batch.visiting method todo : Batch Value) =
                    .resolving method todo cell value .fetchXor ∨
                  (Batch.visiting method todo : Batch Value) =
                    .visiting method todo :=
            fun _ _ _ _ => .inr rfl
          exact
            invariant.finishValue batchInvariant enqueue phase isMove
              resolving (fun same => by cases same) (resumes _ _ _ _) rfl
              rfl rfl (fun _ => rfl) rfl
  | release visiting _ _ _ =>
      apply invariant.of_quiet batchInvariant enqueue phase isMove rfl
        (fun _ => rfl) rfl
      case notTaking =>
        rw [visiting]
        exact id
      case spawned => exact fun same => by cases same
      case takes => exact fun _ _ => trivial
      case consumed => exact fun _ holds => by cases holds
  | complete releasing _ =>
      apply invariant.of_quiet batchInvariant enqueue phase isMove rfl
        (fun _ => rfl) rfl
      case notTaking =>
        rw [releasing]
        exact id
      case spawned => exact fun same => by cases same
      case takes => exact fun _ _ => trivial
      case consumed => exact fun _ holds => by cases holds

end IteratorInvariant

/-! ## Values along a run -/

section Runs

variable
    {width : PointerWidth}
    {program : Program Task Value}
    {N : BufferSize width}
    {task : Nat → Task}
    {trace : List (State Task Value × Action Value)}
    {state : State Task Value}

/-- In a safe buffer, futures with wakers of their own keep all rules. -/
theorem Reachable.disciplined_of_safe
    (safe : N.IsSafe)
    {allowed : State Task Value → Action Value → Prop}
    (ownWaker :
      ∀ state action, allowed state action → OwnWaker state action)
    (reachable : Reachable program N allowed task state) :
    Reachable program N (Disciplined N allowed) task state := by
  apply TransitionSystem.Reachable.strengthen _ reachable
  intro before action earlier permitted
  refine ⟨permitted, ?_,
    (Reachable.wakerInvariant ownWaker earlier).pollsWoken
      (ownWaker before action permitted)⟩
  cases action with
  | owner =>
      exact Queue.Reachable.writesFreeCell safe (Reachable.queue earlier)
  | _ => trivial

/-- Along a run whose futures keep to their own wakers. -/
theorem iteratorInvariant_of_run
    (safe : N.IsSafe)
    (run : Run program N task trace state)
    (ownWaker : ∀ taken ∈ trace, OwnWaker taken.1 taken.2) :
    IteratorInvariant program task trace state := by
  induction run with
  | start => exact .initial
  | @next trace before after action earlier taken inductionHypothesis =>
      have earlierPermitted :
          ∀ entry ∈ trace, OwnWaker entry.1 entry.2 :=
        fun entry member => ownWaker entry (List.mem_append_left _ member)
      have reachable :
          Reachable program N OwnWaker task before :=
        earlier.reachable earlierPermitted
      have lastPermitted : OwnWaker before action :=
        ownWaker (before, action) (by simp)
      have disciplined :=
        Reachable.disciplined_of_safe safe (fun _ _ => id) reachable
      have later :=
        Reachable.disciplined_of_safe safe (fun _ _ => id)
          (reachable.next lastPermitted taken)
      exact
        (inductionHypothesis earlierPermitted).move
          (Reachable.taskCells disciplined)
          (Reachable.resolveInvariant_of_disciplined disciplined).batches
          (Reachable.enqueueInvariant disciplined)
          (Queue.Reachable.phaseInvariant (Reachable.queue disciplined))
          (Reachable.liveInWindow_of_disciplined disciplined)
          (step_move taken)
          (Queue.Reachable.phaseInvariant (Reachable.queue later))
          (Reachable.liveInWindow_of_disciplined later)

/-- A task is at one offset of one batch. -/
theorem IsTask.place_unique
    (enqueue : EnqueueInvariant N task state)
    (phase : PhaseInvariant N state.queue)
    {future batch offset other otherOffset : Nat}
    (isTask : IsTask state batch offset future)
    (also : IsTask state other otherOffset future) :
    batch = other ∧ offset = otherOffset := by
  obtain ⟨handle, found, bounded, within, enqueued⟩ := isTask
  obtain ⟨otherHandle, otherFound, otherBounded, otherWithin,
    otherEnqueued⟩ := also
  have samePosition :
      handle.first + offset = otherHandle.first + otherOffset :=
    enqueue.position_unique enqueued otherEnqueued
  have accepted := enqueue.accepted_of_enqueuer enqueued
  obtain ⟨_, _, only⟩ :=
    phase.partition.exactlyOneRange (handle.first + offset) accepted
  have covers
      {index : Nat}
      {range : Handle}
      (atIndex : state.queue.handles[index]? = some range)
      (isBounded : range.isUnbounded = false)
      (begun : range.first ≤ handle.first + offset)
      (below : handle.first + offset < range.last) :
      ∃ interval : IntervalChain.Interval,
        state.queue.ranges[index]? = some interval ∧
          interval.Covers (handle.first + offset) := by
    refine ⟨_, PhaseInvariant.ranges_getElem? atIndex, ?_⟩
    rw [Handle.span_of_bounded isBounded]
    exact ⟨begun, below⟩
  have sameBatch : batch = other := by
    apply (only batch _).trans (only other _).symm
    · exact covers found bounded (Nat.le_add_right _ _) within
    · apply covers otherFound otherBounded
      · rw [samePosition]
        exact Nat.le_add_right _ _
      · rw [samePosition]
        exact otherWithin
  subst sameBatch
  rw [found] at otherFound
  cases otherFound
  exact ⟨rfl, Nat.add_left_cancel samePosition⟩

end Runs

/-- Each value is passed to the task that it is for. -/
structure Aligned
    (program : Program Task Value)
    (task : Nat → Task)
    (trace : List (State Task Value × Action Value))
    (state : State Task Value) : Prop where
  /-- A future's task is at one offset of one batch. -/
  place :
    ∀ (future batch offset other otherOffset : Nat),
      IsTask state batch offset future →
      IsTask state other otherOffset future →
      batch = other ∧ offset = otherOffset
  /-- No future is passed two values. -/
  passedOnce : (state.passed.map Prod.fst).Nodup
  /-- A future is passed what the method of its batch has for its offset. -/
  passed :
    ∀ entry ∈ state.passed,
      ∃ batch offset method,
        IsTask state batch offset entry.1 ∧
          Consumes trace batch method ∧
          IsAnswer program task (drawn trace batch) offset entry.1 entry.2
            method
  /-- A value that an iterator has yielded is passed, or about to be. -/
  delivered :
    ∀ (batch offset : Nat) (value : Value),
      (drawn trace batch)[offset]? = some value →
      ∃ future,
        IsTask state batch offset future ∧
          ((future, some value) ∈ state.passed ∨
            (offset + 1 = (drawn trace batch).length ∧
              (state.batches batch).isTaking))
  /-- `Ready(v)` comes with the value that was passed. -/
  returned : ∀ entry ∈ state.returned, entry ∈ state.passed

/--
In every run over a safe buffer in which futures keep to their own wakers,
`resolve_with_iter` gives the value at each index of its iterator to the task
at the same index of the batch.
-/
theorem values_align_with_tasks
    {width : PointerWidth}
    (program : Program Task Value)
    (N : BufferSize width)
    (safe : N.IsSafe)
    (task : Nat → Task)
    (trace : List (State Task Value × Action Value))
    (state : State Task Value)
    (run : Run program N task trace state)
    (ownWaker : ∀ taken ∈ trace, OwnWaker taken.1 taken.2) :
    Aligned program task trace state := by
  have invariant := iteratorInvariant_of_run safe run ownWaker
  have reachable : Reachable program N OwnWaker task state :=
    run.reachable ownWaker
  have disciplined :=
    Reachable.disciplined_of_safe safe (fun _ _ => id) reachable
  have values : ValueInvariant state :=
    Reachable.valueInvariant (fun _ _ permitted => permitted.2.1)
      (fun _ _ permitted => permitted.2.2) disciplined
  constructor
  case place =>
    intro future batch offset other otherOffset isTask also
    exact
      isTask.place_unique (Reachable.enqueueInvariant reachable)
        (Queue.Reachable.phaseInvariant (Reachable.queue reachable)) also
  case passedOnce => exact values.once
  case passed => exact invariant.passed
  case delivered => exact invariant.delivered
  case returned =>
    intro entry member
    exact (values.stored entry (values.returned entry member)).1

/-- Two futures share a batch that is resolved with an iterator. -/
def iteratedRun : List (Action Nat) :=
  enqueueFirst ++
    [.poll 1 1, .owner, .owner, .owner, .owner, .finish,
      .assign 0, .invoke 0 .resolveWithIter,
      .visitWith 0 70, .resolve 0, .resolve 0, .resolve 0, .poll 0 0,
      .resolve 0, .visitWith 0 71, .resolve 0, .resolve 0, .resolve 0,
      .resolve 0, .release 0, .steal 0 false, .complete 0, .poll 1 1]

/-- Both futures of the batch get the values at their indices. -/
theorem values_align_with_tasks_iteratedRun :
    ∃ (trace : List (State Nat Nat × Action Nat)) (state : State Nat Nat),
      Run increment smallestBuffer id trace state ∧
        state.returned = [(0, some 70), (1, some 71)] ∧
        Aligned increment id trace state := by
  have performed :
      ((TransitionSystem.executeWhere (step increment smallestBuffer)
          OwnWaker (initial id) iteratedRun).map State.returned) =
        some [(0, some 70), (1, some 71)] := by
    decide +kernel
  obtain ⟨state, reached, returned⟩ := Option.map_eq_some_iff.mp performed
  obtain ⟨trace, run, ownWaker⟩ :=
    TransitionSystem.Run.of_executeWhere TransitionSystem.Run.start
      (fun _ member => by cases member) reached
  exact ⟨trace, state, run, returned,
    values_align_with_tasks increment smallestBuffer smallestBuffer_isSafe
      id trace state run ownWaker⟩

end StackQueue.TaskQueue
