import StackQueue.IteratorAnswers

namespace StackQueue.TaskQueue

open Queue

/-!
# Tasks on their way to their answers

`PassedInvariant` follows a batch that is consumed by `map` through its range:
a task before those it has left was passed to `resolve_unchecked`.
`NotifiedInvariant` follows the wake to the future: a future that waits for
its answer after the resolver's wake has been notified.
-/

variable {Task Value : Type}

/-- How many tasks at the end of its range a batch has not passed yet. -/
def Batch.left? : Batch Value → Option Nat
  | .unspawned | .pending => none
  | .assigned todo | .visiting _ todo => some todo.length
  | .resolving _ todo _ _ .fetchOr => some (todo.length + 1)
  | .resolving _ todo _ _ .write | .resolving _ todo _ _ .wake
  | .resolving _ todo _ _ .fetchXor => some todo.length
  | .releasing | .finished => some 0

/-- The futures whose tasks were passed to `resolve_unchecked`. -/
def State.resolved (state : State Task Value) : List Nat :=
  state.passed.map Prod.fst

/-- The tasks before those that a batch has left were passed. -/
def PassedInvariant (state : State Task Value) : Prop :=
  ∀ (batch left position future : Nat) (handle : Handle),
    state.queue.handles[batch]? = some handle →
    (state.batches batch).left? = some left →
    handle.first ≤ position →
    position + left < handle.last →
    state.enqueuers[position]? = some future →
    future ∈ state.resolved

/-- A future that waits for its answer after the wake has been notified. -/
def NotifiedInvariant (state : State Task Value) : Prop :=
  ∀ future receiver,
    state.futures future = .batched receiver →
    (state.resolutions future).isWoken = true →
    state.notified future = true

section Passing

variable
    {width : PointerWidth}
    {program : Program Task Value}
    {N : BufferSize width}
    {task : Nat → Task}
    {state after : State Task Value}
    {action : Action Value}

theorem PassedInvariant.initial :
    PassedInvariant (TaskQueue.initial task : State Task Value) := by
  intro batch left position future handle found
  cases found

theorem left?_isSome
    {batch : Batch Value}
    {left : Nat}
    (isLeft : batch.left? = some left) :
    batch ≠ .unspawned ∧ batch ≠ .pending := by
  constructor
  · rintro rfl
    cases isLeft
  · rintro rfl
    cases isLeft

/-- What was passed before a step for a batch that has as much left after. -/
theorem PassedInvariant.kept
    (invariant : PassedInvariant state)
    (batches : BatchInvariant N state)
    (enqueue : EnqueueInvariant N task state)
    (phase : PhaseInvariant N state.queue)
    (moved : Move program N state action after)
    (passed : ∀ future ∈ state.resolved, future ∈ after.resolved)
    {batch left position future : Nat}
    {handle : Handle}
    (wasLeft : (state.batches batch).left? = some left)
    (found : after.queue.handles[batch]? = some handle)
    (begun : handle.first ≤ position)
    (before : position + left < handle.last)
    (atPosition : after.enqueuers[position]? = some future) :
    future ∈ after.resolved := by
  obtain ⟨spawned, assigned⟩ := left?_isSome wasLeft
  obtain ⟨old, foundBefore⟩ := batches.exists_handle spawned
  have bounded :=
    (batches.batches batch old foundBefore).notUnbounded spawned assigned
  obtain ⟨kept, foundAfter, _, first, last⟩ :=
    moved.bounded_kept foundBefore bounded
  rw [found] at foundAfter
  cases foundAfter
  rw [first] at begun
  rw [last] at before
  have upTo :=
    (phase.bounded_positions (List.mem_of_getElem? foundBefore) bounded).2
  rw [← enqueue.length_enqueuers] at upTo
  have inBounds : position < state.enqueuers.length := by omega
  have wasThere := List.getElem?_eq_getElem inBounds
  rw [moved.enqueuer_kept wasThere] at atPosition
  apply passed
  apply invariant batch left position future old foundBefore wasLeft begun
    before
  rw [wasThere]
  exact atPosition

/-- A step after which every batch has as much left as before. -/
theorem PassedInvariant.of_left
    (invariant : PassedInvariant state)
    (batches : BatchInvariant N state)
    (enqueue : EnqueueInvariant N task state)
    (phase : PhaseInvariant N state.queue)
    (moved : Move program N state action after)
    (passed : after.passed = state.passed)
    (left_ :
      ∀ batch left,
        (after.batches batch).left? = some left →
        (state.batches batch).left? = some left) :
    PassedInvariant after := by
  intro batch left position future handle found isLeft begun before
    atPosition
  apply invariant.kept batches enqueue phase moved _
    (left_ batch left isLeft) found begun before atPosition
  rw [State.resolved, State.resolved, passed]
  exact fun _ => id

/-- So it is after a step of one batch. -/
theorem left?_of_update
    {before after : Nat → Batch Value}
    {stepping : Nat}
    {next : Batch Value}
    (batches : after = Function.update before stepping next)
    (same :
      ∀ left,
        next.left? = some left →
        (before stepping).left? = some left)
    (batch left : Nat)
    (isLeft : (after batch).left? = some left) :
    (before batch).left? = some left := by
  by_cases here : batch = stepping
  · subst here
    rw [batches, Function.update_self] at isLeft
    exact same left isLeft
  · rw [batches, Function.update_of_ne here] at isLeft
    exact isLeft

/-- A step of one batch, given what the batch itself has passed. -/
theorem PassedInvariant.of_update
    (invariant : PassedInvariant state)
    (batches : BatchInvariant N state)
    (enqueue : EnqueueInvariant N task state)
    (phase : PhaseInvariant N state.queue)
    (moved : Move program N state action after)
    {stepping : Nat}
    {next : Batch Value}
    (updated : after.batches = Function.update state.batches stepping next)
    (grows : ∀ future ∈ state.resolved, future ∈ after.resolved)
    (here :
      ∀ (left position future : Nat) (handle : Handle),
        after.queue.handles[stepping]? = some handle →
        next.left? = some left →
        handle.first ≤ position →
        position + left < handle.last →
        after.enqueuers[position]? = some future →
        future ∈ after.resolved) :
    PassedInvariant after := by
  intro batch left position future handle found isLeft begun before
    atPosition
  by_cases same : batch = stepping
  · subst same
    rw [updated, Function.update_self] at isLeft
    exact here left position future handle found isLeft begun before
      atPosition
  · rw [updated, Function.update_of_ne same] at isLeft
    exact
      invariant.kept batches enqueue phase moved grows isLeft found begun
        before atPosition

/-- The `fetch_or` passes the first of the tasks that were left. -/
theorem PassedInvariant.pass
    (invariant : PassedInvariant state)
    (batches : BatchInvariant N state)
    (enqueue : EnqueueInvariant N task state)
    (phase : PhaseInvariant N state.queue)
    (window : state.queue.LiveInWindow N)
    (moved : Move program N state action after)
    {batch cell : Nat}
    {method : Method}
    {todo : List Nat}
    {value : Option Value}
    {next : Batch Value}
    (resolving :
      state.batches batch = .resolving method todo cell value .fetchOr)
    (isNext : next.left? = some todo.length)
    (handles : after.queue.handles = state.queue.handles)
    (enqueued : after.enqueued = state.enqueued)
    (updated : after.batches = Function.update state.batches batch next)
    (passed :
      after.passed =
        state.passed ++
          (state.queue.buffer cell).rx.toList.map (·, value)) :
    PassedInvariant after := by
  obtain ⟨range, position, future, current, _, rest, _⟩ :=
    batches.resolving_current enqueue window resolving
  have resolved : after.resolved = state.resolved ++ [future] := by
    rw [State.resolved, State.resolved, passed, current.pointer]
    simp
  have grows : ∀ other ∈ state.resolved, other ∈ after.resolved := by
    rw [resolved]
    exact fun _ => List.mem_append_left _
  apply invariant.of_update batches enqueue phase moved updated grows
  intro left index caller handle found isLeft begun before atIndex
  rw [isNext] at isLeft
  cases isLeft
  have foundBefore := found
  rw [handles, current.found] at foundBefore
  cases foundBefore
  have length : todo.length = range.last - (position + 1) := by
    rw [rest, CircularBuffer.length_window]
  have below := current.below
  by_cases isHere : index = position
  · rw [isHere, State.enqueuers_congr enqueued, current.enqueued] at atIndex
    cases atIndex
    rw [resolved]
    exact List.mem_append_right _ (List.mem_singleton_self _)
  · have wasLeft :
        (state.batches batch).left? = some (todo.length + 1) := by
      rw [resolving]
      rfl
    exact
      invariant.kept batches enqueue phase moved grows wasLeft found begun
        (by omega) atIndex

/-- A batch that is assigned has all tasks of its range left. -/
theorem PassedInvariant.assign
    (invariant : PassedInvariant state)
    (batches : BatchInvariant N state)
    (enqueue : EnqueueInvariant N task state)
    (phase : PhaseInvariant N state.queue)
    (moved : Move program N state action after)
    {batch : Nat}
    {handle : Handle}
    {range : CounterRange}
    (found : after.queue.handles[batch]? = some handle)
    (bounded : handle.stage = .bounded range)
    (phaseAfter : PhaseInvariant N after.queue)
    (windowAfter : after.queue.LiveInWindow N)
    (updated :
      after.batches =
        Function.update state.batches batch
          (.assigned (taskIndices N range)))
    (passed : after.passed = state.passed) :
    PassedInvariant after := by
  have grows : ∀ other ∈ state.resolved, other ∈ after.resolved := by
    rw [State.resolved, State.resolved, passed]
    exact fun _ => id
  apply invariant.of_update batches enqueue phase moved updated grows
  intro left position future other foundAgain isLeft begun before _
  rw [found] at foundAgain
  cases foundAgain
  have member := List.mem_of_getElem? found
  have nonempty :=
    (phaseAfter.bounded_positions member
      (IsBounded.notUnbounded ⟨range, bounded⟩)).1
  have length :
      (taskIndices N range).length = handle.last - handle.first := by
    rw [windowAfter.taskIndices_of_live phaseAfter member bounded,
      CircularBuffer.length_window]
  simp only [Batch.left?, length, Option.some.injEq] at isLeft
  omega

/-- With batches consumed by `map`, no task of a range is left out. -/
theorem PassedInvariant.move
    (invariant : PassedInvariant state)
    (answers : AnswerInvariant program task state)
    (batches : BatchInvariant N state)
    (enqueue : EnqueueInvariant N task state)
    (phase : PhaseInvariant N state.queue)
    (window : state.queue.LiveInWindow N)
    (moved : Move program N state action after)
    (phaseAfter : PhaseInvariant N after.queue)
    (windowAfter : after.queue.LiveInWindow N) :
    PassedInvariant after := by
  have isMove := moved
  cases moved with
  | call _ _ _ | ready _ _ | idlePoll _ | owner _ | refuse _ _ | join _ _
  | retry _ | steal _ _ _ | dropBatched _ _ | dropUnbatched _ _
  | dropReceived _ | spin _ _ | dropReturn _ _ =>
      exact
        invariant.of_left batches enqueue phase isMove rfl fun _ _ => id
  | spawn _ _ =>
      apply invariant.of_left batches enqueue phase isMove rfl
      apply left?_of_update rfl
      intro left isLeft
      cases isLeft
  | assign _ _ _ foundAfter bounded =>
      exact
        invariant.assign batches enqueue phase isMove foundAfter bounded
          phaseAfter windowAfter rfl rfl
  | invoke at_ | visitMap at_ | visitWith at_ | complete at_ _ =>
      apply invariant.of_left batches enqueue phase isMove rfl
      apply
        left?_of_update
          (rfl : _ = Function.update state.batches _ _)
      intro left isLeft
      rw [at_]
      exact isLeft
  | @visitDrop batch _ _ visiting =>
      have valueAt := answers.batches batch
      rw [visiting] at valueAt
      cases valueAt
  | resolve resolving moved =>
      cases moved with
      | setting _ | discard _ =>
          exact
            invariant.pass batches enqueue phase window isMove resolving
              rfl rfl rfl rfl rfl
      | write _ | wake _ | fetchXor =>
          apply invariant.of_left batches enqueue phase isMove rfl
          apply
            left?_of_update
              (rfl : _ = Function.update state.batches _ _)
          intro left isLeft
          rw [resolving]
          exact isLeft
  | @release batch method todo handle range visiting done found bounded =>
      have valueAt := answers.batches batch
      rw [visiting] at valueAt
      have isMap : method = .map := valueAt
      rw [isMap, Method.isDone, List.isEmpty_iff] at done
      apply invariant.of_left batches enqueue phase isMove rfl
      apply left?_of_update rfl
      intro left isLeft
      rw [visiting, done]
      exact isLeft

/-- Along a run in which batches are consumed by `map`. -/
theorem Reachable.passedInvariant
    (reachable :
      Reachable program N (Disciplined N MapsBatches) task state) :
    PassedInvariant state := by
  refine TransitionSystem.Reachable.invariant PassedInvariant.initial ?_
    reachable
  intro before after action earlier invariant permitted taken
  have later : Reachable program N (Disciplined N MapsBatches) task after :=
    .next earlier permitted taken
  exact
    invariant.move (Reachable.answerInvariant earlier)
      (Reachable.resolveInvariant_of_disciplined earlier).batches
      (Reachable.enqueueInvariant earlier)
      (Queue.Reachable.phaseInvariant (Reachable.queue earlier))
      (Reachable.liveInWindow_of_disciplined earlier) (step_move taken)
      (Queue.Reachable.phaseInvariant (Reachable.queue later))
      (Reachable.liveInWindow_of_disciplined later)

end Passing

/-! ## Wakes that reach their futures -/

section Waking

variable
    {width : PointerWidth}
    {program : Program Task Value}
    {N : BufferSize width}
    {task : Nat → Task}
    {state after : State Task Value}
    {action : Action Value}

theorem NotifiedInvariant.initial :
    NotifiedInvariant (TaskQueue.initial task : State Task Value) := by
  intro future receiver holds
  cases holds

/-- A step that wakes nobody and clears no wake of a batched future. -/
theorem NotifiedInvariant.of_frame
    (invariant : NotifiedInvariant state)
    (batched :
      ∀ future receiver,
        after.futures future = .batched receiver →
        (∃ old, state.futures future = .batched old) ∨
          (after.resolutions future).isWoken = false)
    (woken :
      ∀ future,
        (after.resolutions future).isWoken = true →
        (state.resolutions future).isWoken = true)
    (notified :
      ∀ future receiver,
        after.futures future = .batched receiver →
        state.notified future = true →
        after.notified future = true) :
    NotifiedInvariant after := by
  intro future receiver holds isWoken
  rcases batched future receiver holds with ⟨old, held⟩ | notWoken
  · apply notified future receiver holds
    exact invariant future old held (woken future isWoken)
  · rw [isWoken] at notWoken
    cases notWoken

/-- A step that leaves the futures and the wakes alone. -/
theorem NotifiedInvariant.of_same
    (invariant : NotifiedInvariant state)
    (futures : after.futures = state.futures)
    (notified : after.notified = state.notified)
    (woken :
      ∀ future,
        (after.resolutions future).isWoken = true →
        (state.resolutions future).isWoken = true) :
    NotifiedInvariant after := by
  apply invariant.of_frame
  · intro future receiver holds
    rw [futures] at holds
    exact Or.inl ⟨receiver, holds⟩
  · exact woken
  · rw [notified]
    exact fun _ _ _ => id

/-- A step that takes one future out of its `Batched` state, or nowhere. -/
theorem NotifiedInvariant.of_future
    (invariant : NotifiedInvariant state)
    {future : Nat}
    {stage : Future Task Value}
    (futures :
      after.futures = Function.update state.futures future stage)
    (batched :
      ∀ receiver,
        stage = .batched receiver →
        ∃ old, state.futures future = .batched old)
    (notified :
      ∀ other receiver,
        after.futures other = .batched receiver →
        state.notified other = true →
        after.notified other = true)
    (woken :
      ∀ other,
        (after.resolutions other).isWoken = true →
        (state.resolutions other).isWoken = true) :
    NotifiedInvariant after := by
  refine invariant.of_frame ?_ woken notified
  intro other receiver holds
  left
  by_cases same : other = future
  · rw [same, futures, Function.update_self] at holds
    rw [same]
    exact batched receiver holds
  · rw [futures, Function.update_of_ne same] at holds
    exact ⟨receiver, holds⟩

/-- Marking a task as woken wakes no other task. -/
theorem woken_of_update
    {before after : Nat → Resolution}
    {marked future : Nat}
    {next : Resolution}
    (resolutions : after = Function.update before marked next)
    (wasWoken :
      next.isWoken = true → (before marked).isWoken = true)
    (isWoken : (after future).isWoken = true) :
    (before future).isWoken = true := by
  by_cases same : future = marked
  · rw [same, resolutions, Function.update_self] at isWoken
    rw [same]
    exact wasWoken isWoken
  · rw [resolutions, Function.update_of_ne same] at isWoken
    exact isWoken

/-- A poll clears the wake of no future but its own. -/
theorem NotifiedInvariant.beginPoll
    (invariant : NotifiedInvariant state)
    {future waker : Nat}
    (own : waker = future)
    (notBatched :
      ∀ receiver, state.futures future ≠ .batched receiver) :
    NotifiedInvariant (state.beginPoll future waker) := by
  apply invariant.of_frame
  · exact fun other receiver batched => Or.inl ⟨receiver, batched⟩
  · exact fun _ => id
  · intro other receiver batched notified
    have differs : other ≠ waker := by
      rintro rfl
      rw [own] at batched
      exact notBatched receiver batched
    simpa [State.beginPoll, Function.update_of_ne differs] using notified

/-- A future that is being enqueued has not been resolved. -/
theorem NotifiedInvariant.ownerMove
    (invariant : NotifiedInvariant state)
    (resolve : ResolveInvariant N state)
    (enqueue : EnqueueInvariant N task state)
    {queue : Queue.State (TaskRef Task) Nat}
    (moved : OwnerMove N state.queue queue) :
    NotifiedInvariant { state.progress with queue := queue } := by
  cases moved with
  | @write _ index at_ =>
      have callAt := enqueue.callAt
      rw [at_] at callAt
      obtain ⟨call, called, _, holds⟩ := callAt
      have fresh := (enqueue.unbatched _ _ holds).2
      have futures :
          state.progress.futures =
            Function.update state.futures call.future
              (.batched ⟨index, none, call.waker⟩) := by
        simp [State.progress, at_, called]
      apply invariant.of_frame
      · intro future receiver batched
        by_cases same : future = call.future
        · right
          change (state.resolutions future).isWoken = false
          rw [same, resolve.words.notEnqueued _ fresh]
          rfl
        · left
          change state.progress.futures future = _ at batched
          rw [futures, Function.update_of_ne same] at batched
          exact ⟨receiver, batched⟩
      · exact fun _ => id
      · exact fun _ _ _ => id
  | add at_ | occupy at_ | enterAtBoundary at_ _ | enterInside at_ _
  | cachedFree at_ _ | cachedBusy at_ _ | loadedFree at_ _
  | loadedBusy at_ _ | replaceJoined at_ _ | replaceOpening at_ _ =>
      refine invariant.of_same ?_ rfl fun _ => id
      simp [State.progress, at_]

/-- A wake takes no wake back. -/
theorem notified_of_notify
    {future : Nat}
    (notified : state.notified future = true)
    (woken : Option Nat) :
    (state.notify woken).notified future = true := by
  cases woken with
  | none => exact notified
  | some waker =>
      by_cases same : future = waker
      · simp [State.notify, same]
      · simpa [State.notify, same] using notified

/-- The wake of a resolver notifies the future of its own task. -/
theorem NotifiedInvariant.resolveMove
    (invariant : NotifiedInvariant state)
    (wakers : WakerInvariant state)
    (resolve : ResolveInvariant N state)
    (enqueue : EnqueueInvariant N task state)
    (window : state.queue.LiveInWindow N)
    {batch cell : Nat}
    {method : Method}
    {todo : List Nat}
    {value : Option Value}
    {point : ResolvePoint}
    (resolving :
      state.batches batch = .resolving method todo cell value point)
    (moved :
      ResolveMove state batch method todo cell value point after) :
    NotifiedInvariant after := by
  obtain ⟨future, pointer, resolution⟩ :=
    resolve.resolving_task enqueue window resolving
  have marked (update : Nat → Nat) (next : Resolution) :
      ((state.updateCell cell (TaskRef.updateState update)).mark cell
          next).resolutions =
        Function.update state.resolutions future next :=
    State.updateCell_mark_resolutions (TaskRef.updateState_rx update)
      pointer
  have notWoken
      {next : Resolution}
      (pending : next.isWoken = false)
      (isWoken : next.isWoken = true) :
      (state.resolutions future).isWoken = true := by
    rw [pending] at isWoken
    cases isWoken
  cases moved with
  | setting _ =>
      refine invariant.of_same rfl rfl fun other isWoken => ?_
      exact
        woken_of_update (marked (· ||| settingValue) .setting)
          (notWoken rfl) isWoken
  | discard _ =>
      refine invariant.of_same rfl rfl fun other isWoken => ?_
      exact
        woken_of_update (marked (· ||| settingValue) .discarded)
          (notWoken rfl) isWoken
  | @write rx _ =>
      have resolutions :
          (state.mark cell .stored).resolutions =
            Function.update state.resolutions future .stored :=
        State.mark_resolutions pointer
      refine invariant.of_future rfl ?_ (fun _ _ _ => id) ?_
      · intro receiver stored
        cases holds : state.futures rx with
        | batched old => exact ⟨old, rfl⟩
        | unbatched held | received | dropping old seen | dropped =>
            rw [holds] at stored
            cases stored
      · intro other isWoken
        exact woken_of_update resolutions (notWoken rfl) isWoken
  | wake isPointer =>
      rw [isPointer] at pointer
      cases pointer
      have resolutions :
          (state.mark cell .woken).resolutions =
            Function.update state.resolutions future .woken :=
        State.mark_resolutions isPointer
      intro other receiver holds isWoken
      change state.futures other = .batched receiver at holds
      by_cases same : other = future
      · rw [same] at holds ⊢
        have isReceiver := Future.receiver?_of_batched holds
        have ownWaker := wakers.receivers future receiver isReceiver
        change
          (State.notify state
            ((state.futures future).receiver?.map
              Receiver.waker)).notified future = true
        rw [isReceiver, Option.map_some, ownWaker]
        exact Function.update_self _ _ _
      · have wasWoken : (state.resolutions other).isWoken = true := by
          change
            ((state.mark cell .woken).resolutions other).isWoken =
              true at isWoken
          rw [resolutions, Function.update_of_ne same] at isWoken
          exact isWoken
        have notified := invariant other receiver holds wasWoken
        exact notified_of_notify notified _
  | fetchXor =>
      refine invariant.of_same rfl rfl fun other isWoken => ?_
      refine
        woken_of_update (marked (· ^^^ (settingValue ||| valueSet)) .set)
          (fun _ => ?_) isWoken
      rw [resolution]
      rfl

/-- Every step lets the wakes reach their futures. -/
theorem NotifiedInvariant.move
    (invariant : NotifiedInvariant state)
    (wakers : WakerInvariant state)
    (resolve : ResolveInvariant N state)
    (enqueue : EnqueueInvariant N task state)
    (phase : PhaseInvariant N state.queue)
    (window : state.queue.LiveInWindow N)
    (ownWaker : OwnWaker state action)
    (moved : Move program N state action after) :
    NotifiedInvariant after := by
  have visited
      {future : Nat}
      (isWoken : Resolution.visited.isWoken = true) :
      (state.resolutions future).isWoken = true := by
    cases isWoken
  cases moved with
  | call holds _ _ =>
      refine
        (invariant.beginPoll ownWaker.1 ?_).of_same rfl rfl fun _ => id
      rw [holds]
      exact fun receiver same => by cases same
  | @ready future waker receiver _ holds =>
      refine invariant.of_future rfl ?_ ?_ fun _ => id
      · intro other same
        cases same
      · intro other otherReceiver batched notified
        have differs : other ≠ waker := by
          rintro rfl
          rw [ownWaker.1] at batched
          simp [State.setFuture] at batched
        simpa [State.beginPoll, State.setFuture,
          Function.update_of_ne differs] using notified
  | idlePoll holds =>
      refine invariant.beginPoll ownWaker.1 ?_
      rw [holds]
      exact fun receiver same => by cases same
  | owner moved =>
      exact invariant.ownerMove resolve enqueue moved
  | resolve resolving moved =>
      exact
        invariant.resolveMove wakers resolve enqueue window resolving moved
  | visitMap visiting | visitDrop visiting =>
      obtain ⟨future, pointer, _⟩ :=
        resolve.visiting_task enqueue phase window visiting
      refine invariant.of_same rfl rfl fun other isWoken => ?_
      exact
        woken_of_update
          (State.updateCell_mark_resolutions
            TaskRef.takeTaskUnchecked_rx pointer)
          visited isWoken
  | visitWith visiting =>
      obtain ⟨future, pointer, _⟩ :=
        resolve.visiting_task enqueue phase window visiting
      refine invariant.of_same rfl rfl fun other isWoken => ?_
      refine
        woken_of_update
          (State.updateCell_mark_resolutions (fun _ => ?_) pointer)
          visited isWoken
      split
      · rfl
      · rfl
  | refuse _ _ | join _ _ | spawn _ _ | assign _ _ _ _ _ | invoke _
  | release _ _ _ _ | retry _ | complete _ _ =>
      exact invariant.of_same rfl rfl fun _ => id
  | steal _ _ _ =>
      apply invariant.of_frame
      · exact fun other receiver batched => Or.inl ⟨receiver, batched⟩
      · exact fun _ => id
      · exact fun _ _ _ notified => notified_of_notify notified _
  | dropBatched _ holds | dropUnbatched _ holds | dropReceived holds
  | spin holds _ | dropReturn holds _ =>
      refine invariant.of_future rfl ?_ (fun _ _ _ => id) fun _ => id
      intro receiver same
      cases same

/-- Along a run whose futures keep to their own wakers. -/
theorem Reachable.notifiedInvariant
    {allowed : State Task Value → Action Value → Prop}
    (ownWaker :
      ∀ state action, allowed state action → OwnWaker state action)
    (reachable :
      Reachable program N (Disciplined N allowed) task state) :
    NotifiedInvariant state :=
  TransitionSystem.Reachable.invariant NotifiedInvariant.initial
    (fun earlier invariant permitted taken =>
      invariant.move (Reachable.wakerInvariant ownWaker earlier)
        (Reachable.resolveInvariant_of_disciplined earlier)
        (Reachable.enqueueInvariant earlier)
        (Queue.Reachable.phaseInvariant (Reachable.queue earlier))
        (Reachable.liveInWindow_of_disciplined earlier)
        (ownWaker _ _ permitted.1) (step_move taken))
    reachable

end Waking

end StackQueue.TaskQueue
