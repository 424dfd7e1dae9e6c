import StackQueue.TaskQueue

namespace StackQueue.TaskQueue

open Queue

/-!
# The moves of futures and resolvers

One constructor for each path through `step` and `resolveUnchecked`, and what
the moves are for the queue inside.
-/

variable {Task Value : Type}

/-- A batched future contains its receiver. -/
theorem Future.receiver?_of_batched
    {future : Future Task Value}
    {receiver : Receiver Value}
    (holds : future = .batched receiver) :
    future.receiver? = some receiver := by
  rw [holds]
  rfl

/-- So does a future within its drop. -/
theorem Future.receiver?_of_dropping
    {future : Future Task Value}
    {receiver : Receiver Value}
    {seen : Nat}
    (holds : future = .dropping receiver seen) :
    future.receiver? = some receiver := by
  rw [holds]
  rfl

/-- The accesses of `resolve_unchecked`, one constructor for each path. -/
inductive ResolveMove
    (state : State Task Value)
    (batch : Nat)
    (method : Method)
    (todo : List Nat)
    (cell : Nat)
    (value : Option Value) :
    ResolvePoint → State Task Value → Prop where
  | setting
      (alive :
        (state.queue.buffer cell).state &&& rxDropped = 0) :
      ResolveMove state batch method todo cell value .fetchOr
        ((((state.pass cell value).updateCell cell
          (TaskRef.updateState (· ||| settingValue))).mark cell
            .setting).setBatch batch
              (.resolving method todo cell value .write))
  | discard
      (dropped :
        (state.queue.buffer cell).state &&& rxDropped ≠ 0) :
      ResolveMove state batch method todo cell value .fetchOr
        { (((state.pass cell value).updateCell cell
            (TaskRef.updateState (· ||| settingValue))).mark cell
              .discarded).setBatch batch (.visiting method todo) with
          destroyed :=
            state.destroyed ++
              (state.queue.buffer cell).rx.toList.map (·, value) }
  | write
      {rx : Nat}
      (pointer : (state.queue.buffer cell).rx = some rx) :
      ResolveMove state batch method todo cell value .write
        { ((state.mark cell .stored).setFuture rx
            ((state.futures rx).store value)).setBatch batch
              (.resolving method todo cell value .wake) with
          stored := state.stored ++ [(rx, value)] }
  | wake
      {rx : Nat}
      (pointer : (state.queue.buffer cell).rx = some rx) :
      ResolveMove state batch method todo cell value .wake
        (((state.mark cell .woken).notify
          ((state.futures rx).receiver?.map Receiver.waker)).setBatch
            batch (.resolving method todo cell value .fetchXor))
  | fetchXor :
      ResolveMove state batch method todo cell value .fetchXor
        (((state.updateCell cell (TaskRef.updateState
          (· ^^^ (settingValue ||| valueSet)))).mark cell .set).setBatch
            batch (.visiting method todo))

/-- The moves of the whole system. -/
inductive Move
    {width : PointerWidth}
    (program : Program Task Value)
    (N : BufferSize width)
    (state : State Task Value) :
    Action Value → State Task Value → Prop where
  | call
      {future waker : Nat}
      {task : Task}
      (holds : state.futures future = .unbatched task)
      (noCall : state.polling = none)
      (idle : state.queue.owner = .idle) :
      Move program N state (.poll future waker)
        { state.beginPoll future waker with
          polling := some ⟨future, waker, task⟩
          queue :=
            { state.queue with
              owner := .entered (TaskRef.init task future) } }
  | ready
      {future waker : Nat}
      {receiver : Receiver Value}
      (outside : state.isPolling future = false)
      (holds : state.futures future = .batched receiver) :
      Move program N state (.poll future waker)
        { (state.beginPoll future waker).setFuture future .received with
          returned := state.returned ++ [(future, receiver.value)] }
  | idlePoll
      {future waker : Nat}
      (holds : state.futures future = .received) :
      Move program N state (.poll future waker)
        (state.beginPoll future waker)
  | owner
      {queue : Queue.State (TaskRef Task) Nat}
      (moved : OwnerMove N state.queue queue) :
      Move program N state .owner { state.progress with queue := queue }
  | refuse
      {call : Call Task}
      (called : state.polling = some call)
      (at_ : state.queue.owner = .returning .queueFull) :
      Move program N state .finish
        { state with
          polling := none
          queue :=
            { state.queue with
              owner := .idle
              pending := state.queue.pending ++ [call.waker] } }
  | join
      {call : Call Task}
      (called : state.polling = some call)
      (at_ : state.queue.owner = .returning .joined) :
      Move program N state .finish
        { state with
          polling := none
          queue := { state.queue with owner := .idle } }
  | spawn
      {call : Call Task}
      {batch : Nat}
      (called : state.polling = some call)
      (at_ : state.queue.owner = .returning (.opened batch)) :
      Move program N state .finish
        { state.setBatch batch .pending with
          polling := none
          queue := { state.queue with owner := .idle } }
  | assign
      {batch : Nat}
      {old new : Handle}
      {range : CounterRange}
      (pending : state.batches batch = .pending)
      (found : state.queue.handles[batch]? = some old)
      (unbounded : old.stage = .unbounded)
      (foundAfter :
        (Queue.setBounds width state.queue batch old).handles[batch]? =
          some new)
      (bounded : new.stage = .bounded range) :
      Move program N state (.assign batch)
        { state.setBatch batch (.assigned (taskIndices N range)) with
          queue := Queue.setBounds width state.queue batch old }
  | invoke
      {batch : Nat}
      {method : Method}
      {todo : List Nat}
      (assigned : state.batches batch = .assigned todo) :
      Move program N state (.invoke batch method)
        (state.setBatch batch (.visiting method todo))
  | visitMap
      {batch cell : Nat}
      {todo : List Nat}
      (visiting : state.batches batch = .visiting .map (cell :: todo)) :
      Move program N state (.visit batch)
        { ((state.updateCell cell TaskRef.takeTaskUnchecked).mark cell
            .visited).setBatch batch
              (.resolving .map todo cell
                ((state.queue.buffer cell).task.map program.op)
                .fetchOr) with
          applied :=
            state.applied ++ [(batch, (state.queue.buffer cell).task)] }
  | visitDrop
      {batch cell : Nat}
      {todo : List Nat}
      (visiting : state.batches batch = .visiting .drop (cell :: todo)) :
      Move program N state (.visit batch)
        (((state.updateCell cell TaskRef.takeTaskUnchecked).mark cell
          .visited).setBatch batch (.visiting .drop todo))
  | visitWith
      {batch cell : Nat}
      {todo : List Nat}
      {value : Value}
      (visiting :
        state.batches batch =
          .visiting .resolveWithIter (cell :: todo)) :
      Move program N state (.visitWith batch value)
        (((state.updateCell cell
          (if program.needsDrop then TaskRef.takeTaskUnchecked
            else id)).mark cell .visited).setBatch batch
              (.resolving .resolveWithIter todo cell (some value)
                .fetchOr))
  | resolve
      {batch cell : Nat}
      {method : Method}
      {todo : List Nat}
      {value : Option Value}
      {point : ResolvePoint}
      {after : State Task Value}
      (resolving :
        state.batches batch = .resolving method todo cell value point)
      (moved :
        ResolveMove state batch method todo cell value point after) :
      Move program N state (.resolve batch) after
  | release
      {batch : Nat}
      {method : Method}
      {todo : List Nat}
      {handle : Handle}
      {range : CounterRange}
      (visiting : state.batches batch = .visiting method todo)
      (done : method.isDone program.needsDrop todo = true)
      (found : state.queue.handles[batch]? = some handle)
      (bounded : handle.stage = .bounded range) :
      Move program N state (.release batch)
        { state.setBatch batch .releasing with
          queue := Queue.deoccupyRegion N state.queue batch handle range }
  | retry
      {batch : Nat}
      (releasing : state.batches batch = .releasing) :
      Move program N state (.steal batch true) state
  | steal
      {batch batchLimit : Nat}
      {handle : Handle}
      (releasing : state.batches batch = .releasing)
      (found : state.queue.handles[batch]? = some handle)
      (draining : handle.stage = .draining batchLimit) :
      Move program N state (.steal batch false)
        { state.notify state.queue.pending.head? with
          queue := Queue.steal state.queue batch handle batchLimit }
  | complete
      {batch : Nat}
      (releasing : state.batches batch = .releasing)
      (released : state.hasReleased batch = true) :
      Move program N state (.complete batch)
        (state.setBatch batch .finished)
  | dropBatched
      {future : Nat}
      {receiver : Receiver Value}
      (outside : state.isPolling future = false)
      (holds : state.futures future = .batched receiver) :
      Move program N state (.drop future)
        ((state.updateCell receiver.state
          (TaskRef.updateState (· ||| rxDropped))).setFuture future
            (.dropping receiver
              (state.queue.buffer receiver.state).state))
  | dropUnbatched
      {future : Nat}
      {task : Task}
      (outside : state.isPolling future = false)
      (holds : state.futures future = .unbatched task) :
      Move program N state (.drop future)
        (state.setFuture future .dropped)
  | dropReceived
      {future : Nat}
      (holds : state.futures future = .received) :
      Move program N state (.drop future)
        (state.setFuture future .dropped)
  | spin
      {future seen : Nat}
      {receiver : Receiver Value}
      (holds : state.futures future = .dropping receiver seen)
      (waits : isSetting seen = true) :
      Move program N state (.spin future)
        (state.setFuture future
          (.dropping receiver
            (state.queue.buffer receiver.state).state))
  | dropReturn
      {future seen : Nat}
      {receiver : Receiver Value}
      (holds : state.futures future = .dropping receiver seen)
      (clear : isSetting seen = false) :
      Move program N state (.spin future)
        { state.setFuture future .dropped with
          destroyed :=
            state.destroyed ++
              if program.needsDrop ∧ seen &&& valueSet = valueSet then
                [(future, receiver.value)]
              else
                [] }

/-- A step of the queue leaves the futures and the batches alone. -/
theorem onQueue_some
    {width : PointerWidth}
    {N : BufferSize width}
    {state after : State Task Value}
    {action : Queue.Action (TaskRef Task) Nat}
    (taken : state.onQueue N action = some after) :
    ∃ queue,
      Queue.step N state.queue action = some queue ∧
        { state with queue := queue } = after := by
  rw [State.onQueue, Option.map_eq_some_iff] at taken
  exact taken

/-- `resolve_unchecked` makes no other move. -/
theorem resolveUnchecked_move
    {state after : State Task Value}
    {batch cell : Nat}
    {method : Method}
    {todo : List Nat}
    {value : Option Value}
    {point : ResolvePoint}
    (taken :
      resolveUnchecked state batch method todo cell value point =
        some after) :
    ResolveMove state batch method todo cell value point after := by
  cases point with
  | fetchOr =>
      simp only [resolveUnchecked] at taken
      split at taken <;> cases taken
      · rename_i alive
        exact .setting alive
      · rename_i dropped
        exact .discard dropped
  | write =>
      simp only [resolveUnchecked] at taken
      split at taken <;> cases taken
      rename_i rx pointer
      exact .write pointer
  | wake =>
      simp only [resolveUnchecked] at taken
      split at taken <;> cases taken
      rename_i rx pointer
      exact .wake pointer
  | fetchXor =>
      cases taken
      exact .fetchXor

/-- `step` makes no other move. -/
theorem step_move
    {width : PointerWidth}
    {program : Program Task Value}
    {N : BufferSize width}
    {state after : State Task Value}
    {action : Action Value}
    (taken : step program N state action = some after) :
    Move program N state action after := by
  cases action with
  | poll future waker =>
      simp only [step] at taken
      split at taken
      · cases taken
      · rename_i outside
        rw [Bool.not_eq_true] at outside
        split at taken
        · rename_i task holds noCall
          obtain ⟨queue, stepped, shape⟩ := onQueue_some taken
          subst shape
          cases Queue.step_move stepped with
          | call idle => exact .call holds noCall idle
        · rename_i receiver holds
          cases taken
          exact .ready outside holds
        · rename_i holds
          cases taken
          exact .idlePoll holds
        · cases taken
  | owner =>
      obtain ⟨queue, stepped, shape⟩ := onQueue_some taken
      subst shape
      cases Queue.step_move stepped with
      | owner moved => exact .owner moved
  | finish =>
      simp only [step] at taken
      split at taken
      · rename_i call called at_
        obtain ⟨queue, stepped, shape⟩ := onQueue_some taken
        subst shape
        cases Queue.step_move stepped with
        | register _ => exact .refuse called at_
      · rename_i call called at_
        obtain ⟨queue, stepped, shape⟩ := onQueue_some taken
        subst shape
        cases Queue.step_move stepped with
        | finish _ => exact .join called at_
      · rename_i call batch called at_
        obtain ⟨queue, stepped, shape⟩ := onQueue_some taken
        subst shape
        cases Queue.step_move stepped with
        | finish _ => exact .spawn called at_
      · cases taken
  | assign batch =>
      simp only [step] at taken
      split at taken
      · rename_i pending
        obtain ⟨middle, bounded, rest⟩ := Option.bind_eq_some_iff.mp taken
        obtain ⟨queue, stepped, shape⟩ := onQueue_some bounded
        subst shape
        obtain ⟨range, ranged, shape⟩ := Option.map_eq_some_iff.mp rest
        subst shape
        obtain ⟨handle, found, counters⟩ :=
          Option.bind_eq_some_iff.mp ranged
        have stage : handle.stage = .bounded range := by
          unfold Handle.range? at counters
          split at counters
          · rename_i stage
            cases counters
            exact stage
          · cases counters
        cases Queue.step_move stepped with
        | setBounds foundBefore unbounded =>
            exact .assign pending foundBefore unbounded found stage
      · cases taken
  | invoke batch method =>
      simp only [step] at taken
      split at taken <;> cases taken
      rename_i todo assigned
      exact .invoke assigned
  | visit batch =>
      simp only [step] at taken
      split at taken
      · rename_i cell todo visiting
        cases taken
        exact .visitMap visiting
      · rename_i cell todo visiting
        split at taken <;> cases taken
        exact .visitDrop visiting
      · cases taken
  | visitWith batch value =>
      simp only [step] at taken
      split at taken <;> cases taken
      rename_i cell todo visiting
      exact .visitWith visiting
  | resolve batch =>
      simp only [step] at taken
      split at taken
      · rename_i method todo cell value point resolving
        exact .resolve resolving (resolveUnchecked_move taken)
      · cases taken
  | release batch =>
      simp only [step] at taken
      split at taken
      · rename_i method todo visiting
        split at taken
        · rename_i done
          obtain ⟨queue, stepped, shape⟩ := onQueue_some taken
          subst shape
          cases Queue.step_move stepped with
          | deoccupyRegion found bounded =>
              exact .release visiting done found bounded
        · cases taken
      · cases taken
  | steal batch retry =>
      cases retry with
      | true =>
          simp only [step] at taken
          split at taken
          · rename_i releasing
            obtain ⟨queue, stepped, shape⟩ := onQueue_some taken
            subst shape
            cases Queue.step_move stepped with
            | retry _ _ => exact .retry releasing
          · cases taken
      | false =>
          simp only [step] at taken
          split at taken
          · rename_i releasing
            obtain ⟨queue, stepped, shape⟩ := onQueue_some taken
            subst shape
            cases Queue.step_move stepped with
            | steal found draining =>
                exact .steal releasing found draining
          · cases taken
  | complete batch =>
      simp only [step] at taken
      split at taken
      · rename_i releasing
        split at taken <;> cases taken
        rename_i released
        exact .complete releasing released
      · cases taken
  | drop future =>
      simp only [step] at taken
      split at taken
      · cases taken
      · rename_i outside
        rw [Bool.not_eq_true] at outside
        split at taken
        · rename_i receiver holds
          cases taken
          exact .dropBatched outside holds
        · rename_i task holds
          cases taken
          exact .dropUnbatched outside holds
        · rename_i holds
          cases taken
          exact .dropReceived holds
        · cases taken
  | spin future =>
      simp only [step] at taken
      split at taken
      · rename_i receiver seen holds
        split at taken
        · rename_i waits
          cases taken
          exact .spin holds ((and_settingValue_eq_iff seen).mp waits)
        · rename_i clear
          cases taken
          refine .dropReturn holds ?_
          rw [← Bool.not_eq_true, ← and_settingValue_eq_iff]
          exact clear
      · cases taken

/-! ## The queue inside -/

section Queues

variable
    {width : PointerWidth}
    {program : Program Task Value}
    {N : BufferSize width}
    {state after : State Task Value}

/-- `resolve_unchecked` changes at most one cell of the queue. -/
theorem ResolveMove.queue
    {batch cell : Nat}
    {method : Method}
    {todo : List Nat}
    {value : Option Value}
    {point : ResolvePoint}
    (moved :
      ResolveMove state batch method todo cell value point after) :
    after.queue = state.queue ∨
      ∃ update, after.queue = state.queue.updateCell cell update := by
  cases moved with
  | setting _ | discard _ | fetchXor => exact Or.inr ⟨_, rfl⟩
  | write _ | wake _ => exact Or.inl rfl

/-- A move of the machine is at most one move of its queue. -/
theorem Move.queue
    {action : Action Value}
    (moved : Move program N state action after) :
    after.queue = state.queue ∨
      ∃ queueAction,
        Queue.Move N state.queue queueAction after.queue ∧
          (queueAction = .owner → action = .owner) := by
  cases moved with
  | ready _ _ | idlePoll _ | invoke _ | retry _ | complete _ _
  | dropUnbatched _ _ | dropReceived _ | spin _ _ | dropReturn _ _ =>
      exact Or.inl rfl
  | call _ _ idle =>
      exact Or.inr ⟨_, .call idle, fun same => by cases same⟩
  | owner moved =>
      exact Or.inr ⟨_, .owner moved, fun _ => rfl⟩
  | refuse _ at_ =>
      exact Or.inr ⟨_, .register at_, fun same => by cases same⟩
  | join _ at_ | spawn _ at_ =>
      exact Or.inr ⟨_, .finish at_, fun same => by cases same⟩
  | assign _ found unbounded _ _ =>
      exact Or.inr ⟨_, .setBounds found unbounded,
        fun same => by cases same⟩
  | visitMap _ | visitDrop _ | visitWith _ | dropBatched _ _ =>
      exact Or.inr ⟨_, .touch, fun same => by cases same⟩
  | resolve _ moved =>
      refine moved.queue.imp_right fun ⟨update, queue⟩ => ?_
      rw [queue]
      exact ⟨_, .touch, fun same => by cases same⟩
  | release _ _ found bounded =>
      exact Or.inr ⟨_, .deoccupyRegion found bounded,
        fun same => by cases same⟩
  | steal _ found draining =>
      exact Or.inr ⟨_, .steal found draining,
        fun same => by cases same⟩

/-- The queue inside a run of the machine makes a run of its own. -/
theorem Reachable.queue
    {allowed : State Task Value → Action Value → Prop}
    {task : Nat → Task}
    (reachable : Reachable program N allowed task state) :
    Queue.Reachable N (fun _ => .newUninit) state.queue :=
  TransitionSystem.Reachable.project State.queue
    (fun _ _ taken =>
      (step_move taken).queue.imp_right fun ⟨_, moved, _⟩ =>
        ⟨_, trivial, moved.taken⟩)
    reachable

/-- The owner writes to no cell of a live range. -/
def WritesFree
    (N : BufferSize width)
    (state : State Task Value) :
    Action Value → Prop
  | .owner => state.queue.WritesFreeCell N
  | _ => True

/-- While no live cell is written, the live ranges stay in the window. -/
theorem Reachable.liveInWindow
    {allowed : State Task Value → Action Value → Prop}
    (writesFree :
      ∀ state action, allowed state action → WritesFree N state action)
    {task : Nat → Task}
    (reachable : Reachable program N allowed task state) :
    state.queue.LiveInWindow N := by
  induction reachable with
  | start =>
      exact Queue.State.LiveInWindow.initial
  | @next before after action earlier permitted taken inductionHypothesis =>
      rcases (step_move taken).queue with
        same | ⟨queueAction, moved, isOwner⟩
      · rw [same]
        exact inductionHypothesis
      · refine inductionHypothesis.move
          (Queue.Reachable.phaseInvariant (Reachable.queue earlier)) ?_
          moved
        intro isOwnerAction
        have free := writesFree before action permitted
        rw [isOwner isOwnerAction] at free
        exact free

/-- On a 64-bit target a buffer of at most 1024 cells is safe by itself. -/
theorem Reachable.writesFree_of_small
    {N : BufferSize .w64}
    (small : N.size ≤ 1024)
    {allowed : State Task Value → Action Value → Prop}
    {task : Nat → Task}
    (reachable : Reachable program N allowed task state)
    (action : Action Value) :
    WritesFree N state action := by
  cases action with
  | owner =>
      exact
        (Queue.Reachable.occupancyInvariant small
            reachable.queue).writesFreeCell
          (Queue.Reachable.phaseInvariant reachable.queue)
  | _ => trivial

end Queues

end StackQueue.TaskQueue
