import StackQueue.QueueCells
import StackQueue.ReceiverWord

namespace StackQueue.TaskQueue

open Queue

/-!
# `BatchedTask` futures and their resolvers

The futures of a `TaskQueue` around one queue.  A poll moves the future's task
into a cell together with a pointer to the future's receiver; the batch that
owns the cell takes the task and resolves it through that pointer, and the
drop of a future negotiates with the resolver through the cell's state word.
Owner, batches and drops are interleaved access by access.

Futures, wakers and batches are numbered; a receiver pointer is the number of
the future that contains the receiver.  `polled`, `enqueued`, `resolutions`,
`passed`, `stored`, `returned`, `applied` and `destroyed` are history: no step
reads them to decide what the code does.
-/

/-- What is generic in `TaskQueue`. -/
structure Program (Task Value : Type) where
  /-- The operation that `map` applies. -/
  op : Task → Value
  /-- `needs_drop::<T::Task>()`. -/
  needsDrop : Bool

/-- `TaskRef`; `none` is uninitialised memory. -/
structure TaskRef (Task : Type) where
  state : Nat
  rx : Option Nat
  task : Option Task

/-- `Receiver`: `state` is the index of the cell whose word it points to. -/
structure Receiver (Value : Type) where
  state : Nat
  value : Option Value
  waker : Nat

/-- The `State` of a `BatchedTask`, with the program points of its drop. -/
inductive Future (Task Value : Type) where
  | unbatched (task : Task)
  | batched (receiver : Receiver Value)
  | received
  /-- Within the drop, with the word it saw last. -/
  | dropping (receiver : Receiver Value) (seen : Nat)
  /-- The drop has returned. -/
  | dropped

/-- How a `TaskAssignment` is consumed. -/
inductive Method where
  | map
  | resolveWithIter
  | drop
  deriving Repr, DecidableEq

/--
The program points of `resolve_unchecked`, one for each access.  `wake_by_ref`
is one access: its last use of the receiver precedes its effect, which is that
the future counts as woken.
-/
inductive ResolvePoint where
  | fetchOr
  | write
  | wake
  | fetchXor
  deriving Repr, DecidableEq

/-- What has become of a range of tasks. -/
inductive Batch (Value : Type) where
  /-- The range does not exist or is not spawned yet. -/
  | unspawned
  /-- `PendingAssignment`. -/
  | pending
  /-- `TaskAssignment`, with the cells to be visited. -/
  | assigned (todo : List Nat)
  /-- Between the visits to two cells. -/
  | visiting (method : Method) (todo : List Nat)
  /-- Within `resolve_unchecked` for one cell. -/
  | resolving
      (method : Method)
      (todo : List Nat)
      (cell : Nat)
      (value : Option Value)
      (point : ResolvePoint)
  /-- Within `deoccupy_region`. -/
  | releasing
  | finished
  deriving DecidableEq

/-- How far the task of a future has been processed. -/
inductive Resolution where
  | untouched
  /-- Its cell has been visited. -/
  | visited
  /-- `SETTING_VALUE` is set, and `RX_DROPPED` was not. -/
  | setting
  /-- The value is in the receiver. -/
  | stored
  /-- The receiver's waker has been woken. -/
  | woken
  /-- `VALUE_SET` is set. -/
  | set
  /-- `RX_DROPPED` was set: the value has been dropped. -/
  | discarded
  deriving Repr, DecidableEq

/-- The poll that is within `enqueue`. -/
structure Call (Task : Type) where
  future : Nat
  waker : Nat
  task : Task

/-- A queue with its `BatchedTask` futures and batches. -/
structure State (Task Value : Type) where
  queue : Queue.State (TaskRef Task) Nat
  futures : Nat → Future Task Value
  polling : Option (Call Task)
  batches : Nat → Batch Value
  /-- Whether a waker has been woken since the latest poll with it began. -/
  notified : Nat → Bool
  /-- The futures polled so far. -/
  polled : List Nat
  /-- The futures and tasks of the accepted calls, by their `fetch_add`. -/
  enqueued : List (Nat × Task)
  resolutions : Nat → Resolution
  /-- The values passed to `resolve_unchecked`. -/
  passed : List (Nat × Option Value)
  /-- The values written into receivers. -/
  stored : List (Nat × Option Value)
  /-- The polls that returned `Ready(_)`. -/
  returned : List (Nat × Option Value)
  /-- The tasks that `op` was applied to, with their batches. -/
  applied : List (Nat × Option Task)
  /-- The values dropped by resolvers and by receivers. -/
  destroyed : List (Nat × Option Value)

/-- One step of the owner thread, of a batch or of a thread with a future. -/
inductive Action (Value : Type) where
  /-- Poll a future; a future that is not batched enters `enqueue`. -/
  | poll (future waker : Nat)
  /-- The owner's next access within `enqueue`. -/
  | owner
  /-- `enqueue` returns, and the poll with it. -/
  | finish
  /-- `set_assignment_bounds` of a pending assignment. -/
  | assign (batch : Nat)
  /-- A `TaskAssignment` is consumed. -/
  | invoke (batch : Nat) (method : Method)
  /-- `map` or the destructor visits its next cell. -/
  | visit (batch : Nat)
  /-- `resolve_with_iter` visits its next cell with a value. -/
  | visitWith (batch : Nat) (value : Value)
  /-- The next access of `resolve_unchecked`. -/
  | resolve (batch : Nat)
  /-- The `fetch_sub` of `deoccupy_region`. -/
  | release (batch : Nat)
  /-- One iteration of the wake loop. -/
  | steal (batch : Nat) (retry : Bool)
  /-- `deoccupy_region` returns. -/
  | complete (batch : Nat)
  /-- A future is dropped, up to the `fetch_or` of a batched one. -/
  | drop (future : Nat)
  /-- The drop in progress tests the word it saw, and loads it again. -/
  | spin (future : Nat)

variable {Task Value : Type}

namespace TaskRef

/-- `new_uninit`. -/
def newUninit : TaskRef Task :=
  ⟨0, none, none⟩

def init (task : Task) (rx : Nat) (_ : TaskRef Task) : TaskRef Task :=
  ⟨0, some rx, some task⟩

/-- What `take_task_unchecked` leaves behind. -/
def takeTaskUnchecked (cell : TaskRef Task) : TaskRef Task :=
  { cell with task := none }

/-- Change the state word. -/
def updateState
    (update : Nat → Nat)
    (cell : TaskRef Task) :
    TaskRef Task :=
  { cell with state := update cell.state }

end TaskRef

namespace Future

/-- The receiver that the future contains. -/
def receiver? : Future Task Value → Option (Receiver Value)
  | .batched receiver | .dropping receiver _ => some receiver
  | .unbatched _ | .received | .dropped => none

/-- Write a value through a pointer to the receiver. -/
def store (value : Option Value) : Future Task Value → Future Task Value
  | .batched receiver => .batched { receiver with value := value }
  | .dropping receiver seen =>
      .dropping { receiver with value := value } seen
  | other => other

/-- The drop of the future has begun. -/
def isDropBegun : Future Task Value → Bool
  | .dropping _ _ | .dropped => true
  | .unbatched _ | .batched _ | .received => false

end Future

/-- A method has visited all the cells it visits. -/
def Method.isDone
    (needsDrop : Bool)
    (todo : List Nat) :
    Method → Bool
  | .map => todo.isEmpty
  -- `zip` ends with the shorter of the cells and the values
  | .resolveWithIter => true
  | .drop => todo.isEmpty || !needsDrop

/-- A queue without tasks, and futures that hold the tasks given to them. -/
def initial (task : Nat → Task) : State Task Value where
  queue := Queue.initial fun _ => .newUninit
  futures := fun future => .unbatched (task future)
  polling := none
  batches := fun _ => .unspawned
  notified := fun _ => false
  polled := []
  enqueued := []
  resolutions := fun _ => .untouched
  passed := []
  stored := []
  returned := []
  applied := []
  destroyed := []

namespace State

variable {width : PointerWidth}

/-- Take a step of the queue. -/
def onQueue
    (N : BufferSize width)
    (state : State Task Value)
    (action : Queue.Action (TaskRef Task) Nat) :
    Option (State Task Value) :=
  (Queue.step N state.queue action).map fun queue =>
    { state with queue := queue }

/-- Change one cell of the buffer. -/
def updateCell
    (state : State Task Value)
    (index : Nat)
    (update : TaskRef Task → TaskRef Task) :
    State Task Value :=
  { state with queue := state.queue.updateCell index update }

/-- Replace the state of one future. -/
def setFuture
    (state : State Task Value)
    (index : Nat)
    (future : Future Task Value) :
    State Task Value :=
  { state with futures := Function.update state.futures index future }

/-- Replace one batch. -/
def setBatch
    (state : State Task Value)
    (index : Nat)
    (batch : Batch Value) :
    State Task Value :=
  { state with batches := Function.update state.batches index batch }

/-- Record how far the task in a cell has been processed. -/
def mark
    (state : State Task Value)
    (cell : Nat)
    (resolution : Resolution) :
    State Task Value :=
  { state with
    resolutions :=
      match (state.queue.buffer cell).rx with
      | some future =>
          Function.update state.resolutions future resolution
      | none => state.resolutions }

/-- Record the value that `resolve_unchecked` was called with. -/
def pass
    (state : State Task Value)
    (cell : Nat)
    (value : Option Value) :
    State Task Value :=
  { state with
    passed :=
      state.passed ++
        (state.queue.buffer cell).rx.toList.map (·, value) }

/-- Wake a waker, if there is one. -/
def notify
    (state : State Task Value)
    (woken : Option Nat) :
    State Task Value :=
  { state with
    notified :=
      match woken with
      | some waker => Function.update state.notified waker true
      | none => state.notified }

/-- A poll of the future with a waker begins. -/
def beginPoll
    (state : State Task Value)
    (future waker : Nat) :
    State Task Value :=
  { state with
    notified := Function.update state.notified waker false
    polled := future :: state.polled }

/-- The future is within the poll that called `enqueue`. -/
def isPolling (state : State Task Value) (future : Nat) : Bool :=
  match state.polling with
  | some call => call.future = future
  | none => false

/-- What the owner's next access does besides its effect on the queue. -/
def progress (state : State Task Value) : State Task Value :=
  { state with
    futures :=
      match state.queue.owner, state.polling with
      | .writing _ index, some call =>
          Function.update state.futures call.future
            (.batched ⟨index, none, call.waker⟩)
      | _, _ => state.futures
    enqueued :=
      match state.queue.owner, state.polling with
      | .adding _, some call =>
          state.enqueued ++ [(call.future, call.task)]
      | _, _ => state.enqueued }

/-- `deoccupy_region` of a batch has returned. -/
def hasReleased (state : State Task Value) (batch : Nat) : Bool :=
  match state.queue.handles[batch]? with
  | some handle => handle.stage = .released
  | none => false

end State

/-- The accesses of `resolve_unchecked`. -/
def resolveUnchecked
    (state : State Task Value)
    (batch : Nat)
    (method : Method)
    (todo : List Nat)
    (cell : Nat)
    (value : Option Value) :
    ResolvePoint → Option (State Task Value)
  | .fetchOr =>
      let word := (state.queue.buffer cell).state
      let marked :=
        (state.pass cell value).updateCell cell
          (TaskRef.updateState (· ||| settingValue))
      if word &&& rxDropped = 0 then
        some ((marked.mark cell .setting).setBatch batch
          (.resolving method todo cell value .write))
      else
        some {
          (marked.mark cell .discarded).setBatch batch
            (.visiting method todo) with
          destroyed :=
            state.destroyed ++
              (state.queue.buffer cell).rx.toList.map (·, value) }
  | .write =>
      match (state.queue.buffer cell).rx with
      | some rx =>
          some {
            ((state.mark cell .stored).setFuture rx
              ((state.futures rx).store value)).setBatch batch
                (.resolving method todo cell value .wake) with
            stored := state.stored ++ [(rx, value)] }
      | none => none
  | .wake =>
      match (state.queue.buffer cell).rx with
      | some rx =>
          some (((state.mark cell .woken).notify
            ((state.futures rx).receiver?.map Receiver.waker)).setBatch
              batch (.resolving method todo cell value .fetchXor))
      | none => none
  | .fetchXor =>
      some (((state.updateCell cell (TaskRef.updateState
        (· ^^^ (settingValue ||| valueSet)))).mark cell .set).setBatch
          batch (.visiting method todo))

/-- The effect of one action, `none` when it is not enabled. -/
def step
    {width : PointerWidth}
    (program : Program Task Value)
    (N : BufferSize width)
    (state : State Task Value) :
    Action Value → Option (State Task Value)
  | .poll future waker =>
      if state.isPolling future then
        none
      else
        match state.futures future, state.polling with
        | .unbatched task, none =>
            State.onQueue N {
              state.beginPoll future waker with
              polling := some ⟨future, waker, task⟩ }
              (.call (TaskRef.init task future))
        | .batched receiver, _ =>
            some {
              (state.beginPoll future waker).setFuture future .received with
              returned := state.returned ++ [(future, receiver.value)] }
        | .received, _ =>
            some (state.beginPoll future waker)
        | _, _ => none
  | .owner =>
      state.progress.onQueue N .owner
  | .finish =>
      match state.polling, state.queue.owner with
      | some call, .returning .queueFull =>
          State.onQueue N { state with polling := none }
            (.finish (some call.waker))
      | some _, .returning .joined =>
          State.onQueue N { state with polling := none } (.finish none)
      | some _, .returning (.opened batch) =>
          State.onQueue N {
            state.setBatch batch .pending with
            polling := none } (.finish none)
      | _, _ => none
  | .assign batch =>
      match state.batches batch with
      | .pending =>
          (state.onQueue N (.setBounds batch)).bind fun bounded =>
            (bounded.queue.handles[batch]?.bind Handle.range?).map
              fun range =>
                bounded.setBatch batch (.assigned (taskIndices N range))
      | _ => none
  | .invoke batch method =>
      match state.batches batch with
      | .assigned todo =>
          some (state.setBatch batch (.visiting method todo))
      | _ => none
  | .visit batch =>
      match state.batches batch with
      | .visiting .map (cell :: todo) =>
          let task := (state.queue.buffer cell).task
          some {
            ((state.updateCell cell TaskRef.takeTaskUnchecked).mark cell
              .visited).setBatch batch
                (.resolving .map todo cell (task.map program.op)
                  .fetchOr) with
            applied := state.applied ++ [(batch, task)] }
      | .visiting .drop (cell :: todo) =>
          if program.needsDrop then
            some (((state.updateCell cell TaskRef.takeTaskUnchecked).mark
              cell .visited).setBatch batch (.visiting .drop todo))
          else
            none
      | _ => none
  | .visitWith batch value =>
      match state.batches batch with
      | .visiting .resolveWithIter (cell :: todo) =>
          let empty :=
            if program.needsDrop then TaskRef.takeTaskUnchecked else id
          some (((state.updateCell cell empty).mark cell .visited).setBatch
            batch
            (.resolving .resolveWithIter todo cell (some value) .fetchOr))
      | _ => none
  | .resolve batch =>
      match state.batches batch with
      | .resolving method todo cell value point =>
          resolveUnchecked state batch method todo cell value point
      | _ => none
  | .release batch =>
      match state.batches batch with
      | .visiting method todo =>
          if method.isDone program.needsDrop todo then
            (state.setBatch batch .releasing).onQueue N
              (.deoccupyRegion batch)
          else
            none
      | _ => none
  | .steal batch true =>
      match state.batches batch with
      | .releasing => state.onQueue N (.steal batch true)
      | _ => none
  | .steal batch false =>
      match state.batches batch with
      | .releasing =>
          (state.notify state.queue.pending.head?).onQueue N
            (.steal batch false)
      | _ => none
  | .complete batch =>
      match state.batches batch with
      | .releasing =>
          if state.hasReleased batch then
            some (state.setBatch batch .finished)
          else
            none
      | _ => none
  | .drop future =>
      if state.isPolling future then
        none
      else
        match state.futures future with
        | .batched receiver =>
            some ((state.updateCell receiver.state
              (TaskRef.updateState (· ||| rxDropped))).setFuture future
                (.dropping receiver
                  (state.queue.buffer receiver.state).state))
        | .unbatched _ | .received =>
            some (state.setFuture future .dropped)
        | _ => none
  | .spin future =>
      match state.futures future with
      | .dropping receiver seen =>
          if seen &&& settingValue = settingValue then
            some (state.setFuture future
              (.dropping receiver
                (state.queue.buffer receiver.state).state))
          else
            some {
              state.setFuture future .dropped with
              destroyed :=
                state.destroyed ++
                  if program.needsDrop ∧
                      seen &&& valueSet = valueSet then
                    [(future, receiver.value)]
                  else
                    [] }
      | _ => none

/-- The states of the runs of a queue, its futures and its batches. -/
abbrev Reachable
    {width : PointerWidth}
    (program : Program Task Value)
    (N : BufferSize width)
    (allowed : State Task Value → Action Value → Prop)
    (task : Nat → Task)
    (state : State Task Value) :
    Prop :=
  TransitionSystem.Reachable (step program N) allowed (initial task) state

/-- The runs of a queue, its futures and its batches. -/
abbrev Run
    {width : PointerWidth}
    (program : Program Task Value)
    (N : BufferSize width)
    (task : Nat → Task)
    (trace : List (State Task Value × Action Value))
    (state : State Task Value) :
    Prop :=
  TransitionSystem.Run (step program N) (initial task) trace state

end StackQueue.TaskQueue
