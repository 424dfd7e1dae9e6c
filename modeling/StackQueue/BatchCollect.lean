import StackQueue.QueueCells
import StackQueue.QueuePartition

namespace StackQueue.BatchCollect

open Queue IntervalChain

/-!
# `BatchCollect` futures

The futures of `BatchReducer::batch_collect` around one queue.  A future moves
its task into `push`; a refused push gives it back.  The future whose push
opened a range holds that range until it is polled again, on any thread: the
poll bounds the range, copies its cells into a `Vec` one by one, releases the
range and returns the `Vec`.  All other polls of accepted futures return
`None`.

Futures are numbered and a future's waker is its number.  `pushed`, `openers`,
`somes` and `nones` are history: no step reads them.
-/

/-- `CollectState`, with the program points of the polls that take steps. -/
inductive Future (Task : Type) where
  | unbatched (task : Task)
  /-- Within the poll that moved the task into `push`. -/
  | pushing
  | collecting (batch : Nat)
  /-- Within `to_vec`: the cells still to be copied and the `Vec` so far. -/
  | copying (batch : Nat) (todo : List Nat) (buffer : List (Option Task))
  /-- Within the `deoccupy_region` of `to_vec`. -/
  | releasing (batch : Nat) (buffer : List (Option Task))
  | batched

/-- The range that a future holds. -/
def Future.batch? {Task : Type} : Future Task → Option Nat
  | .collecting batch | .copying batch _ _ | .releasing batch _ =>
      some batch
  | .unbatched _ | .pushing | .batched => none

/-- A poll that returned `Ready(Some(tasks))`. -/
structure Delivery (Task : Type) where
  future : Nat
  batch : Nat
  tasks : List (Option Task)

/-- A queue with its `BatchCollect` futures. -/
structure State (Task : Type) where
  queue : Queue.State (Option Task) Nat
  futures : Nat → Future Task
  /-- The future whose `push` is in progress, and the task it moved there. -/
  call : Option (Nat × Task)
  /-- The futures and tasks of the accepted pushes, by their `fetch_add`. -/
  pushed : List (Nat × Task)
  /-- The future whose push opened each range. -/
  openers : List Nat
  /-- The polls that returned `Ready(Some(_))`. -/
  somes : List (Delivery Task)
  /-- The futures whose polls returned `Ready(None)`. -/
  nones : List Nat

/-- One step of the owner thread or of a thread that polls a future. -/
inductive Action where
  /-- Poll a future in the `Unbatched` or `Batched` state. -/
  | poll (future : Nat)
  /-- The owner's next access within `push`. -/
  | owner
  /-- The `push` in progress returns, and its poll with it. -/
  | finish
  /-- Poll a future in the `Collecting` state, up to `into_bounded`. -/
  | collect (future : Nat)
  /-- Copy one cell of the range into the `Vec`. -/
  | copy (future : Nat)
  /-- The `fetch_sub` of `deoccupy_region`. -/
  | release (future : Nat)
  /-- One iteration of the wake loop. -/
  | steal (future : Nat) (retry : Bool)
  /-- The poll returns the `Vec`. -/
  | complete (future : Nat)

variable {Task : Type}

/-- A queue without tasks, and futures that hold the tasks given to them. -/
def initial (task : Nat → Task) : State Task where
  queue := Queue.initial fun _ => none
  futures := fun future => .unbatched (task future)
  call := none
  pushed := []
  openers := []
  somes := []
  nones := []

namespace State

variable {width : PointerWidth}

/-- Take a step of the queue. -/
def onQueue
    (N : BufferSize width)
    (state : State Task)
    (action : Queue.Action (Option Task) Nat) :
    Option (State Task) :=
  (Queue.step N state.queue action).map fun queue =>
    { state with queue := queue }

/-- Replace the state of one future. -/
def setFuture
    (state : State Task)
    (index : Nat)
    (future : Future Task) :
    State Task :=
  { state with futures := Function.update state.futures index future }

/-- The push that the owner's next access accepts. -/
def accepting (state : State Task) : List (Nat × Task) :=
  match state.queue.owner with
  | .adding _ => state.call.toList
  | _ => []

/-- The future whose range the owner's next access creates. -/
def opening (state : State Task) : List Nat :=
  match state.queue.owner with
  | .occupying _ _ => state.call.toList.map Prod.fst
  | _ => []

/-- The futures of the accepted pushes. -/
def pushers (state : State Task) : List Nat :=
  state.pushed.map Prod.fst

/-- The tasks of the accepted pushes. -/
def tasks (state : State Task) : List Task :=
  state.pushed.map Prod.snd

/-- `deoccupy_region` of a range has returned. -/
def hasReleased (state : State Task) (batch : Nat) : Bool :=
  match state.queue.handles[batch]? with
  | some handle => handle.stage = .released
  | none => false

end State

/-- The effect of one action, `none` when it is not enabled. -/
def step
    {width : PointerWidth}
    (N : BufferSize width)
    (state : State Task) :
    Action → Option (State Task)
  | .poll future =>
      match state.futures future, state.call with
      | .unbatched task, none =>
          State.onQueue N {
            state.setFuture future .pushing with
            call := some (future, task) } (.call fun _ => some task)
      | .batched, _ =>
          some { state with nones := state.nones ++ [future] }
      | _, _ => none
  | .owner =>
      State.onQueue N {
        state with
        pushed := state.pushed ++ state.accepting
        openers := state.openers ++ state.opening } .owner
  | .finish =>
      match state.call, state.queue.owner with
      | some (future, task), .returning .queueFull =>
          State.onQueue N {
            state.setFuture future (.unbatched task) with
            call := none } (.finish (some future))
      | some (future, _), .returning .joined =>
          State.onQueue N {
            state.setFuture future .batched with
            call := none
            nones := state.nones ++ [future] } (.finish none)
      | some (future, _), .returning (.opened batch) =>
          State.onQueue N {
            state.setFuture future (.collecting batch) with
            call := none } (.finish none)
      | _, _ => none
  | .collect future =>
      match state.futures future with
      | .collecting batch =>
          (state.onQueue N (.setBounds batch)).bind fun bounded =>
            (bounded.queue.handles[batch]?.bind Handle.range?).map
              fun range =>
                bounded.setFuture future
                  (.copying batch (taskIndices N range) [])
      | _ => none
  | .copy future =>
      match state.futures future with
      | .copying batch (index :: todo) buffer =>
          some (state.setFuture future
            (.copying batch todo (buffer ++ [state.queue.buffer index])))
      | _ => none
  | .release future =>
      match state.futures future with
      | .copying batch [] buffer =>
          (state.setFuture future (.releasing batch buffer)).onQueue N
            (.deoccupyRegion batch)
      | _ => none
  | .steal future retry =>
      match state.futures future with
      | .releasing batch _ => state.onQueue N (.steal batch retry)
      | _ => none
  | .complete future =>
      match state.futures future with
      | .releasing batch buffer =>
          if state.hasReleased batch then
            some {
              state.setFuture future .batched with
              somes := state.somes ++ [⟨future, batch, buffer⟩] }
          else
            none
      | _ => none

/-- The states of the runs of a queue and its `BatchCollect` futures. -/
abbrev Reachable
    {width : PointerWidth}
    (N : BufferSize width)
    (task : Nat → Task)
    (state : State Task) :
    Prop :=
  TransitionSystem.Reachable (step N) TransitionSystem.anyStep
    (initial task) state

/-! ## Steps of the queue -/

/-- A step of the queue leaves the futures alone. -/
theorem onQueue_some
    {width : PointerWidth}
    {N : BufferSize width}
    {state after : State Task}
    {action : Queue.Action (Option Task) Nat}
    (taken : state.onQueue N action = some after) :
    ∃ queue,
      Queue.step N state.queue action = some queue ∧
        { state with queue := queue } = after := by
  rw [State.onQueue, Option.map_eq_some_iff] at taken
  exact taken

/-- Bounding a range yields the counters whose slices are copied. -/
theorem collect_some
    {width : PointerWidth}
    {N : BufferSize width}
    {state after : State Task}
    {future batch : Nat}
    (taken :
      ((state.onQueue N (.setBounds batch)).bind fun bounded =>
          (bounded.queue.handles[batch]?.bind Handle.range?).map
            fun range =>
              bounded.setFuture future
                (.copying batch (taskIndices N range) [])) =
        some after) :
    ∃ queue handle range,
      Queue.step N state.queue (.setBounds batch) = some queue ∧
        queue.handles[batch]? = some handle ∧
        handle.stage = .bounded range ∧
        State.setFuture { state with queue := queue } future
            (.copying batch (taskIndices N range) []) =
          after := by
  obtain ⟨middle, bounded, rest⟩ := Option.bind_eq_some_iff.mp taken
  obtain ⟨queue, stepped, shape⟩ := onQueue_some bounded
  subst shape
  obtain ⟨range, ranged, shape⟩ := Option.map_eq_some_iff.mp rest
  obtain ⟨handle, found, counters⟩ := Option.bind_eq_some_iff.mp ranged
  refine ⟨queue, handle, range, stepped, found, ?_, shape⟩
  unfold Handle.range? at counters
  split at counters
  · rename_i stage
    cases counters
    exact stage
  · cases counters

/-- A step of the machine is at most one step of its queue. -/
theorem step_queue
    {width : PointerWidth}
    {N : BufferSize width}
    {state after : State Task}
    {action : Action}
    (taken : step N state action = some after) :
    after.queue = state.queue ∨
      ∃ queueAction,
        Queue.step N state.queue queueAction = some after.queue := by
  have lift
      {middle : State Task}
      {queueAction : Queue.Action (Option Task) Nat}
      (taken : middle.onQueue N queueAction = some after)
      (same : middle.queue = state.queue) :
      after.queue = state.queue ∨
        ∃ queueAction,
          Queue.step N state.queue queueAction = some after.queue := by
    obtain ⟨queue, stepped, shape⟩ := onQueue_some taken
    subst shape
    rw [same] at stepped
    exact Or.inr ⟨_, stepped⟩
  cases action with
  | owner =>
      exact lift taken rfl
  | poll future =>
      simp only [step] at taken
      split at taken
      · exact lift taken rfl
      · cases taken
        exact Or.inl rfl
      · cases taken
  | finish =>
      simp only [step] at taken
      split at taken
      · exact lift taken rfl
      · exact lift taken rfl
      · exact lift taken rfl
      · cases taken
  | collect future =>
      simp only [step] at taken
      split at taken
      · obtain ⟨queue, handle, range, stepped, _, _, shape⟩ :=
          collect_some taken
        subst shape
        exact Or.inr ⟨_, stepped⟩
      · cases taken
  | copy future =>
      simp only [step] at taken
      split at taken <;> cases taken
      exact Or.inl rfl
  | release future | steal future retry =>
      simp only [step] at taken
      split at taken
      · exact lift taken rfl
      · cases taken
  | complete future =>
      simp only [step] at taken
      split at taken
      · split at taken <;> cases taken
        exact Or.inl rfl
      · cases taken

/-- The queue inside a run of the machine makes a run of its own. -/
theorem Reachable.queue
    {width : PointerWidth}
    {N : BufferSize width}
    {task : Nat → Task}
    {state : State Task}
    (reachable : Reachable N task state) :
    Queue.Reachable N (fun _ => none) state.queue :=
  TransitionSystem.Reachable.project State.queue
    (fun _ _ taken =>
      (step_queue taken).imp_right fun ⟨action, stepped⟩ =>
        ⟨action, trivial, stepped⟩)
    reachable

end StackQueue.BatchCollect
