import StackQueue.RangeAccounts
import StackQueue.Reducers

namespace StackQueue.BatchReduce

open Queue RangeTasks RangeConsumers

/-!
# `BatchReduce` futures

The futures of `BatchReducer::batch_reduce` around one queue.  The future whose
push opened a range holds it until it is polled again, on any thread: that poll
bounds the range and hands it to the future's reducer as a `BufferIter`.  The
reducer draws tasks from the iterator one by one, may stop anywhere and may
panic; the iterator is dropped with it, and the poll returns what the reducer
returned.  All other polls of accepted futures return `None`.  A future may be
dropped between its polls, with its task or with its range.

The ranges and the queue are those of `RangeTasks`.  Futures are numbered and a
future's waker is its number.  `pushers`, `openers`, `somes` and `nones` are
history: no step reads them.
-/

/-- `ReduceState`, with the program points of the polls that take steps. -/
inductive Future (Task Result Control : Type) where
  | unbatched (task : Task) (reducer : Control)
  /-- Within the poll that moved the task into `push`. -/
  | pushing (reducer : Control)
  | collecting (batch : Nat) (reducer : Control)
  /-- Within the reducer, which holds the `BufferIter` of the range. -/
  | reducing (batch : Nat) (reducer : Control)
  /-- The `BufferIter` is being dropped, by a return or by a panic. -/
  | returning (batch : Nat) (result : Option Result)
  /-- The future was dropped, and its range is being dropped with it. -/
  | discarding (batch : Nat)
  | batched
  | dropped
  /-- The reducer was given the bits of a cell that holds no task. -/
  | undefined

/-- A poll that returned `Ready(Some(result))`. -/
structure Delivery (Result : Type) where
  future : Nat
  batch : Nat
  result : Result

/-- A queue, its ranges and its `BatchReduce` futures. -/
structure State (Task Result Control : Type) where
  base : RangeTasks.State Task
  futures : Nat → Future Task Result Control
  /-- The future whose `push` is in progress. -/
  call : Option Nat
  /-- The futures of the accepted pushes, by their `fetch_add`. -/
  pushers : List Nat
  /-- The future whose push opened each range. -/
  openers : List Nat
  /-- The polls that returned `Ready(Some(_))`. -/
  somes : List (Delivery Result)
  /-- The futures whose polls returned `Ready(None)`. -/
  nones : List Nat

/-- One step of the owner thread or of a thread that has a future. -/
inductive Action where
  /-- Poll a future in the `Unbatched` or `Batched` state. -/
  | poll (future : Nat)
  /-- The owner's next access within `push`. -/
  | owner
  /-- The `push` in progress returns, and its poll with it. -/
  | finish
  /-- Poll a future in the `Collecting` state, up to `into_iter`. -/
  | collect (future : Nat)
  /-- The reducer calls `next`. -/
  | next (future : Nat)
  /-- The reducer returns, and its iterator is dropped. -/
  | reduce (future : Nat)
  /-- The reducer panics, and its iterator is dropped. -/
  | panic (future : Nat)
  /-- The future is dropped. -/
  | drop (future : Nat)
  /-- A destructor drops one cell. -/
  | dropCell (future : Nat)
  /-- The `fetch_sub` of `deoccupy_region`. -/
  | release (future : Nat)
  /-- One iteration of the wake loop. -/
  | steal (future : Nat) (retry : Bool)
  /-- The destructor returns, and the poll or the drop with it. -/
  | complete (future : Nat)
  deriving Repr, DecidableEq

variable {width : PointerWidth} {Task Result Control : Type}

/-- A queue without tasks, and futures with their tasks and reducers. -/
def initial
    (task : Nat → Task)
    (reducer : Nat → Control) :
    State Task Result Control where
  base := RangeTasks.initial
  futures := fun future => .unbatched (task future) (reducer future)
  call := none
  pushers := []
  openers := []
  somes := []
  nones := []

/-- The range whose destructor runs within the future. -/
def Future.destroying : Future Task Result Control → Option Nat
  | .returning batch _ | .discarding batch => some batch
  | _ => none

namespace State

/-- Take a step of the queue or of one of its ranges. -/
def onBase
    (N : BufferSize width)
    (needsDrop : Bool)
    (state : State Task Result Control)
    (action : RangeTasks.Action Task) :
    Option (State Task Result Control) :=
  (RangeTasks.step N needsDrop state.base action).map fun base =>
    { state with base := base }

/-- Replace the state of one future. -/
def setFuture
    (state : State Task Result Control)
    (index : Nat)
    (future : Future Task Result Control) :
    State Task Result Control :=
  { state with futures := Function.update state.futures index future }

/-- The future whose push the owner's next access accepts. -/
def accepting (state : State Task Result Control) : List Nat :=
  match state.base.queue.owner with
  | .adding _ => state.call.toList
  | _ => []

/-- The future whose range the owner's next access creates. -/
def opening (state : State Task Result Control) : List Nat :=
  match state.base.queue.owner with
  | .occupying _ _ => state.call.toList
  | _ => []

/-- Take a step of the range whose destructor runs within a future. -/
def onDestroyed
    (N : BufferSize width)
    (needsDrop : Bool)
    (state : State Task Result Control)
    (future : Nat)
    (action : Nat → RangeTasks.Action Task) :
    Option (State Task Result Control) :=
  match (state.futures future).destroying with
  | some batch => state.onBase N needsDrop (action batch)
  | none => none

end State

/-- What the reducer is given by the `next` of its iterator. -/
inductive Drawn (Task : Type) where
  | item (task : Task)
  | exhausted
  | uninit

/-- The item that the iterator of a range yields next. -/
def drawn
    (N : BufferSize width)
    (state : RangeTasks.State Task)
    (batch : Nat) :
    Drawn Task :=
  match state.holders batch with
  | .iterating iter =>
      if iter.current < iter.range.stop then
        match state.queue.buffer (iter.current &&& (N.size - 1)) with
        | some task => .item task
        | none => .uninit
      else
        .exhausted
  | _ => .exhausted

/-- The state of a future whose reducer has been given what `next` returned. -/
def resumed
    (batch : Nat)
    (resume : Option Task → Control) :
    Drawn Task → Future Task Result Control
  | .item task => .reducing batch (resume (some task))
  | .exhausted => .reducing batch (resume none)
  | .uninit => .undefined

/-- The effect of one action, `none` when it is not enabled. -/
def step
    (N : BufferSize width)
    (needsDrop : Bool)
    (act : Control → Reducers.Step Task Result Control)
    (state : State Task Result Control) :
    Action → Option (State Task Result Control)
  | .poll future =>
      match state.futures future with
      | .unbatched task reducer =>
          State.onBase N needsDrop {
            state.setFuture future (.pushing reducer) with
            call := some future } (.push task)
      | .batched =>
          some { state with nones := state.nones ++ [future] }
      | _ => none
  | .owner =>
      State.onBase N needsDrop {
        state with
        pushers := state.pushers ++ state.accepting
        openers := state.openers ++ state.opening } .owner
  | .finish =>
      match state.call with
      | some future =>
          match state.futures future, state.base.call,
            state.base.queue.owner with
          | .pushing reducer, some task, .returning .queueFull =>
              State.onBase N needsDrop {
                state.setFuture future (.unbatched task reducer) with
                call := none } (.finish (some future))
          | .pushing _, some _, .returning .joined =>
              State.onBase N needsDrop {
                state.setFuture future .batched with
                call := none
                nones := state.nones ++ [future] } (.finish none)
          | .pushing reducer, some _, .returning (.opened batch) =>
              State.onBase N needsDrop {
                state.setFuture future (.collecting batch reducer) with
                call := none } (.finish none)
          | _, _, _ => none
      | none => none
  | .collect future =>
      match state.futures future with
      | .collecting batch reducer =>
          ((state.setFuture future
            (.reducing batch reducer)).onBase N needsDrop
              (.intoBounded batch)).bind fun bounded =>
            bounded.onBase N needsDrop (.intoIter batch)
      | _ => none
  | .next future =>
      match state.futures future with
      | .reducing batch reducer =>
          match act reducer with
          | .next resume =>
              (state.setFuture future
                (resumed batch resume
                  (drawn N state.base batch))).onBase N needsDrop
                    (.next batch)
          | .done _ => none
      | _ => none
  | .reduce future =>
      match state.futures future with
      | .reducing batch reducer =>
          match act reducer with
          | .done result =>
              (state.setFuture future
                (.returning batch (some result))).onBase N needsDrop
                  (.drop batch)
          | .next _ => none
      | _ => none
  | .panic future =>
      match state.futures future with
      | .reducing batch _ =>
          (state.setFuture future (.returning batch none)).onBase N
            needsDrop (.drop batch)
      | _ => none
  | .drop future =>
      match state.futures future with
      | .unbatched _ _ | .batched =>
          some (state.setFuture future .dropped)
      | .collecting batch _ =>
          (state.setFuture future (.discarding batch)).onBase N needsDrop
            (.dropUnbounded batch)
      | _ => none
  | .dropCell future =>
      state.onDestroyed N needsDrop future .dropCell
  | .release future =>
      state.onDestroyed N needsDrop future .release
  | .steal future retry =>
      state.onDestroyed N needsDrop future fun batch =>
        .steal batch retry
  | .complete future =>
      match state.futures future with
      | .returning batch (some result) =>
          State.onBase N needsDrop {
            state.setFuture future .batched with
            somes := state.somes ++ [⟨future, batch, result⟩] }
              (.complete batch)
      | .returning batch none =>
          (state.setFuture future .batched).onBase N needsDrop
            (.complete batch)
      | .discarding batch =>
          (state.setFuture future .dropped).onBase N needsDrop
            (.complete batch)
      | _ => none

/-- The states of the runs of a queue and its `BatchReduce` futures. -/
abbrev Reachable
    (N : BufferSize width)
    (needsDrop : Bool)
    (act : Control → Reducers.Step Task Result Control)
    (task : Nat → Task)
    (reducer : Nat → Control)
    (state : State Task Result Control) :
    Prop :=
  TransitionSystem.Reachable (step N needsDrop act)
    TransitionSystem.anyStep (initial task reducer) state

/-! ## What one step can do -/

/-- The moves of the machine, one constructor for each kind of step. -/
inductive Move
    (N : BufferSize width)
    (needsDrop : Bool)
    (act : Control → Reducers.Step Task Result Control)
    (state : State Task Result Control) :
    State Task Result Control → Prop where
  | push
      {future : Nat}
      {task : Task}
      {reducer : Control}
      {base : RangeTasks.State Task}
      (holds : state.futures future = .unbatched task reducer)
      (stepped :
        RangeTasks.step N needsDrop state.base (.push task) = some base) :
      Move N needsDrop act state
        { state.setFuture future (.pushing reducer) with
          call := some future
          base := base }
  | again
      {future : Nat}
      (holds : state.futures future = .batched) :
      Move N needsDrop act state
        { state with nones := state.nones ++ [future] }
  | owner
      {base : RangeTasks.State Task}
      (stepped :
        RangeTasks.step N needsDrop state.base .owner = some base) :
      Move N needsDrop act state
        { state with
          pushers := state.pushers ++ state.accepting
          openers := state.openers ++ state.opening
          base := base }
  | finishRefused
      {future : Nat}
      {task : Task}
      {reducer : Control}
      {base : RangeTasks.State Task}
      (called : state.call = some future)
      (holds : state.futures future = .pushing reducer)
      (given : state.base.call = some task)
      (at_ : state.base.queue.owner = .returning .queueFull)
      (stepped :
        RangeTasks.step N needsDrop state.base (.finish (some future)) =
          some base) :
      Move N needsDrop act state
        { state.setFuture future (.unbatched task reducer) with
          call := none
          base := base }
  | finishJoined
      {future : Nat}
      {reducer : Control}
      {base : RangeTasks.State Task}
      (called : state.call = some future)
      (holds : state.futures future = .pushing reducer)
      (at_ : state.base.queue.owner = .returning .joined)
      (stepped :
        RangeTasks.step N needsDrop state.base (.finish none) =
          some base) :
      Move N needsDrop act state
        { state.setFuture future .batched with
          call := none
          nones := state.nones ++ [future]
          base := base }
  | finishOpened
      {future batch : Nat}
      {reducer : Control}
      {base : RangeTasks.State Task}
      (called : state.call = some future)
      (holds : state.futures future = .pushing reducer)
      (at_ : state.base.queue.owner = .returning (.opened batch))
      (stepped :
        RangeTasks.step N needsDrop state.base (.finish none) =
          some base) :
      Move N needsDrop act state
        { state.setFuture future (.collecting batch reducer) with
          call := none
          base := base }
  | collect
      {future batch : Nat}
      {reducer : Control}
      {middle base : RangeTasks.State Task}
      (holds : state.futures future = .collecting batch reducer)
      (bounded :
        RangeTasks.step N needsDrop state.base (.intoBounded batch) =
          some middle)
      (stepped :
        RangeTasks.step N needsDrop middle (.intoIter batch) =
          some base) :
      Move N needsDrop act state
        { state.setFuture future (.reducing batch reducer) with
          base := base }
  | next
      {future batch : Nat}
      {reducer : Control}
      {resume : Option Task → Control}
      {base : RangeTasks.State Task}
      (holds : state.futures future = .reducing batch reducer)
      (acts : act reducer = .next resume)
      (stepped :
        RangeTasks.step N needsDrop state.base (.next batch) =
          some base) :
      Move N needsDrop act state
        { state.setFuture future
            (resumed batch resume (drawn N state.base batch)) with
          base := base }
  | stop
      {future batch : Nat}
      {reducer : Control}
      {result : Option Result}
      {base : RangeTasks.State Task}
      (holds : state.futures future = .reducing batch reducer)
      (acts : ∀ value, result = some value → act reducer = .done value)
      (stepped :
        RangeTasks.step N needsDrop state.base (.drop batch) =
          some base) :
      Move N needsDrop act state
        { state.setFuture future (.returning batch result) with
          base := base }
  | dropIdle
      {future : Nat}
      (holds :
        (∃ task reducer,
          state.futures future = .unbatched task reducer) ∨
            state.futures future = .batched) :
      Move N needsDrop act state (state.setFuture future .dropped)
  | discard
      {future batch : Nat}
      {reducer : Control}
      {base : RangeTasks.State Task}
      (holds : state.futures future = .collecting batch reducer)
      (stepped :
        RangeTasks.step N needsDrop state.base (.dropUnbounded batch) =
          some base) :
      Move N needsDrop act state
        { state.setFuture future (.discarding batch) with base := base }
  | destroy
      {future batch : Nat}
      {action : RangeTasks.Action Task}
      {base : RangeTasks.State Task}
      (holds : (state.futures future).destroying = some batch)
      (on :
        action = .dropCell batch ∨
          action = .release batch ∨
            ∃ retry, action = .steal batch retry)
      (stepped :
        RangeTasks.step N needsDrop state.base action = some base) :
      Move N needsDrop act state { state with base := base }
  | complete
      {future batch : Nat}
      {next : Future Task Result Control}
      {somes : List (Delivery Result)}
      {base : RangeTasks.State Task}
      (holds :
        (∃ result,
          state.futures future = .returning batch (some result) ∧
            next = .batched ∧
            somes = state.somes ++ [⟨future, batch, result⟩]) ∨
          (state.futures future = .returning batch none ∧
            next = .batched ∧
            somes = state.somes) ∨
          (state.futures future = .discarding batch ∧
            next = .dropped ∧
            somes = state.somes))
      (stepped :
        RangeTasks.step N needsDrop state.base (.complete batch) =
          some base) :
      Move N needsDrop act state
        { state.setFuture future next with
          somes := somes
          base := base }

section Moves

variable
    {N : BufferSize width}
    {needsDrop : Bool}
    {act : Control → Reducers.Step Task Result Control}
    {state after : State Task Result Control}

theorem onBase_some
    {action : RangeTasks.Action Task}
    (taken : state.onBase N needsDrop action = some after) :
    ∃ base,
      RangeTasks.step N needsDrop state.base action = some base ∧
        { state with base := base } = after := by
  rw [State.onBase, Option.map_eq_some_iff] at taken
  exact taken

theorem onDestroyed_some
    {future : Nat}
    {action : Nat → RangeTasks.Action Task}
    (taken :
      state.onDestroyed N needsDrop future action = some after) :
    ∃ batch base,
      (state.futures future).destroying = some batch ∧
        RangeTasks.step N needsDrop state.base (action batch) =
          some base ∧
        { state with base := base } = after := by
  unfold State.onDestroyed at taken
  split at taken
  · rename_i batch holds
    obtain ⟨base, stepped, shape⟩ := onBase_some taken
    exact ⟨batch, base, holds, stepped, shape⟩
  · cases taken

/-- `step` makes no other move. -/
theorem step_move
    {action : Action}
    (taken : step N needsDrop act state action = some after) :
    Move N needsDrop act state after := by
  cases action with
  | poll future =>
      simp only [step] at taken
      split at taken
      · rename_i holds
        obtain ⟨base, stepped, shape⟩ := onBase_some taken
        subst shape
        exact .push holds stepped
      · rename_i holds
        cases taken
        exact .again holds
      · cases taken
  | owner =>
      obtain ⟨base, stepped, shape⟩ := onBase_some taken
      subst shape
      exact .owner stepped
  | finish =>
      simp only [step] at taken
      split at taken
      · rename_i future called
        split at taken
        · rename_i holds given at_
          obtain ⟨base, stepped, shape⟩ := onBase_some taken
          subst shape
          exact .finishRefused called holds given at_ stepped
        · rename_i holds given at_
          obtain ⟨base, stepped, shape⟩ := onBase_some taken
          subst shape
          exact .finishJoined called holds at_ stepped
        · rename_i holds given at_
          obtain ⟨base, stepped, shape⟩ := onBase_some taken
          subst shape
          exact .finishOpened called holds at_ stepped
        · cases taken
      · cases taken
  | collect future =>
      simp only [step] at taken
      split at taken
      · rename_i holds
        obtain ⟨middle, first, second⟩ := Option.bind_eq_some_iff.mp taken
        obtain ⟨_, bounded, shape⟩ := onBase_some first
        subst shape
        obtain ⟨_, stepped, shape⟩ := onBase_some second
        subst shape
        exact .collect holds bounded stepped
      · cases taken
  | next future =>
      simp only [step] at taken
      split at taken
      · rename_i holds
        split at taken
        · rename_i acts
          obtain ⟨base, stepped, shape⟩ := onBase_some taken
          subst shape
          exact .next holds acts stepped
        · cases taken
      · cases taken
  | reduce future =>
      simp only [step] at taken
      split at taken
      · rename_i holds
        split at taken
        · rename_i result acts
          obtain ⟨base, stepped, shape⟩ := onBase_some taken
          subst shape
          refine .stop holds (fun value same => ?_) stepped
          cases same
          exact acts
        · cases taken
      · cases taken
  | panic future =>
      simp only [step] at taken
      split at taken
      · rename_i holds
        obtain ⟨base, stepped, shape⟩ := onBase_some taken
        subst shape
        refine .stop holds (fun value same => ?_) stepped
        cases same
      · cases taken
  | drop future =>
      simp only [step] at taken
      split at taken
      · rename_i holds
        cases taken
        exact .dropIdle (.inl ⟨_, _, holds⟩)
      · rename_i holds
        cases taken
        exact .dropIdle (.inr holds)
      · rename_i holds
        obtain ⟨base, stepped, shape⟩ := onBase_some taken
        subst shape
        exact .discard holds stepped
      · cases taken
  | dropCell future =>
      obtain ⟨batch, base, holds, stepped, shape⟩ := onDestroyed_some taken
      subst shape
      exact .destroy holds (.inl rfl) stepped
  | release future =>
      obtain ⟨batch, base, holds, stepped, shape⟩ := onDestroyed_some taken
      subst shape
      exact .destroy holds (.inr (.inl rfl)) stepped
  | steal future retry =>
      obtain ⟨batch, base, holds, stepped, shape⟩ := onDestroyed_some taken
      subst shape
      exact .destroy holds (.inr (.inr ⟨retry, rfl⟩)) stepped
  | complete future =>
      simp only [step] at taken
      split at taken
      · rename_i result holds
        obtain ⟨base, stepped, shape⟩ := onBase_some taken
        subst shape
        exact .complete (.inl ⟨result, holds, rfl, rfl⟩) stepped
      · rename_i holds
        obtain ⟨base, stepped, shape⟩ := onBase_some taken
        subst shape
        exact .complete (.inr (.inl ⟨holds, rfl, rfl⟩)) stepped
      · rename_i holds
        obtain ⟨base, stepped, shape⟩ := onBase_some taken
        subst shape
        exact .complete (.inr (.inr ⟨holds, rfl, rfl⟩)) stepped
      · cases taken

/-- A move takes the ranges through states of a run of their own. -/
theorem Move.base
    (moved : Move N needsDrop act state after)
    (reachable : RangeTasks.Reachable N needsDrop state.base) :
    RangeTasks.Reachable N needsDrop after.base := by
  cases moved with
  | again holds | dropIdle holds =>
      exact reachable
  | collect holds bounded stepped =>
      exact (reachable.next trivial bounded).next trivial stepped
  | push holds stepped | owner stepped
  | finishRefused called holds given at_ stepped
  | finishJoined called holds at_ stepped
  | finishOpened called holds at_ stepped
  | next holds acts stepped | stop holds acts stepped
  | discard holds stepped | destroy holds on stepped
  | complete holds stepped =>
      exact reachable.next trivial stepped

/-- The ranges inside a run of the machine make a run of their own. -/
theorem Reachable.base
    {task : Nat → Task}
    {reducer : Nat → Control}
    (reachable : Reachable N needsDrop act task reducer state) :
    RangeTasks.Reachable N needsDrop state.base := by
  induction reachable with
  | start =>
      exact .start
  | next _ _ taken inductionHypothesis =>
      exact (step_move taken).base inductionHypothesis

end Moves

end StackQueue.BatchReduce
