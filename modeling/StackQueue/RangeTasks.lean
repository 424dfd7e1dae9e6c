import StackQueue.QueueContents
import StackQueue.RangeConsumers

namespace StackQueue.RangeTasks

open Queue RangeConsumers

/-!
# The ranges of a queue in the hands of arbitrary code

A `StackQueue` of buffer cells, the callers of `push`, and code on any thread
that does with the returned `UnboundedRange`s whatever their interface allows:
bound them, view them as slices, take them as a `Vec`, iterate over them and
stop anywhere, or drop them at any time.  Each access to a cell is a step of
its own, so the owner and the holders of other ranges run in between.

A task that is moved out or dropped leaves its bits in the cell; `taken` lists
what the accesses for each range found there.  `needsDrop` is
`mem::needs_drop` of the task type.  `pushed`, `refused` and `taken` are
history: no step reads them.
-/

/-- How far the code that was given a range has taken it. -/
inductive Holder where
  /-- `UnboundedRange`. -/
  | unbounded
  /-- `BoundedRange`. -/
  | bounded (range : CounterRange)
  /-- Within `BoundedRange::to_vec`, with the cells still to be copied. -/
  | copying (range : CounterRange) (todo : List Nat)
  /-- `BufferIter`. -/
  | iterating (iter : BufferIter)
  /-- Within a destructor, with the counters still to be visited. -/
  | dropping (iter : BufferIter)
  /-- Within `deoccupy_region`, called by `to_vec` or by a destructor. -/
  | releasing (copied : Bool)
  /-- `to_vec` or the destructor has returned. -/
  | finished (copied : Bool)
  deriving Repr, DecidableEq

/-- A queue, the `push` in progress and the holders of its ranges. -/
structure State (Task : Type) where
  queue : Queue.State (Option Task) Nat
  /-- The task that the `push` in progress was given. -/
  call : Option Task
  /-- The tasks of the accepted pushes, by their `fetch_add`. -/
  pushed : List Task
  /-- The tasks that refused pushes gave back. -/
  refused : List Task
  holders : Nat → Holder
  /-- What was found in the cells that were moved out or dropped. -/
  taken : Nat → List (Option Task)

/-- One step of the owner thread or of a thread that holds a range. -/
inductive Action (Task : Type) where
  /-- The owner calls `push`. -/
  | push (task : Task)
  /-- The owner's next access within `push`. -/
  | owner
  /-- `push` returns; after a refusal the caller may register a waker. -/
  | finish (waker : Option Nat)
  /-- `UnboundedRange::into_bounded`. -/
  | intoBounded (batch : Nat)
  /-- The `set_bounds` of `UnboundedRange::drop`. -/
  | dropUnbounded (batch : Nat)
  /-- `BoundedRange::to_vec` is called. -/
  | toVec (batch : Nat)
  /-- `to_vec` copies one cell. -/
  | copy (batch : Nat)
  /-- `BoundedRange::into_iter`. -/
  | intoIter (batch : Nat)
  /-- `BufferIter::next`. -/
  | next (batch : Nat)
  /-- A `BoundedRange` or a `BufferIter` is dropped. -/
  | drop (batch : Nat)
  /-- A destructor drops one cell. -/
  | dropCell (batch : Nat)
  /-- The `fetch_sub` of `deoccupy_region`. -/
  | release (batch : Nat)
  /-- One iteration of the wake loop. -/
  | steal (batch : Nat) (retry : Bool)
  /-- `to_vec` or the destructor returns. -/
  | complete (batch : Nat)
  deriving Repr, DecidableEq

/-- The range that the action is about. -/
def Action.batch? {Task : Type} : Action Task → Option Nat
  | .intoBounded batch | .dropUnbounded batch | .toVec batch
  | .copy batch | .intoIter batch | .next batch | .drop batch
  | .dropCell batch | .release batch | .steal batch _
  | .complete batch => some batch
  | .push _ | .owner | .finish _ => none

variable {width : PointerWidth} {Task : Type}

/-- A queue without tasks and without ranges. -/
def initial : State Task where
  queue := Queue.initial fun _ => none
  call := none
  pushed := []
  refused := []
  holders := fun _ => .unbounded
  taken := fun _ => []

namespace State

/-- Take a step of the queue. -/
def onQueue
    (N : BufferSize width)
    (state : State Task)
    (action : Queue.Action (Option Task) Nat) :
    Option (State Task) :=
  (Queue.step N state.queue action).map fun queue =>
    { state with queue := queue }

/-- Replace the holder of one range. -/
def setHolder
    (state : State Task)
    (batch : Nat)
    (holder : Holder) :
    State Task :=
  { state with holders := Function.update state.holders batch holder }

/-- `assume_init_read` or `assume_init_drop` of one cell of a range. -/
def take
    (state : State Task)
    (batch index : Nat) :
    State Task :=
  { state with
    taken :=
      Function.update state.taken batch
        (state.taken batch ++ [state.queue.buffer index]) }

/-- The task that the owner's next access accepts. -/
def accepting (state : State Task) : List Task :=
  match state.queue.owner with
  | .adding _ => state.call.toList
  | _ => []

/-- The tasks that a returning `push` gives back. -/
def refusing (state : State Task) : List Task :=
  match state.queue.owner with
  | .returning .queueFull => state.call.toList
  | _ => []

/-- The `push` that opened the range has returned it. -/
def isReturned (state : State Task) (batch : Nat) : Bool :=
  match state.queue.owner with
  | .returning (.opened opened) => opened ≠ batch
  | _ => true

/-- `deoccupy_region` of a range has returned. -/
def hasReleased (state : State Task) (batch : Nat) : Bool :=
  match state.queue.handles[batch]? with
  | some handle => handle.stage = .released
  | none => false

/-- `set_bounds` of a range that its code holds; `hold` makes use of it. -/
def bound
    (N : BufferSize width)
    (state : State Task)
    (batch : Nat)
    (hold : CounterRange → Holder) :
    Option (State Task) :=
  if state.isReturned batch then
    (state.onQueue N (.setBounds batch)).bind fun bounded =>
      (bounded.queue.handles[batch]?.bind Handle.range?).map fun range =>
        bounded.setHolder batch (hold range)
  else
    none

end State

/-- A destructor still has cells to visit. -/
def hasMore (needsDrop : Bool) (iter : BufferIter) : Bool :=
  needsDrop && iter.current < iter.range.stop

/-- One access of an iterator or a destructor, and the counter moves on. -/
def visit
    (N : BufferSize width)
    (state : State Task)
    (batch : Nat)
    (iter : BufferIter)
    (hold : BufferIter → Holder) :
    State Task :=
  (state.take batch (iter.current &&& (N.size - 1))).setHolder batch
    (hold { iter with current := iter.current + 1 })

/-- The effect of one action, `none` when it is not enabled. -/
def step
    (N : BufferSize width)
    (needsDrop : Bool)
    (state : State Task) :
    Action Task → Option (State Task)
  | .push task =>
      match state.call with
      | none =>
          State.onQueue N { state with call := some task }
            (.call fun _ => some task)
      | some _ => none
  | .owner =>
      State.onQueue N
        { state with pushed := state.pushed ++ state.accepting } .owner
  | .finish waker =>
      State.onQueue N {
        state with
        call := none
        refused := state.refused ++ state.refusing } (.finish waker)
  | .intoBounded batch =>
      match state.holders batch with
      | .unbounded => state.bound N batch .bounded
      | _ => none
  | .dropUnbounded batch =>
      match state.holders batch with
      | .unbounded =>
          state.bound N batch fun range => .dropping (intoIter range)
      | _ => none
  | .toVec batch =>
      match state.holders batch with
      | .bounded range =>
          some (state.setHolder batch
            (.copying range (taskIndices N range)))
      | _ => none
  | .copy batch =>
      match state.holders batch with
      | .copying range (index :: todo) =>
          some ((state.take batch index).setHolder batch
            (.copying range todo))
      | _ => none
  | .intoIter batch =>
      match state.holders batch with
      | .bounded range =>
          some (state.setHolder batch (.iterating (intoIter range)))
      | _ => none
  | .next batch =>
      match state.holders batch with
      | .iterating iter =>
          if iter.current < iter.range.stop then
            some (visit N state batch iter .iterating)
          else
            some state
      | _ => none
  | .drop batch =>
      match state.holders batch with
      | .bounded range =>
          some (state.setHolder batch (.dropping (intoIter range)))
      | .iterating iter =>
          some (state.setHolder batch (.dropping iter))
      | _ => none
  | .dropCell batch =>
      match state.holders batch with
      | .dropping iter =>
          if hasMore needsDrop iter then
            some (visit N state batch iter .dropping)
          else
            none
      | _ => none
  | .release batch =>
      match state.holders batch with
      | .copying _ [] =>
          (state.setHolder batch (.releasing true)).onQueue N
            (.deoccupyRegion batch)
      | .dropping iter =>
          if hasMore needsDrop iter then
            none
          else
            (state.setHolder batch (.releasing false)).onQueue N
              (.deoccupyRegion batch)
      | _ => none
  | .steal batch retry =>
      match state.holders batch with
      | .releasing _ => state.onQueue N (.steal batch retry)
      | _ => none
  | .complete batch =>
      match state.holders batch with
      | .releasing copied =>
          if state.hasReleased batch then
            some (state.setHolder batch (.finished copied))
          else
            none
      | _ => none

/-- The states of the runs of a queue and the code that uses it. -/
abbrev Reachable
    (N : BufferSize width)
    (needsDrop : Bool)
    (state : State Task) :
    Prop :=
  TransitionSystem.Reachable (step N needsDrop) TransitionSystem.anyStep
    initial state

/-! ## What one step can do -/

/-- The moves of the machine, one constructor for each kind of step. -/
inductive Move
    (N : BufferSize width)
    (needsDrop : Bool)
    (state : State Task) :
    Action Task → State Task → Prop where
  | push
      {task : Task}
      {queue : Queue.State (Option Task) Nat}
      (idle : state.call = none)
      (moved :
        Queue.Move N state.queue (.call fun _ => some task) queue) :
      Move N needsDrop state (.push task)
        { state with call := some task, queue := queue }
  | owner
      {queue : Queue.State (Option Task) Nat}
      (moved : OwnerMove N state.queue queue) :
      Move N needsDrop state .owner
        { state with
          pushed := state.pushed ++ state.accepting
          queue := queue }
  | finish
      {waker : Option Nat}
      {queue : Queue.State (Option Task) Nat}
      (moved : Queue.Move N state.queue (.finish waker) queue) :
      Move N needsDrop state (.finish waker)
        { state with
          call := none
          refused := state.refused ++ state.refusing
          queue := queue }
  | bound
      {action : Action Task}
      {batch : Nat}
      {queue : Queue.State (Option Task) Nat}
      {handle : Handle}
      {range : CounterRange}
      {holder : Holder}
      (on : action.batch? = some batch)
      (held : state.holders batch = .unbounded)
      (returned : state.isReturned batch = true)
      (moved : Queue.Move N state.queue (.setBounds batch) queue)
      (found : queue.handles[batch]? = some handle)
      (stage : handle.stage = .bounded range)
      (holds :
        holder = .bounded range ∨ holder = .dropping (intoIter range)) :
      Move N needsDrop state action
        (State.setHolder { state with queue := queue } batch holder)
  | rehold
      {action : Action Task}
      {batch : Nat}
      {range : CounterRange}
      {holder : Holder}
      (on : action.batch? = some batch)
      (held : state.holders batch = .bounded range)
      (holds :
        holder = .copying range (taskIndices N range) ∨
          holder = .iterating (intoIter range) ∨
            holder = .dropping (intoIter range)) :
      Move N needsDrop state action (state.setHolder batch holder)
  | copy
      {batch index : Nat}
      {range : CounterRange}
      {todo : List Nat}
      (held : state.holders batch = .copying range (index :: todo)) :
      Move N needsDrop state (.copy batch)
        ((state.take batch index).setHolder batch (.copying range todo))
  | visit
      {action : Action Task}
      {batch : Nat}
      {iter : BufferIter}
      {hold : BufferIter → Holder}
      (on : action.batch? = some batch)
      (held : state.holders batch = hold iter)
      (holds : hold = .iterating ∨ hold = .dropping)
      (more : iter.current < iter.range.stop) :
      Move N needsDrop state action
        (RangeTasks.visit N state batch iter hold)
  | exhausted
      {batch : Nat}
      {iter : BufferIter}
      (held : state.holders batch = .iterating iter)
      (atEnd : ¬ iter.current < iter.range.stop) :
      Move N needsDrop state (.next batch) state
  | stop
      {batch : Nat}
      {iter : BufferIter}
      (held : state.holders batch = .iterating iter) :
      Move N needsDrop state (.drop batch)
        (state.setHolder batch (.dropping iter))
  | releaseCopied
      {batch : Nat}
      {range : CounterRange}
      {queue : Queue.State (Option Task) Nat}
      (held : state.holders batch = .copying range [])
      (moved : Queue.Move N state.queue (.deoccupyRegion batch) queue) :
      Move N needsDrop state (.release batch)
        { state.setHolder batch (.releasing true) with queue := queue }
  | releaseDropped
      {batch : Nat}
      {iter : BufferIter}
      {queue : Queue.State (Option Task) Nat}
      (held : state.holders batch = .dropping iter)
      (emptied : hasMore needsDrop iter = false)
      (moved : Queue.Move N state.queue (.deoccupyRegion batch) queue) :
      Move N needsDrop state (.release batch)
        { state.setHolder batch (.releasing false) with queue := queue }
  | steal
      {batch : Nat}
      {copied retry : Bool}
      {queue : Queue.State (Option Task) Nat}
      (held : state.holders batch = .releasing copied)
      (moved : Queue.Move N state.queue (.steal batch retry) queue) :
      Move N needsDrop state (.steal batch retry)
        { state with queue := queue }
  | complete
      {batch : Nat}
      {copied : Bool}
      (held : state.holders batch = .releasing copied)
      (released : state.hasReleased batch = true) :
      Move N needsDrop state (.complete batch)
        (state.setHolder batch (.finished copied))

section Moves

variable
    {N : BufferSize width}
    {needsDrop : Bool}
    {state after : State Task}

theorem onQueue_some
    {action : Queue.Action (Option Task) Nat}
    (taken : state.onQueue N action = some after) :
    ∃ queue,
      Queue.Move N state.queue action queue ∧
        { state with queue := queue } = after := by
  rw [State.onQueue, Option.map_eq_some_iff] at taken
  obtain ⟨queue, stepped, shape⟩ := taken
  exact ⟨queue, step_move stepped, shape⟩

/-- Bounding a range hands its counters on. -/
theorem bound_some
    {batch : Nat}
    {hold : CounterRange → Holder}
    (taken : state.bound N batch hold = some after) :
    ∃ queue handle range,
      state.isReturned batch = true ∧
        Queue.Move N state.queue (.setBounds batch) queue ∧
        queue.handles[batch]? = some handle ∧
        handle.stage = .bounded range ∧
        State.setHolder { state with queue := queue } batch
            (hold range) =
          after := by
  unfold State.bound at taken
  split at taken
  case isFalse => cases taken
  case isTrue returned =>
    obtain ⟨middle, bounded, rest⟩ := Option.bind_eq_some_iff.mp taken
    obtain ⟨queue, moved, shape⟩ := onQueue_some bounded
    subst shape
    obtain ⟨range, ranged, shape⟩ := Option.map_eq_some_iff.mp rest
    obtain ⟨handle, found, counters⟩ := Option.bind_eq_some_iff.mp ranged
    refine ⟨queue, handle, range, returned, moved, found, ?_, shape⟩
    unfold Handle.range? at counters
    split at counters
    · rename_i stage
      cases counters
      exact stage
    · cases counters

/-- `step` makes no other move. -/
theorem step_move
    {action : Action Task}
    (taken : step N needsDrop state action = some after) :
    Move N needsDrop state action after := by
  cases action with
  | push task =>
      simp only [step] at taken
      split at taken
      · rename_i idle
        obtain ⟨queue, moved, shape⟩ := onQueue_some taken
        subst shape
        exact .push idle moved
      · cases taken
  | owner =>
      obtain ⟨queue, moved, shape⟩ := onQueue_some taken
      subst shape
      cases moved with
      | owner moved => exact .owner moved
  | finish waker =>
      obtain ⟨queue, moved, shape⟩ := onQueue_some taken
      subst shape
      exact .finish moved
  | intoBounded batch =>
      simp only [step] at taken
      split at taken
      · rename_i held
        obtain ⟨queue, handle, range, returned, moved, found, stage,
          shape⟩ := bound_some taken
        subst shape
        exact .bound rfl held returned moved found stage (.inl rfl)
      · cases taken
  | dropUnbounded batch =>
      simp only [step] at taken
      split at taken
      · rename_i held
        obtain ⟨queue, handle, range, returned, moved, found, stage,
          shape⟩ := bound_some taken
        subst shape
        exact .bound rfl held returned moved found stage (.inr rfl)
      · cases taken
  | toVec batch =>
      simp only [step] at taken
      split at taken <;> cases taken
      rename_i held
      exact .rehold rfl held (.inl rfl)
  | copy batch =>
      simp only [step] at taken
      split at taken <;> cases taken
      rename_i held
      exact .copy held
  | intoIter batch =>
      simp only [step] at taken
      split at taken <;> cases taken
      rename_i held
      exact .rehold rfl held (.inr (.inl rfl))
  | next batch =>
      simp only [step] at taken
      split at taken
      · rename_i held
        split at taken <;> cases taken
        · rename_i more
          exact .visit rfl held (.inl rfl) more
        · rename_i atEnd
          exact .exhausted held atEnd
      · cases taken
  | drop batch =>
      simp only [step] at taken
      split at taken <;> cases taken
      · rename_i held
        exact .rehold rfl held (.inr (.inr rfl))
      · rename_i held
        exact .stop held
  | dropCell batch =>
      simp only [step] at taken
      split at taken
      · rename_i held
        split at taken <;> cases taken
        rename_i more
        have below := (Bool.and_eq_true _ _ ▸ more).2
        exact .visit rfl held (.inr rfl) (of_decide_eq_true below)
      · cases taken
  | release batch =>
      simp only [step] at taken
      split at taken
      · rename_i held
        obtain ⟨queue, moved, shape⟩ := onQueue_some taken
        subst shape
        exact .releaseCopied held moved
      · rename_i held
        split at taken
        · cases taken
        · rename_i emptied
          obtain ⟨queue, moved, shape⟩ := onQueue_some taken
          subst shape
          exact .releaseDropped held (Bool.eq_false_iff.mpr emptied) moved
      · cases taken
  | steal batch retry =>
      simp only [step] at taken
      split at taken
      · rename_i held
        obtain ⟨queue, moved, shape⟩ := onQueue_some taken
        subst shape
        exact .steal held moved
      · cases taken
  | complete batch =>
      simp only [step] at taken
      split at taken
      · rename_i held
        split at taken <;> cases taken
        rename_i released
        exact .complete held released
      · cases taken

/-- A step of the machine is at most one step of its queue. -/
theorem Move.queue
    {action : Action Task}
    (moved : Move N needsDrop state action after) :
    after.queue = state.queue ∨
      ∃ queueAction,
        Queue.Move N state.queue queueAction after.queue := by
  cases moved with
  | owner moved => exact .inr ⟨_, .owner moved⟩
  | push idle moved => exact .inr ⟨_, moved⟩
  | bound on held returned moved found stage holds =>
      exact .inr ⟨_, moved⟩
  | finish moved | releaseCopied held moved
  | releaseDropped held emptied moved | steal held moved =>
      exact .inr ⟨_, moved⟩
  | rehold on held holds | copy held | visit on held holds more
  | exhausted held atEnd | stop held | complete held released =>
      exact .inl rfl

/-- A step about one range changes no handle but that range's. -/
def KeepsHandles
    (batch : Nat)
    (handles after : List Handle) :
    Prop :=
  after = handles ∨
    ∃ old new : Handle,
      handles[batch]? = some old ∧
        after = handles.set batch new ∧
        new.first = old.first ∧
        (old.isUnbounded = false → new.last = old.last)

/-- A step about one range leaves the owner and the other ranges alone. -/
structure Frame (batch : Nat) (state after : State Task) : Prop where
  owner : after.queue.owner = state.queue.owner
  cells : after.queue.cells = state.queue.cells
  call : after.call = state.call
  pushed : after.pushed = state.pushed
  handles : KeepsHandles batch state.queue.handles after.queue.handles
  holders :
    ∀ other, other ≠ batch → after.holders other = state.holders other
  taken :
    ∀ other, other ≠ batch → after.taken other = state.taken other

section Handles

variable
    {batch : Nat}
    {handles later : List Handle}

theorem KeepsHandles.length
    (keeps : KeepsHandles batch handles later) :
    later.length = handles.length := by
  rcases keeps with same | ⟨_, _, _, set, _⟩
  · rw [same]
  · rw [set, List.length_set]

/-- What becomes of the range's handle. -/
theorem KeepsHandles.handle
    (keeps : KeepsHandles batch handles later)
    {old : Handle}
    (found : handles[batch]? = some old) :
    ∃ new : Handle,
      later = handles.set batch new ∧
        new.first = old.first ∧
        (old.isUnbounded = false → new.last = old.last) := by
  rcases keeps with same | ⟨_, new, alsoFound, set, first, last⟩
  · refine ⟨old, ?_, rfl, fun _ => rfl⟩
    rw [same, ListUpdate.set_of_getElem? found]
  · rw [found] at alsoFound
    cases alsoFound
    exact ⟨new, set, first, last⟩

/-- Every handle began where it begins. -/
theorem KeepsHandles.first
    (keeps : KeepsHandles batch handles later)
    {other : Nat}
    {handle : Handle}
    (found : later[other]? = some handle) :
    ∃ old : Handle,
      handles[other]? = some old ∧ handle.first = old.first := by
  rcases keeps with same | ⟨old, new, foundOld, set, first, _⟩
  · rw [same] at found
    exact ⟨handle, found, rfl⟩
  · rw [set] at found
    rcases ListUpdate.getElem?_set_cases found with
      ⟨isBatch, isNew⟩ | ⟨_, before⟩
    · rw [isBatch, isNew]
      exact ⟨old, foundOld, first⟩
    · exact ⟨handle, before, rfl⟩

end Handles

/-- What a step of the queue about one handle leaves alone. -/
theorem queueMove_handle
    {action : Queue.Action (Option Task) Nat}
    {batch : Nat}
    {queue after : Queue.State (Option Task) Nat}
    (on :
      action = .setBounds batch ∨
        action = .deoccupyRegion batch ∨
          ∃ retry, action = .steal batch retry)
    (moved : Queue.Move N queue action after) :
    KeepsHandles batch queue.handles after.handles := by
  cases moved with
  | setBounds found stage =>
      rcases on with on | on | ⟨retry, on⟩ <;> cases on
      refine .inr ⟨_, _, found, rfl, rfl, fun bounded => ?_⟩
      rw [Handle.isUnbounded, stage] at bounded
      cases bounded
  | deoccupyRegion found stage =>
      rcases on with on | on | ⟨retry, on⟩ <;> cases on
      obtain ⟨stage, handles, _⟩ := deoccupyRegion_stage N queue batch _ _
      exact .inr ⟨_, _, found, handles, rfl, fun _ => rfl⟩
  | retry found stage =>
      exact .inl rfl
  | steal found stage =>
      rcases on with on | on | ⟨retry, on⟩ <;> cases on
      obtain ⟨stage, handles, _⟩ := steal_handles queue batch _ _
      exact .inr ⟨_, _, found, handles, rfl, fun _ => rfl⟩
  | call at_ | owner moved | finish at_ | register at_ | touch =>
      rcases on with on | on | ⟨retry, on⟩ <;> cases on

theorem Move.frame
    {action : Action Task}
    {batch : Nat}
    (moved : Move N needsDrop state action after)
    (on : action.batch? = some batch) :
    Frame batch state after := by
  have unchanged
      {holder : Holder} :
      ∀ other,
        other ≠ batch →
        Function.update state.holders batch holder other =
          state.holders other :=
    fun other differs => Function.update_of_ne differs _ _
  cases moved with
  | push idle moved | owner moved | finish moved =>
      cases on
  | bound here held returned moved found stage holds =>
      rw [on] at here
      cases here
      obtain ⟨owner, _, cells⟩ := moved.frame rfl
      exact ⟨owner, cells, rfl, rfl, queueMove_handle (.inl rfl) moved,
        unchanged, fun _ _ => rfl⟩
  | rehold here held holds =>
      rw [on] at here
      cases here
      exact ⟨rfl, rfl, rfl, rfl, .inl rfl, unchanged, fun _ _ => rfl⟩
  | copy held =>
      cases on
      exact ⟨rfl, rfl, rfl, rfl, .inl rfl, unchanged,
        fun _ differs => Function.update_of_ne differs _ _⟩
  | visit here held holds more =>
      rw [on] at here
      cases here
      exact ⟨rfl, rfl, rfl, rfl, .inl rfl, unchanged,
        fun _ differs => Function.update_of_ne differs _ _⟩
  | exhausted held atEnd =>
      exact ⟨rfl, rfl, rfl, rfl, .inl rfl, fun _ _ => rfl,
        fun _ _ => rfl⟩
  | stop held | complete held released =>
      cases on
      exact ⟨rfl, rfl, rfl, rfl, .inl rfl, unchanged, fun _ _ => rfl⟩
  | releaseCopied held moved | releaseDropped held emptied moved =>
      cases on
      obtain ⟨owner, _, cells⟩ := moved.frame rfl
      exact ⟨owner, cells, rfl, rfl,
        queueMove_handle (.inr (.inl rfl)) moved, unchanged,
        fun _ _ => rfl⟩
  | @steal _ _ retry _ held moved =>
      cases on
      obtain ⟨owner, _, cells⟩ := moved.frame rfl
      exact ⟨owner, cells, rfl, rfl,
        queueMove_handle (.inr (.inr ⟨retry, rfl⟩)) moved,
        fun _ _ => rfl, fun _ _ => rfl⟩

/-- The queue inside a run of the machine makes a run of its own. -/
theorem Reachable.queue
    (reachable : Reachable N needsDrop state) :
    Queue.Reachable N (fun _ => none) state.queue :=
  TransitionSystem.Reachable.project State.queue
    (fun _ _ taken =>
      ((step_move taken).queue).imp_right fun ⟨action, moved⟩ =>
        ⟨action, trivial, moved.taken⟩)
    reachable

/-! ## What the code that holds a range has after a step -/

/-- The range is within the destructor of an iterator. -/
def Holder.isDestroying : Holder → Bool
  | .dropping _ | .releasing false => true
  | _ => false

/-- A visit takes what its cell holds. -/
theorem visit_taken
    {batch : Nat}
    {iter : BufferIter}
    {hold : BufferIter → Holder} :
    (visit N state batch iter hold).taken batch =
      state.taken batch ++
        [state.queue.buffer (iter.current &&& (N.size - 1))] :=
  Function.update_self batch _ state.taken

theorem holder_of_intoBounded
    {batch : Nat}
    (held : state.holders batch = .unbounded)
    (stepped : step N needsDrop state (.intoBounded batch) = some after) :
    (∃ range, after.holders batch = .bounded range) ∧
      after.taken = state.taken := by
  simp only [step, held] at stepped
  obtain ⟨queue, handle, range, _, _, _, _, shape⟩ := bound_some stepped
  subst shape
  exact ⟨⟨range, Function.update_self batch _ state.holders⟩, rfl⟩

theorem holder_of_dropUnbounded
    {batch : Nat}
    (held : state.holders batch = .unbounded)
    (stepped :
      step N needsDrop state (.dropUnbounded batch) = some after) :
    ∃ iter, after.holders batch = .dropping iter := by
  simp only [step, held] at stepped
  obtain ⟨queue, handle, range, _, _, _, _, shape⟩ := bound_some stepped
  subst shape
  exact ⟨intoIter range, Function.update_self batch _ state.holders⟩

theorem of_intoIter
    {batch : Nat}
    {range : CounterRange}
    (held : state.holders batch = .bounded range)
    (stepped : step N needsDrop state (.intoIter batch) = some after) :
    after = state.setHolder batch (.iterating (intoIter range)) := by
  simp only [step, held, Option.some.injEq] at stepped
  exact stepped.symm

theorem of_drop
    {batch : Nat}
    {iter : BufferIter}
    (held : state.holders batch = .iterating iter)
    (stepped : step N needsDrop state (.drop batch) = some after) :
    after = state.setHolder batch (.dropping iter) := by
  simp only [step, held, Option.some.injEq] at stepped
  exact stepped.symm

theorem of_next
    {batch : Nat}
    {iter : BufferIter}
    (held : state.holders batch = .iterating iter)
    (stepped : step N needsDrop state (.next batch) = some after) :
    (iter.current < iter.range.stop ∧
        after = visit N state batch iter .iterating) ∨
      (¬ iter.current < iter.range.stop ∧ after = state) := by
  simp only [step, held] at stepped
  split at stepped
  · rename_i more
    exact .inl ⟨more, (Option.some.inj stepped).symm⟩
  · rename_i atEnd
    exact .inr ⟨atEnd, (Option.some.inj stepped).symm⟩

/-- A destructor's accesses are those of a destructor. -/
theorem isDestroying_of_step
    {action : Action Task}
    {batch : Nat}
    (destroying : (state.holders batch).isDestroying = true)
    (on :
      action = .dropCell batch ∨
        action = .release batch ∨
          ∃ retry, action = .steal batch retry)
    (stepped : step N needsDrop state action = some after) :
    (after.holders batch).isDestroying = true := by
  rcases on with isDropCell | isRelease | ⟨retry, isSteal⟩
  · subst isDropCell
    cases held : state.holders batch with
    | dropping iter =>
        simp only [step, held] at stepped
        split at stepped
        · cases stepped
          exact
            congrArg Holder.isDestroying
              (Function.update_self batch _ state.holders)
        · cases stepped
    | _ =>
        simp only [step, held] at stepped
        cases stepped
  · subst isRelease
    cases held : state.holders batch with
    | dropping iter =>
        simp only [step, held] at stepped
        split at stepped
        · cases stepped
        · obtain ⟨queue, _, shape⟩ := onQueue_some stepped
          subst shape
          exact
            congrArg Holder.isDestroying
              (Function.update_self batch _ state.holders)
    | copying range todo =>
        rw [held] at destroying
        cases destroying
    | _ =>
        simp only [step, held] at stepped
        cases stepped
  · subst isSteal
    cases held : state.holders batch with
    | releasing copied =>
        simp only [step, held] at stepped
        obtain ⟨queue, _, shape⟩ := onQueue_some stepped
        subst shape
        exact destroying
    | _ =>
        simp only [step, held] at stepped
        cases stepped

/-- A destructor that returns has destroyed the range. -/
theorem of_complete
    {batch : Nat}
    (destroying : (state.holders batch).isDestroying = true)
    (stepped : step N needsDrop state (.complete batch) = some after) :
    state.hasReleased batch = true ∧
      after = state.setHolder batch (.finished false) := by
  cases held : state.holders batch with
  | releasing copied =>
      simp only [step, held] at stepped
      rw [held] at destroying
      cases copied with
      | true =>
          cases destroying
      | false =>
          split at stepped
          · rename_i released
            exact ⟨released, (Option.some.inj stepped).symm⟩
          · cases stepped
  | _ =>
      simp only [step, held] at stepped
      cases stepped

end Moves

end StackQueue.RangeTasks
