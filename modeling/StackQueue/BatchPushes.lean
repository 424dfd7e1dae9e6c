import StackQueue.BatchCollect
import StackQueue.Callers

namespace StackQueue.BatchCollect

open Queue
open Callers (CallerInvariant)

/-!
# The tasks of `BatchCollect` futures on their way into the buffer

The futures are callers of `push`, so `CallerInvariant` says whose tasks were
accepted and who opened which range.  `PushInvariant` follows every task
besides: it is in its future, in the push in progress, or in the cell of its
position for as long as that cell is not reused.  It holds for every buffer
size and pointer width, since it says nothing about when a cell is reused.
-/

variable {Task : Type}

/--
The queue and the callers of its `push`, without the futures and what they
hold of their ranges.
-/
def State.callers (state : State Task) : Callers.State Task where
  base := {
    (RangeTasks.initial : RangeTasks.State Task) with
    queue := state.queue
    call := state.call.map Prod.snd
    pushed := state.tasks }
  call := state.call.map Prod.fst
  pushers := state.pushers
  openers := state.openers

/-- The owner moves the task of the push in progress into its cell. -/
def CallAt
    (call : Option (Nat × Task))
    (buffer : Nat → Option Task) :
    Owner (Option Task) → Prop
  | .entered write | .checking write _ | .loading write _
  | .writing write _ =>
      ∃ entry, call = some entry ∧ write = fun _ => some entry.2
  | .adding index =>
      ∃ entry, call = some entry ∧ buffer index = some entry.2
  | _ => True

/-- The poll that accepted the future's task has begun to return. -/
def Future.isAccepted : Future Task → Bool
  | .unbatched _ | .pushing => false
  | .collecting _ | .copying _ _ _ | .releasing _ _ | .batched => true

/-- How a future goes on when its `push` returns. -/
def Resumes
    (future : Nat)
    (taken : Task)
    (nones : List Nat)
    (stage : Future Task) :
    Admission → Prop
  | .queueFull => stage = .unbatched taken
  | .joined => stage = .batched ∧ future ∈ nones
  | .opened batch => stage = .collecting batch

/-- Where the tasks of the futures are. -/
structure PushInvariant
    {width : PointerWidth}
    (N : BufferSize width)
    (task : Nat → Task)
    (state : State Task) : Prop where
  /-- The futures push their own tasks. -/
  callers : CallerInvariant task state.callers
  callAt :
    CallAt state.call state.queue.buffer state.queue.owner
  /-- A cell holds the task of its latest position. -/
  stored :
    ∀ (position : Nat) (entry : Nat × Task),
      state.pushed[position]? = some entry →
      state.queue.accepted ≤ position + N.size →
      (state.queue.owner.isAdmitted = true →
        state.queue.accepted < position + N.size) →
      state.queue.buffer (position % N.size) = some entry.2
  pushing :
    ∀ future,
      state.futures future = .pushing ↔
        ∃ taken, state.call = some (future, taken)
  unbatched :
    ∀ future held,
      state.futures future = .unbatched held →
      held = task future ∧ future ∉ state.pushers
  waiting :
    ∀ future,
      future ∉ state.pushers →
      state.futures future = .unbatched (task future) ∨
        state.call = some (future, task future)

/-- The future within `push` is the caller. -/
theorem State.callers_call
    {state : State Task}
    {entry : Nat × Task}
    (called : state.call = some entry) :
    state.callers.call = some entry.1 := by
  rw [State.callers, called]
  rfl

/-- The owner's steps are those of the callers' machine. -/
theorem State.callers_owner
    (state : State Task)
    (queue : Queue.State (Option Task) Nat) :
    State.callers
        { state with
          queue := queue
          pushed := state.pushed ++ state.accepting
          openers := state.openers ++ state.opening } =
      { state.callers with
        pushers := state.callers.pushers ++ state.callers.accepting
        openers := state.callers.openers ++ state.callers.opening
        base := {
          state.callers.base with
          pushed :=
            state.callers.base.pushed ++ state.callers.base.accepting
          queue := queue } } := by
  have pushers :
      state.accepting.map Prod.fst = state.callers.accepting := by
    unfold State.accepting Callers.State.accepting State.callers
    cases state.queue.owner <;> cases state.call <;> rfl
  have tasks :
      state.accepting.map Prod.snd = state.callers.base.accepting := by
    unfold State.accepting RangeTasks.State.accepting State.callers
    cases state.queue.owner <;> cases state.call <;> rfl
  have openers : state.opening = state.callers.opening := by
    unfold State.opening Callers.State.opening State.callers
    cases state.queue.owner <;> cases state.call <;> rfl
  rw [← pushers, ← tasks, ← openers]
  simp only [State.callers, State.pushers, State.tasks, List.map_append]

namespace PushInvariant

variable
    {width : PointerWidth}
    {N : BufferSize width}
    {task : Nat → Task}
    {state after : State Task}

theorem count
    (invariant : PushInvariant N task state) :
    state.pushed.length = state.queue.accepted := by
  have count := invariant.callers.count
  change state.pushers.length = state.queue.accepted at count
  rw [State.pushers, List.length_map] at count
  exact count

/-- The accepted tasks are the futures' own. -/
theorem ownTasks
    (invariant : PushInvariant N task state) :
    ∀ entry ∈ state.pushed, entry.2 = task entry.1 := by
  have own := invariant.callers.ownTasks
  change state.tasks = state.pushers.map task at own
  rw [State.tasks, State.pushers, List.map_map] at own
  exact List.map_inj_left.mp own

/-- The task of the push in progress is its future's own. -/
theorem called
    (invariant : PushInvariant N task state)
    {future : Nat}
    {taken : Task}
    (called : state.call = some (future, taken)) :
    taken = task future := by
  have given := invariant.callers.given
  change
    state.call.map Prod.snd =
      (state.call.map Prod.fst).map task at given
  rw [called] at given
  exact Option.some.inj given

/-- A range is opened within the push of some future. -/
theorem exists_call
    (invariant : PushInvariant N task state)
    {index baseSlot : Nat}
    (at_ : state.queue.owner = .occupying index baseSlot) :
    ∃ entry, state.call = some entry := by
  have ownerAt := invariant.callers.ownerAt
  change Callers.OwnerAt _ _ _ state.queue.owner at ownerAt
  rw [at_] at ownerAt
  obtain ⟨future, called, _⟩ := ownerAt
  obtain ⟨entry, isCall, _⟩ := Option.map_eq_some_iff.mp called
  exact ⟨entry, isCall⟩

/-- A future that is not within a poll and has given its task was accepted. -/
theorem mem_pushers
    (invariant : PushInvariant N task state)
    {future : Nat}
    (accepted : (state.futures future).isAccepted = true) :
    future ∈ state.pushers := by
  by_contra fresh
  rcases invariant.waiting future fresh with waits | called
  · rw [waits] at accepted
    cases accepted
  · rw [(invariant.pushing future).mpr ⟨_, called⟩] at accepted
    cases accepted

theorem initial :
    PushInvariant N task (initial task) where
  callers := .initial
  callAt := trivial
  stored := by simp [BatchCollect.initial]
  pushing := by simp [BatchCollect.initial]
  unbatched := by simp [BatchCollect.initial, State.pushers]
  waiting := by simp [BatchCollect.initial]

/-- A step that leaves the pushes and the buffer alone. -/
theorem of_same
    (invariant : PushInvariant N task state)
    (callers : CallerInvariant task after.callers)
    (cells : after.queue.cells = state.queue.cells)
    (buffer : after.queue.buffer = state.queue.buffer)
    (pushed : after.pushed = state.pushed)
    (call : after.call = state.call)
    (futures : after.futures = state.futures)
    (callAt :
      CallAt state.call state.queue.buffer after.queue.owner)
    (admitted :
      state.queue.owner.isAdmitted = true →
      after.queue.owner.isAdmitted = true) :
    PushInvariant N task after where
  callers := callers
  callAt := by
    rw [call, buffer]
    exact callAt
  stored := by
    intro position entry atPosition near strict
    rw [Queue.State.accepted, cells] at near strict
    rw [pushed] at atPosition
    rw [buffer]
    exact invariant.stored position entry atPosition near
      fun wasAdmitted => strict (admitted wasAdmitted)
  pushing := by
    rw [futures, call]
    exact invariant.pushing
  unbatched := by
    rw [State.pushers, pushed, futures]
    exact invariant.unbatched
  waiting := by
    rw [State.pushers, pushed, futures, call]
    exact invariant.waiting

/-- A step about one range leaves the callers of `push` alone. -/
theorem callers_of_range
    (invariant : PushInvariant N task state)
    {action : Queue.Action (Option Task) Nat}
    {batch : Nat}
    {queue : Queue.State (Option Task) Nat}
    (on :
      action = .setBounds batch ∨
        action = .deoccupyRegion batch ∨
          ∃ retry, action = .steal batch retry)
    (moved : Queue.Move N state.queue action queue)
    (owner : queue.owner = state.queue.owner)
    (cells : queue.cells = state.queue.cells) :
    CallerInvariant task
      (State.callers { state with queue := queue }) := by
  have frame :
      RangeTasks.Frame batch state.callers.base
        { state.callers.base with queue := queue } :=
    ⟨owner, cells, rfl, rfl, RangeTasks.queueMove_handle on moved,
      fun _ _ => rfl, fun _ _ => rfl⟩
  exact invariant.callers.of_frame frame

/-- A step of an accepted future, and of the range it holds. -/
theorem of_batch
    (invariant : PushInvariant N task state)
    (callers : CallerInvariant task after.callers)
    {future : Nat}
    {stage : Future Task}
    (wasAccepted : (state.futures future).isAccepted = true)
    (isAccepted : stage.isAccepted = true)
    (futures :
      after.futures = Function.update state.futures future stage)
    (cells : after.queue.cells = state.queue.cells)
    (buffer : after.queue.buffer = state.queue.buffer)
    (owner : after.queue.owner = state.queue.owner)
    (pushed : after.pushed = state.pushed)
    (call : after.call = state.call) :
    PushInvariant N task after := by
  have member := invariant.mem_pushers wasAccepted
  have atFuture : after.futures future = stage := by
    rw [futures, Function.update_self]
  have elsewhere {other : Nat} (differs : other ≠ future) :
      after.futures other = state.futures other := by
    rw [futures, Function.update_of_ne differs]
  have pushers : after.pushers = state.pushers := by
    rw [State.pushers, pushed, State.pushers]
  constructor
  case callers => exact callers
  case callAt =>
    rw [call, buffer, owner]
    exact invariant.callAt
  case stored =>
    rw [pushed, Queue.State.accepted, cells, owner, buffer]
    exact invariant.stored
  case pushing =>
    intro other
    rw [call]
    by_cases same : other = future
    · subst same
      rw [atFuture, ← invariant.pushing]
      constructor
      · intro isPushing
        rw [isPushing] at isAccepted
        cases isAccepted
      · intro wasPushing
        rw [wasPushing] at wasAccepted
        cases wasAccepted
    · rw [elsewhere same]
      exact invariant.pushing other
  case unbatched =>
    intro other held holds
    rw [pushers]
    by_cases same : other = future
    · subst same
      rw [atFuture] at holds
      rw [holds] at isAccepted
      cases isAccepted
    · rw [elsewhere same] at holds
      exact invariant.unbatched other held holds
  case waiting =>
    intro other fresh
    rw [pushers] at fresh
    have differs : other ≠ future := by
      intro same
      exact fresh (same ▸ member)
    rw [elsewhere differs, call]
    exact invariant.waiting other fresh

/-- A future moves its task into `push`. -/
theorem call
    (invariant : PushInvariant N task state)
    (callers : CallerInvariant task after.callers)
    {future : Nat}
    {held : Task}
    (holds : state.futures future = .unbatched held)
    (noCall : state.call = none)
    (idle : state.queue.owner = .idle)
    (futures :
      after.futures = Function.update state.futures future .pushing)
    (queue :
      after.queue =
        { state.queue with owner := .entered fun _ => some held })
    (pushed : after.pushed = state.pushed)
    (called : after.call = some (future, held)) :
    PushInvariant N task after := by
  obtain ⟨ownTask, fresh⟩ := invariant.unbatched future held holds
  have atFuture : after.futures future = .pushing := by
    rw [futures, Function.update_self]
  have elsewhere {other : Nat} (differs : other ≠ future) :
      after.futures other = state.futures other := by
    rw [futures, Function.update_of_ne differs]
  have pushers : after.pushers = state.pushers := by
    rw [State.pushers, pushed, State.pushers]
  constructor
  case callers => exact callers
  case callAt =>
    rw [called, queue]
    exact ⟨(future, held), rfl, rfl⟩
  case stored =>
    intro position entry atPosition near strict
    rw [queue] at near ⊢
    rw [pushed] at atPosition
    refine invariant.stored position entry atPosition near ?_
    rw [idle]
    exact fun admitted => by cases admitted
  case pushing =>
    intro other
    rw [called]
    by_cases same : other = future
    · subst same
      simp [atFuture]
    · rw [elsewhere same, invariant.pushing, noCall]
      simp [Ne.symm same]
  case unbatched =>
    intro other otherHeld otherHolds
    rw [pushers]
    by_cases same : other = future
    · subst same
      rw [atFuture] at otherHolds
      cases otherHolds
    · rw [elsewhere same] at otherHolds
      exact invariant.unbatched other otherHeld otherHolds
  case waiting =>
    intro other otherFresh
    rw [pushers] at otherFresh
    by_cases same : other = future
    · subst same
      right
      rw [called, ownTask]
    · left
      rw [elsewhere same]
      rcases invariant.waiting other otherFresh with waits | inCall
      · exact waits
      · rw [noCall] at inCall
        cases inCall

/-- The push in progress returns, and its future goes on from there. -/
theorem finish
    (invariant : PushInvariant N task state)
    (callers : CallerInvariant task after.callers)
    {future : Nat}
    {taken : Task}
    {admission : Admission}
    {stage : Future Task}
    (called : state.call = some (future, taken))
    (at_ : state.queue.owner = .returning admission)
    (resumes : Resumes future taken after.nones stage admission)
    (futures :
      after.futures = Function.update state.futures future stage)
    (cells : after.queue.cells = state.queue.cells)
    (buffer : after.queue.buffer = state.queue.buffer)
    (idle : after.queue.owner = .idle)
    (pushed : after.pushed = state.pushed)
    (returned : after.call = none) :
    PushInvariant N task after := by
  have atFuture : after.futures future = stage := by
    rw [futures, Function.update_self]
  have elsewhere {other : Nat} (differs : other ≠ future) :
      after.futures other = state.futures other := by
    rw [futures, Function.update_of_ne differs]
  have pushers : after.pushers = state.pushers := by
    rw [State.pushers, pushed, State.pushers]
  have notPushing : stage ≠ .pushing := by
    intro isPushing
    subst isPushing
    cases admission <;> simp [Resumes] at resumes
  have caller := State.callers_call called
  have fresh (full : admission = .queueFull) :
      future ∉ state.pushers :=
    invariant.callers.fresh_of_refused caller (full ▸ at_)
  have accepted (notFull : admission ≠ .queueFull) :
      future ∈ state.pushers :=
    invariant.callers.accepted_of_returning caller at_ notFull
  constructor
  case callers => exact callers
  case callAt =>
    rw [idle]
    trivial
  case stored =>
    intro position entry atPosition near strict
    rw [Queue.State.accepted, cells] at near
    rw [pushed] at atPosition
    rw [buffer]
    refine invariant.stored position entry atPosition near ?_
    rw [at_]
    exact fun admitted => by cases admitted
  case pushing =>
    intro other
    rw [returned]
    by_cases same : other = future
    · subst same
      simp [atFuture, notPushing]
    · rw [elsewhere same, invariant.pushing, called]
      simp [Ne.symm same]
  case unbatched =>
    intro other held holds
    rw [pushers]
    by_cases same : other = future
    · subst same
      rw [atFuture] at holds
      subst holds
      cases admission with
      | queueFull =>
          cases resumes
          exact ⟨invariant.called called, fresh rfl⟩
      | joined => cases resumes.1
      | opened batch => cases resumes
    · rw [elsewhere same] at holds
      exact invariant.unbatched other held holds
  case waiting =>
    intro other otherFresh
    rw [pushers] at otherFresh
    left
    by_cases same : other = future
    · subst same
      by_cases full : admission = .queueFull
      · subst full
        rw [atFuture, resumes, invariant.called called]
      · exact (otherFresh (accepted full)).elim
    · rw [elsewhere same]
      rcases invariant.waiting other otherFresh with waits | inCall
      · exact waits
      · rw [called] at inCall
        cases inCall
        exact (same rfl).elim

/-- The owner writes the task into the cell of the next position. -/
theorem write
    (invariant : PushInvariant N task state)
    (callers : CallerInvariant task after.callers)
    {index : Nat}
    {entry : Nat × Task}
    (next : index = state.queue.accepted % N.size)
    (called : state.call = some entry)
    (queue :
      after.queue =
        { state.queue.updateCell index fun _ => some entry.2 with
          owner := .adding index })
    (pushed : after.pushed = state.pushed)
    (call : after.call = state.call)
    (futures : after.futures = state.futures) :
    PushInvariant N task after where
  callers := callers
  callAt := by
    rw [call, queue]
    refine ⟨entry, called, ?_⟩
    simp [Queue.State.updateCell]
  stored := by
    intro position other atPosition near strict
    rw [pushed] at atPosition
    rw [queue] at near strict ⊢
    have before : position < state.queue.accepted := by
      rw [← invariant.count]
      exact (List.getElem?_eq_some_iff.mp atPosition).1
    have room : state.queue.accepted < position + N.size := strict rfl
    have differs : position % N.size ≠ index := by
      rw [next]
      exact CircularBuffer.mod_ne_of_window before room
    simp only [Queue.State.updateCell, Function.update_of_ne differs]
    exact invariant.stored position other atPosition near fun _ => room
  pushing := by
    rw [futures, call]
    exact invariant.pushing
  unbatched := by
    rw [State.pushers, pushed, futures]
    exact invariant.unbatched
  waiting := by
    rw [State.pushers, pushed, futures, call]
    exact invariant.waiting

/-- The `fetch_add` accepts the task. -/
theorem add
    (invariant : PushInvariant N task state)
    (callers : CallerInvariant task after.callers)
    {index baseSlot : Nat}
    {entry : Nat × Task}
    (next : index = state.queue.accepted % N.size)
    (called : state.call = some entry)
    (written : state.queue.buffer index = some entry.2)
    (cells : after.queue.cells = state.queue.cells ++ [index])
    (buffer : after.queue.buffer = state.queue.buffer)
    (owner : after.queue.owner = .replacing index baseSlot)
    (pushed : after.pushed = state.pushed ++ [entry])
    (call : after.call = state.call)
    (futures : after.futures = state.futures) :
    PushInvariant N task after := by
  have accepted : after.queue.accepted = state.queue.accepted + 1 := by
    simp [Queue.State.accepted, cells]
  have pushers : after.pushers = state.pushers ++ [entry.1] := by
    simp [State.pushers, pushed]
  constructor
  case callers => exact callers
  case callAt =>
    rw [owner]
    trivial
  case stored =>
    intro position other atPosition near strict
    rw [pushed] at atPosition
    rw [accepted] at near
    rw [buffer]
    rcases ListUpdate.getElem?_concat_cases atPosition with
      earlier | ⟨last, isNew⟩
    · refine invariant.stored position other earlier ?_ fun _ => ?_
      · omega
      · omega
    · rw [last, invariant.count, ← next, isNew]
      exact written
  case pushing =>
    rw [futures, call]
    exact invariant.pushing
  case unbatched =>
    intro other held holds
    rw [futures] at holds
    obtain ⟨ownTask, otherFresh⟩ := invariant.unbatched other held holds
    refine ⟨ownTask, ?_⟩
    rw [pushers, List.mem_append, List.mem_singleton]
    rintro (earlier | isEntry)
    · exact otherFresh earlier
    · have isPushing : state.futures other = .pushing :=
        (invariant.pushing other).mpr ⟨entry.2, by rw [called, isEntry]⟩
      rw [isPushing] at holds
      cases holds
  case waiting =>
    intro other otherFresh
    rw [pushers, List.mem_append, not_or] at otherFresh
    rw [futures, call]
    exact invariant.waiting other otherFresh.1

/-- The owner's steps move the task into its cell and count it. -/
theorem ownerMove
    (invariant : PushInvariant N task state)
    (phase : PhaseInvariant N state.queue)
    {queue : Queue.State (Option Task) Nat}
    (moved : OwnerMove N state.queue queue) :
    PushInvariant N task
      { state with
        queue := queue
        pushed := state.pushed ++ state.accepting
        openers := state.openers ++ state.opening } := by
  have callAt := invariant.callAt
  have callers := invariant.callers.owner phase moved
  rw [← State.callers_owner] at callers
  cases moved with
  | enterAtBoundary at_ boundary | enterInside at_ inside
  | cachedFree at_ free | cachedBusy at_ busy | loadedFree at_ free =>
      rw [at_] at callAt
      refine invariant.of_same callers rfl rfl ?_ rfl rfl callAt ?_
      · simp [State.accepting, at_]
      · rw [at_]
        exact fun admitted => by cases admitted
  | loadedBusy at_ busy | replaceJoined at_ same
  | replaceOpening at_ differ | occupy at_ =>
      refine invariant.of_same callers rfl rfl ?_ rfl rfl trivial ?_
      · simp [State.accepting, at_]
      · rw [at_]
        exact fun admitted => by cases admitted
  | write at_ =>
      have owner := phase.owner
      rw [at_] at owner callAt
      obtain ⟨entry, called, written⟩ := callAt
      subst written
      exact invariant.write callers owner.1 called rfl
        (by simp [State.accepting, at_]) rfl rfl
  | add at_ =>
      have owner := phase.owner
      rw [at_] at owner callAt
      obtain ⟨entry, called, written⟩ := callAt
      exact invariant.add callers owner.1 called written rfl rfl rfl
        (by simp [State.accepting, at_, called]) rfl rfl

/-- Every step keeps the tasks where the invariant says they are. -/
theorem step
    (invariant : PushInvariant N task state)
    (phase : PhaseInvariant N state.queue)
    {action : Action}
    (taken : BatchCollect.step N state action = some after) :
    PushInvariant N task after := by
  cases action with
  | poll future =>
      simp only [BatchCollect.step] at taken
      split at taken
      · rename_i held holds noCall
        obtain ⟨queue, stepped, shape⟩ := onQueue_some taken
        subst shape
        obtain ⟨ownTask, fresh⟩ := invariant.unbatched future held holds
        subst ownTask
        have callers := invariant.callers.push fresh (step_move stepped)
        cases step_move stepped with
        | call at_ =>
            exact invariant.call callers holds noCall at_ rfl rfl rfl rfl
      · cases taken
        exact invariant.of_same invariant.callers rfl rfl rfl rfl rfl
          invariant.callAt id
      · cases taken
  | owner =>
      obtain ⟨queue, stepped, shape⟩ := onQueue_some taken
      subst shape
      cases step_move stepped with
      | owner moved => exact invariant.ownerMove phase moved
  | finish =>
      simp only [BatchCollect.step] at taken
      split at taken
      · rename_i future held called at_
        obtain ⟨queue, stepped, shape⟩ := onQueue_some taken
        subst shape
        have callers := invariant.callers.finish (step_move stepped)
        cases step_move stepped with
        | register _ =>
            exact invariant.finish { callers with } called at_ rfl rfl rfl
              rfl rfl rfl rfl
      · rename_i future held called at_
        obtain ⟨queue, stepped, shape⟩ := onQueue_some taken
        subst shape
        have callers := invariant.callers.finish (step_move stepped)
        cases step_move stepped with
        | finish _ =>
            exact invariant.finish { callers with } called at_
              ⟨rfl, by simp⟩ rfl rfl rfl rfl rfl rfl
      · rename_i future held batch called at_
        obtain ⟨queue, stepped, shape⟩ := onQueue_some taken
        subst shape
        have callers := invariant.callers.finish (step_move stepped)
        cases step_move stepped with
        | finish _ =>
            exact invariant.finish { callers with } called at_ rfl rfl rfl
              rfl rfl rfl rfl
      · cases taken
  | collect future =>
      simp only [BatchCollect.step] at taken
      split at taken
      · rename_i batch holding
        obtain ⟨queue, handle, range, stepped, _, _, shape⟩ :=
          collect_some taken
        subst shape
        have moved := step_move stepped
        obtain ⟨owner, buffer, cells⟩ := moved.frame rfl
        have callers :=
          invariant.callers_of_range (.inl rfl) moved owner cells
        exact invariant.of_batch callers (by rw [holding]; rfl) rfl rfl
          cells buffer owner rfl rfl
      · cases taken
  | copy future =>
      simp only [BatchCollect.step] at taken
      split at taken <;> cases taken
      rename_i batch index todo copied holding
      exact invariant.of_batch invariant.callers (by rw [holding]; rfl) rfl
        rfl rfl rfl rfl rfl rfl
  | release future =>
      simp only [BatchCollect.step] at taken
      split at taken
      · rename_i batch copied holding
        obtain ⟨queue, stepped, shape⟩ := onQueue_some taken
        subst shape
        have moved := step_move stepped
        obtain ⟨owner, buffer, cells⟩ := moved.frame rfl
        have callers :=
          invariant.callers_of_range (.inr (.inl rfl)) moved owner cells
        exact invariant.of_batch callers (by rw [holding]; rfl) rfl rfl
          cells buffer owner rfl rfl
      · cases taken
  | steal future retry =>
      simp only [BatchCollect.step] at taken
      split at taken
      · obtain ⟨queue, stepped, shape⟩ := onQueue_some taken
        subst shape
        have moved := step_move stepped
        obtain ⟨owner, buffer, cells⟩ := moved.frame rfl
        have callers :=
          invariant.callers_of_range (.inr (.inr ⟨retry, rfl⟩)) moved owner
            cells
        refine invariant.of_same callers cells buffer rfl rfl rfl ?_ ?_
        · simp only [owner]
          exact invariant.callAt
        · simp only [owner]
          exact id
      · cases taken
  | complete future =>
      simp only [BatchCollect.step] at taken
      split at taken
      · rename_i batch copied holding
        split at taken <;> cases taken
        exact invariant.of_batch invariant.callers (by rw [holding]; rfl)
          rfl rfl rfl rfl rfl rfl rfl
      · cases taken

end PushInvariant

/-- In every reachable state the tasks are where the invariant says. -/
theorem Reachable.pushInvariant
    {width : PointerWidth}
    {N : BufferSize width}
    {task : Nat → Task}
    {state : State Task}
    (reachable : Reachable N task state) :
    PushInvariant N task state :=
  TransitionSystem.Reachable.invariant PushInvariant.initial
    (fun earlier invariant _ taken =>
      invariant.step
        (Queue.Reachable.phaseInvariant (Reachable.queue earlier)) taken)
    reachable

end StackQueue.BatchCollect
