import StackQueue.IteratorAnswers
import StackQueue.TaskWork

namespace StackQueue.TaskQueue

open Queue TransitionSystem

/-!
# Progress

While anything is left of a call or a batch, one of its steps is enabled: no
thread of the queue waits for another one, but for a drop that has seen
`SETTING_VALUE`.  With the work that every step uses up, the steps of a queue
come to an end with all batches finished, in whatever order they are taken.
-/

variable {Task Value : Type}

/--
The call has returned and every batch is finished; a drop that has not
returned finds `SETTING_VALUE` in its word again and again.
-/
structure Settled (state : State Task Value) : Prop where
  idle : state.queue.owner = .idle
  finished :
    ∀ batch,
      batch < state.queue.handles.length →
      state.batches batch = .finished
  drops :
    ∀ future receiver seen,
      state.futures future = .dropping receiver seen →
      isSetting seen = true ∧
        isSetting (state.queue.buffer receiver.state).state = true

/-! ## Batches that are not spawned yet -/

/-- A range without a batch is the one that the call is about to return. -/
def SpawnsAll (state : State Task Value) : Prop :=
  ∀ batch,
    batch < state.queue.handles.length →
    state.batches batch = .unspawned →
    state.queue.owner = .returning (.opened batch)

section Spawning

variable
    {width : PointerWidth}
    {program : Program Task Value}
    {N : BufferSize width}
    {task : Nat → Task}
    {state after : State Task Value}

theorem SpawnsAll.initial :
    SpawnsAll (TaskQueue.initial task : State Task Value) := by
  intro batch inBounds
  cases inBounds

/-- A step that leaves the ranges, the owner and most batches alone. -/
theorem SpawnsAll.of_batches
    (spawnsAll : SpawnsAll state)
    (length :
      after.queue.handles.length = state.queue.handles.length)
    (owner : after.queue.owner = state.queue.owner)
    (batches :
      ∀ batch,
        after.batches batch = .unspawned →
        state.batches batch = .unspawned) :
    SpawnsAll after := by
  intro batch inBounds unspawned
  rw [length] at inBounds
  rw [owner]
  exact spawnsAll batch inBounds (batches batch unspawned)

/-- A batch that is spawned is not spawned again. -/
theorem unspawned_of_update
    {before after : Nat → Batch Value}
    {stepping : Nat}
    {next : Batch Value}
    (batches : after = Function.update before stepping next)
    (spawned : next ≠ .unspawned)
    (batch : Nat)
    (unspawned : after batch = .unspawned) :
    batch ≠ stepping ∧ before batch = .unspawned := by
  by_cases same : batch = stepping
  · rw [same, batches, Function.update_self] at unspawned
    exact (spawned unspawned).elim
  · rw [batches, Function.update_of_ne same] at unspawned
    exact ⟨same, unspawned⟩

/-- Within a call the ranges that exist have been spawned. -/
theorem SpawnsAll.ownerMove
    (spawnsAll : SpawnsAll state)
    {queue : Queue.State (TaskRef Task) Nat}
    (moved : OwnerMove N state.queue queue) :
    SpawnsAll { state.progress with queue := queue } := by
  cases moved with
  | occupy at_ =>
      intro batch inBounds unspawned
      rw [List.length_append, List.length_singleton] at inBounds
      rcases Nat.lt_succ_iff_lt_or_eq.mp inBounds with older | newest
      · have returning := spawnsAll batch older unspawned
        rw [at_] at returning
        cases returning
      · rw [newest]
  | enterAtBoundary at_ _ | enterInside at_ _ | cachedFree at_ _
  | cachedBusy at_ _ | loadedFree at_ _ | loadedBusy at_ _ | write at_
  | add at_ | replaceJoined at_ _ | replaceOpening at_ _ =>
      intro batch inBounds unspawned
      have returning := spawnsAll batch inBounds unspawned
      rw [at_] at returning
      cases returning

/-- Where no call is about to return a range, all ranges are spawned. -/
theorem SpawnsAll.of_spawned
    (spawnsAll : SpawnsAll state)
    (notReturning :
      ∀ batch, state.queue.owner ≠ .returning (.opened batch))
    (handles : after.queue.handles = state.queue.handles)
    (batches : after.batches = state.batches) :
    SpawnsAll after := by
  intro batch inBounds unspawned
  rw [handles] at inBounds
  rw [batches] at unspawned
  exact (notReturning batch (spawnsAll batch inBounds unspawned)).elim

/-- A call spawns the range that it returns, and no step unspawns one. -/
theorem SpawnsAll.move
    (spawnsAll : SpawnsAll state)
    {action : Action Value}
    (moved : Move program N state action after) :
    SpawnsAll after := by
  have stepping
      {batch : Nat}
      {next : Batch Value}
      (spawned : next ≠ .unspawned)
      (other : Nat) :
      Function.update state.batches batch next other = .unspawned →
      state.batches other = .unspawned :=
    fun unspawned => (unspawned_of_update rfl spawned other unspawned).2
  cases moved with
  | call _ _ at_ | refuse _ at_ | join _ at_ =>
      refine spawnsAll.of_spawned (fun batch => ?_) rfl rfl
      rw [at_]
      simp
  | owner moved =>
      exact spawnsAll.ownerMove moved
  | @spawn call batch called at_ =>
      intro other inBounds unspawned
      obtain ⟨differs, wasUnspawned⟩ :=
        unspawned_of_update rfl (by simp) other unspawned
      have returning := spawnsAll other inBounds wasUnspawned
      rw [at_] at returning
      cases returning
      exact (differs rfl).elim
  | @assign batch old new range pending found unbounded foundAfter
      bounded =>
      refine spawnsAll.of_batches ?_ rfl (stepping (by simp))
      exact List.length_set
  | invoke _ | visitMap _ | visitDrop _ | visitWith _ | complete _ _ =>
      exact spawnsAll.of_batches rfl rfl (stepping (by simp))
  | resolve _ moved =>
      cases moved with
      | setting _ | discard _ | write _ | wake _ | fetchXor =>
          exact spawnsAll.of_batches rfl rfl (stepping (by simp))
  | release _ _ _ _ =>
      refine spawnsAll.of_batches ?_ rfl (stepping (by simp))
      exact List.length_set
  | @steal batch batchLimit handle releasing found draining =>
      obtain ⟨stage, handles, _⟩ :=
        steal_handles state.queue batch handle batchLimit
      refine spawnsAll.of_batches ?_
        (steal_owner state.queue batch handle batchLimit) fun _ => id
      simp only [handles]
      exact List.length_set
  | ready _ _ | idlePoll _ | retry _ | dropBatched _ _ | dropUnbatched _ _
  | dropReceived _ | spin _ _ | dropReturn _ _ =>
      exact spawnsAll.of_batches rfl rfl fun _ => id

/-- Every range is spawned when the call that opened it returns. -/
theorem Reachable.spawnsAll
    {allowed : State Task Value → Action Value → Prop}
    (reachable : Reachable program N allowed task state) :
    SpawnsAll state :=
  TransitionSystem.Reachable.invariant SpawnsAll.initial
    (fun _ spawnsAll _ taken => spawnsAll.move (step_move taken))
    reachable

end Spawning

/-! ## Enabled steps -/

/-- An internal step is enabled, and none but `map` needs to be chosen. -/
def CanGoOn
    {width : PointerWidth}
    (program : Program Task Value)
    (N : BufferSize width)
    (state : State Task Value) :
    Prop :=
  ∃ action after,
    IsInternal state action ∧
      MapsBatches state action ∧
      step program N state action = some after

section Enabled

variable
    {width : PointerWidth}
    {program : Program Task Value}
    {N : BufferSize width}
    {task : Nat → Task}
    {state : State Task Value}

/-- A call that is not idle can go on. -/
theorem call_enabled
    (enqueue : EnqueueInvariant N task state)
    (busy : state.queue.owner ≠ .idle) :
    CanGoOn program N state := by
  rcases ownerStep_enabled N state.queue with
    idle | ⟨admission, at_⟩ | ⟨queue, taken⟩
  · exact (busy idle).elim
  · have callAt := enqueue.callAt
    rw [at_] at callAt
    have called : ∃ call, state.polling = some call := by
      cases admission with
      | queueFull =>
          obtain ⟨call, called, _⟩ := callAt
          exact ⟨call, called⟩
      | joined | opened batch =>
          exact callAt
    obtain ⟨call, called⟩ := called
    have taken : ∃ after, step program N state .finish = some after := by
      cases admission with
      | queueFull | joined | opened batch =>
          simp [step, called, at_, State.onQueue, State.setBatch,
            Queue.step]
    obtain ⟨after, taken⟩ := taken
    exact ⟨.finish, after, trivial, ⟨trivial, trivial⟩, taken⟩
  · have sameQueue : state.progress.queue = state.queue := rfl
    have taken :
        step program N state .owner =
          some { state.progress with queue := queue } := by
      simp [step, State.onQueue, Queue.step, sameQueue, taken]
    exact ⟨.owner, _, trivial, ⟨trivial, trivial⟩, taken⟩

/-- A pending range can be bounded. -/
theorem assign_enabled
    {batch : Nat}
    {handle : Handle}
    (pending : state.batches batch = .pending)
    (found : state.queue.handles[batch]? = some handle)
    (unbounded : handle.stage = .unbounded) :
    ∃ after, step program N state (.assign batch) = some after := by
  obtain ⟨inBounds, _⟩ := List.getElem?_eq_some_iff.mp found
  simp [step, pending, State.onQueue, Queue.step, found, unbounded,
    Queue.setBounds, Queue.State.setHandle, List.getElem?_set_self inBounds,
    Handle.range?]

/-- The accesses of `resolve_unchecked` wait for nobody. -/
theorem resolve_enabled
    {batch cell future : Nat}
    {method : Method}
    {todo : List Nat}
    {value : Option Value}
    {point : ResolvePoint}
    (resolving :
      state.batches batch = .resolving method todo cell value point)
    (pointer : (state.queue.buffer cell).rx = some future) :
    ∃ after, step program N state (.resolve batch) = some after := by
  cases point with
  | fetchOr =>
      simp only [step, resolving, resolveUnchecked]
      split
      · exact ⟨_, rfl⟩
      · exact ⟨_, rfl⟩
  | write | wake | fetchXor =>
      simp [step, resolving, resolveUnchecked, pointer]

/-- A method that has visited its cells can release the range. -/
theorem release_enabled
    {batch : Nat}
    {method : Method}
    {todo : List Nat}
    {handle : Handle}
    (visiting : state.batches batch = .visiting method todo)
    (done : method.isDone program.needsDrop todo = true)
    (found : state.queue.handles[batch]? = some handle)
    (bounded : IsBounded handle) :
    ∃ after, step program N state (.release batch) = some after := by
  obtain ⟨range, stage⟩ := bounded
  simp [step, visiting, done, State.setBatch, State.onQueue, Queue.step,
    found, stage]

/-- Between two cells a method visits the next one, or it is done. -/
theorem visiting_enabled
    {batch : Nat}
    {method : Method}
    {todo : List Nat}
    {handle : Handle}
    (visiting : state.batches batch = .visiting method todo)
    (found : state.queue.handles[batch]? = some handle)
    (bounded : IsBounded handle) :
    CanGoOn program N state := by
  by_cases done : method.isDone program.needsDrop todo = true
  · obtain ⟨after, taken⟩ := release_enabled visiting done found bounded
    exact ⟨.release batch, after, trivial, ⟨trivial, trivial⟩, taken⟩
  · have taken :
        ∃ after, step program N state (.visit batch) = some after := by
      cases method with
      | resolveWithIter =>
          exact (done rfl).elim
      | map =>
          cases todo with
          | nil => exact (done rfl).elim
          | cons cell todo => simp [step, visiting]
      | drop =>
          cases todo with
          | nil => exact (done rfl).elim
          | cons cell todo =>
              have needsDrop : program.needsDrop = true := by
                simpa [Method.isDone] using done
              simp [step, visiting, needsDrop]
    obtain ⟨after, taken⟩ := taken
    exact ⟨.visit batch, after, trivial, ⟨trivial, trivial⟩, taken⟩

/-- The wake loop waits for nobody, and neither does its end. -/
theorem releasing_enabled
    {batch : Nat}
    {handle : Handle}
    (releasing : state.batches batch = .releasing)
    (found : state.queue.handles[batch]? = some handle)
    (stage :
      handle.stage = .released ∨ ∃ left, handle.stage = .draining left) :
    CanGoOn program N state := by
  rcases stage with released | ⟨left, draining⟩
  · have taken :
        ∃ after, step program N state (.complete batch) = some after := by
      simp [step, releasing, State.hasReleased, found, released]
    obtain ⟨after, taken⟩ := taken
    exact ⟨.complete batch, after, trivial, ⟨trivial, trivial⟩, taken⟩
  · have taken :
        ∃ after,
          step program N state (.steal batch false) = some after := by
      simp [step, releasing, State.notify, State.onQueue, Queue.step, found,
        draining]
    obtain ⟨after, taken⟩ := taken
    exact ⟨.steal batch false, after, rfl, ⟨trivial, trivial⟩, taken⟩

/-- A batch that is neither to be spawned nor finished can go on. -/
theorem batch_enabled
    (invariant : ResolveInvariant N state)
    (enqueue : EnqueueInvariant N task state)
    (window : state.queue.LiveInWindow N)
    {batch : Nat}
    (spawned : state.batches batch ≠ .unspawned)
    (unfinished : state.batches batch ≠ .finished) :
    CanGoOn program N state := by
  obtain ⟨handle, found⟩ := invariant.batches.exists_handle spawned
  have batchAt := invariant.batches.batches batch handle found
  cases at_ : state.batches batch with
  | unspawned => exact (spawned at_).elim
  | finished => exact (unfinished at_).elim
  | pending =>
      rw [at_] at batchAt
      have enabled :
          ∃ after, step program N state (.assign batch) = some after :=
        assign_enabled at_ found batchAt
      obtain ⟨after, taken⟩ := enabled
      exact ⟨.assign batch, after, trivial, ⟨trivial, trivial⟩, taken⟩
  | assigned todo =>
      have taken :
          step program N state (.invoke batch .map) =
            some (state.setBatch batch (.visiting .map todo)) := by
        simp only [step, at_]
      exact ⟨.invoke batch .map, _, trivial, ⟨trivial, rfl⟩, taken⟩
  | visiting method todo =>
      rw [at_] at batchAt
      exact visiting_enabled at_ found batchAt.1
  | resolving method todo cell value point =>
      obtain ⟨future, pointer, _⟩ :=
        invariant.resolving_task enqueue window at_
      have enabled :
          ∃ after, step program N state (.resolve batch) = some after :=
        resolve_enabled at_ pointer
      obtain ⟨after, taken⟩ := enabled
      exact ⟨.resolve batch, after, trivial, ⟨trivial, trivial⟩, taken⟩
  | releasing =>
      rw [at_] at batchAt
      exact releasing_enabled at_ found batchAt

/-- A drop that does not find `SETTING_VALUE` twice gets further. -/
theorem spin_enabled
    {future seen : Nat}
    {receiver : Receiver Value}
    (holds : state.futures future = .dropping receiver seen)
    (further :
      isSetting seen = true →
      isSetting (state.queue.buffer receiver.state).state = false) :
    CanGoOn program N state := by
  have isInternal : IsInternal state (.spin future) := by
    intro other otherSeen holdsOther
    rw [holds] at holdsOther
    cases holdsOther
    exact further
  have taken :
      ∃ after, step program N state (.spin future) = some after := by
    simp only [step, holds]
    split
    · exact ⟨_, rfl⟩
    · exact ⟨_, rfl⟩
  obtain ⟨after, taken⟩ := taken
  exact ⟨.spin future, after, isInternal, ⟨trivial, trivial⟩, taken⟩

/-- Where nothing can go on, everything is settled. -/
theorem settled_of_stuck
    (invariant : ResolveInvariant N state)
    (enqueue : EnqueueInvariant N task state)
    (window : state.queue.LiveInWindow N)
    (spawnsAll : SpawnsAll state)
    (stuck : ¬ CanGoOn program N state) :
    Settled state := by
  have idle : state.queue.owner = .idle := by
    by_contra busy
    exact stuck (call_enabled enqueue busy)
  constructor
  case idle => exact idle
  case finished =>
    intro batch inBounds
    by_contra unfinished
    refine stuck (batch_enabled invariant enqueue window ?_ unfinished)
    intro unspawned
    have returning := spawnsAll batch inBounds unspawned
    rw [idle] at returning
    cases returning
  case drops =>
    intro future receiver seen holds
    by_contra further
    refine stuck (spin_enabled holds fun isOn => ?_)
    rw [← Bool.not_eq_true]
    exact fun stillOn => further ⟨isOn, stillOn⟩

/-- Where everything is settled, there is no internal step. -/
theorem Settled.not_internal
    {action : Action Value}
    {after : State Task Value}
    (settled : Settled state)
    (batches : BatchInvariant N state)
    (isInternal : IsInternal state action)
    (moved : Move program N state action after) :
    False := by
  have finished
      {batch : Nat}
      {stage : Batch Value}
      (at_ : state.batches batch = stage)
      (spawned : stage ≠ .unspawned) :
      stage = .finished := by
    rw [← at_] at spawned ⊢
    obtain ⟨handle, found⟩ := batches.exists_handle spawned
    obtain ⟨inBounds, _⟩ := List.getElem?_eq_some_iff.mp found
    exact settled.finished batch inBounds
  cases moved with
  | call _ _ _ | ready _ _ | idlePoll _ | dropBatched _ _
  | dropUnbatched _ _ | dropReceived _ =>
      exact isInternal
  | retry _ =>
      cases isInternal
  | owner moved =>
      have idle := settled.idle
      have taken := moved.taken
      rw [ownerStep, idle] at taken
      cases taken
  | refuse _ at_ | join _ at_ | spawn _ at_ =>
      rw [settled.idle] at at_
      cases at_
  | assign at_ _ _ _ _ | invoke at_ | visitMap at_ | visitDrop at_
  | visitWith at_ | resolve at_ _ | release at_ _ _ _ | steal at_ _ _
  | complete at_ _ =>
      cases finished at_ (by simp)
  | spin holds waits =>
      have stillOn := (settled.drops _ _ _ holds).2
      rw [isInternal _ _ holds waits] at stillOn
      cases stillOn
  | dropReturn holds clear =>
      have isOn := (settled.drops _ _ _ holds).1
      rw [clear] at isOn
      cases isOn

end Enabled

/-! ## Runs come to rest -/

section Runs

variable
    {width : PointerWidth}
    {program : Program Task Value}
    {N : BufferSize width}
    {task : Nat → Task}
    {state : State Task Value}
    {allowed internal : State Task Value → Action Value → Prop}

/-- Internal steps use up the work that is left. -/
theorem Reachable.settles
    (safe : N.IsSafe)
    (ownWaker :
      ∀ state action, allowed state action → OwnWaker state action)
    (goesOn :
      ∀ state action, internal state action → IsInternal state action)
    (permits :
      ∀ state action, internal state action → allowed state action) :
    Settles (step program N) internal (Reachable program N allowed task)
      (State.work N) := by
  constructor
  case kept =>
    intro before after action reachable isInternal taken
    exact reachable.next (permits before action isInternal) taken
  case decreases =>
    intro before after action reachable isInternal taken
    have later : Reachable program N allowed task after :=
      reachable.next (permits before action isInternal) taken
    have disciplined := Reachable.disciplined_of_safe safe ownWaker reachable
    exact
      (step_move taken).work_lt
        (Reachable.resolveInvariant_of_disciplined disciplined).batches
        (Reachable.enqueueInvariant reachable)
        (Queue.Reachable.phaseInvariant later.queue)
        (Reachable.liveInWindow_of_disciplined
          (Reachable.disciplined_of_safe safe ownWaker later))
        (goesOn before action isInternal)

/-- Nothing is left to do exactly where everything is settled. -/
theorem Reachable.atRest_iff_settled
    (safe : N.IsSafe)
    (ownWaker :
      ∀ state action, allowed state action → OwnWaker state action)
    (goesOn :
      ∀ state action, internal state action → IsInternal state action)
    (enough :
      ∀ state action,
        IsInternal state action →
        MapsBatches state action →
        internal state action)
    (reachable : Reachable program N allowed task state) :
    AtRest (step program N) internal state ↔ Settled state := by
  have disciplined := Reachable.disciplined_of_safe safe ownWaker reachable
  have invariant := Reachable.resolveInvariant_of_disciplined disciplined
  constructor
  · intro resting
    apply settled_of_stuck invariant (Reachable.enqueueInvariant reachable)
      (Reachable.liveInWindow_of_disciplined disciplined)
      (Reachable.spawnsAll reachable)
    rintro ⟨action, after, isInternal, maps, taken⟩
    rw [resting action (enough state action isInternal maps)] at taken
    cases taken
  · intro settled action isInternal
    cases taken : step program N state action with
    | none => rfl
    | some after =>
        exact
          (settled.not_internal invariant.batches
            (goesOn state action isInternal) (step_move taken)).elim

end Runs

/-- An internal step polls no future, so with no foreign waker. -/
theorem IsInternal.ownWaker
    (state : State Task Value)
    (action : Action Value)
    (isInternal : IsInternal state action) :
    OwnWaker state action := by
  cases action with
  | poll future waker => exact isInternal.elim
  | _ => trivial

/--
In a safe buffer, when futures are polled with their own wakers and polled
again only when woken: once polls and drops pause, the calls, the batches and
the drops that were begun come to an end after a bounded number of steps, in
whatever order these are taken and however the batches are consumed.  The
steps get stuck only where every batch is finished, and at most a drop is left
that finds `SETTING_VALUE` in its word and spins.
-/
theorem internal_runs_settle
    {width : PointerWidth}
    (program : Program Task Value)
    (N : BufferSize width)
    (safe : N.IsSafe)
    (task : Nat → Task)
    (state : State Task Value)
    (reachable : Reachable program N OwnWaker task state) :
    (∀ trace after,
      InternalRun (step program N) IsInternal state trace after →
      trace.length + after.work N ≤ state.work N ∧
        (AtRest (step program N) IsInternal after ↔ Settled after)) ∧
      ∃ trace after,
        InternalRun (step program N) IsInternal state trace after ∧
          Settled after := by
  have settles :
      Settles (step program N) IsInternal
        (Reachable program N OwnWaker task) (State.work N) :=
    Reachable.settles safe (fun _ _ => id) (fun _ _ => id)
      IsInternal.ownWaker
  have atRest
      {trace : List (State Task Value × Action Value)}
      {after : State Task Value}
      (run : InternalRun (step program N) IsInternal state trace after) :
      AtRest (step program N) IsInternal after ↔ Settled after :=
    Reachable.atRest_iff_settled safe (fun _ _ => id) (fun _ _ => id)
      (fun _ _ isInternal _ => isInternal)
      (run.invariant settles.kept reachable)
  constructor
  · intro trace after run
    exact ⟨settles.length_add_work_le reachable run, atRest run⟩
  · obtain ⟨trace, after, run, resting⟩ :=
      settles.exists_atRest reachable
    exact ⟨trace, after, run, (atRest run).mp resting⟩

/-- The first future is enqueued and dropped; its batch is not begun. -/
def droppedWaiting : List (Action Nat) :=
  enqueueFirst ++ [.drop 0]

/-- From there at most 334 steps are left, and some of them settle it. -/
theorem internal_runs_settle_droppedWaiting :
    ∃ state : State Nat Nat,
      (Reachable increment smallestBuffer OwnWaker id state ∧
        state.batches 0 = .pending ∧
        state.work smallestBuffer = 334) ∧
        (∀ trace after,
          InternalRun (step increment smallestBuffer) IsInternal state
            trace after →
          trace.length + after.work smallestBuffer ≤
              state.work smallestBuffer ∧
            (AtRest (step increment smallestBuffer) IsInternal after ↔
              Settled after)) ∧
        ∃ trace after,
          InternalRun (step increment smallestBuffer) IsInternal state
              trace after ∧
            Settled after := by
  have performed :
      ((TransitionSystem.executeWhere (step increment smallestBuffer)
          OwnWaker (initial id) droppedWaiting).map fun state =>
        (state.batches 0, state.work smallestBuffer)) =
        some (.pending, 334) := by
    decide +kernel
  obtain ⟨state, reached, shape⟩ := Option.map_eq_some_iff.mp performed
  simp only [Prod.mk.injEq] at shape
  have reachable :
      Reachable increment smallestBuffer OwnWaker id state :=
    TransitionSystem.Reachable.start.executeWhere reached
  exact ⟨state, ⟨reachable, shape.1, shape.2⟩,
    internal_runs_settle increment smallestBuffer smallestBuffer_isSafe id
      state reachable⟩

end StackQueue.TaskQueue
