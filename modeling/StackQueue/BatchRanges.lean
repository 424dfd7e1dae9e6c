import StackQueue.BatchPushes

namespace StackQueue.BatchCollect

open Queue IntervalChain
open Callers (CallerInvariant)

/-!
# The ranges that `BatchCollect` futures hold

`CallerInvariant` says which future's push opened which range.
`RangeInvariant` follows every range from there: it is held by that one
future, and the `Vec` copied so far is the beginning of the range's tasks.
The reuse window of the queue makes it meet the invariant of the pushes: the
cells of a live range still hold the range's own tasks.
-/

variable {Task : Type}

/-- The polls that returned the tasks of a range. -/
def State.deliveries (state : State Task) (batch : Nat) :
    List (Delivery Task) :=
  state.somes.filter fun delivery => delivery.batch = batch

/-- The tasks of a bounded range. -/
def rangeTasks (tasks : List Task) (handle : Handle) :
    List (Option Task) :=
  slice (tasks.map some) ⟨handle.first, handle.last⟩

/--
What the future that opened a range has made of it, given the polls that
returned the range's tasks.
-/
def Holds
    {width : PointerWidth}
    (N : BufferSize width)
    (owner : Owner (Option Task))
    (tasks : List Task)
    (deliveries : List (Delivery Task))
    (opener batch : Nat)
    (handle : Handle) :
    Future Task → Prop
  | .unbatched _ => False
  | .pushing =>
      owner = .returning (.opened batch) ∧
        handle.stage = .unbounded ∧
        handle.first + 1 = tasks.length ∧
        deliveries = []
  | .collecting held =>
      held = batch ∧ handle.stage = .unbounded ∧ deliveries = []
  | .copying held todo buffer =>
      held = batch ∧
        (∃ range, handle.stage = .bounded range) ∧
        (∃ position,
          handle.first ≤ position ∧
            position ≤ handle.last ∧
            todo = CircularBuffer.window N.size position handle.last ∧
            buffer =
              slice (tasks.map some) ⟨handle.first, position⟩) ∧
        deliveries = []
  | .releasing held buffer =>
      held = batch ∧
        (handle.stage = .released ∨
          ∃ left, handle.stage = .draining left) ∧
        buffer = rangeTasks tasks handle ∧
        deliveries = []
  | .batched =>
      handle.stage = .released ∧
        deliveries = [⟨opener, batch, rangeTasks tasks handle⟩]

/-- Which future holds which range. -/
structure RangeInvariant
    {width : PointerWidth}
    (N : BufferSize width)
    (state : State Task) : Prop where
  holds :
    ∀ (batch opener : Nat) (handle : Handle),
      state.queue.handles[batch]? = some handle →
      state.openers[batch]? = some opener →
      Holds N state.queue.owner state.tasks (state.deliveries batch)
        opener batch handle (state.futures opener)
  held :
    ∀ (future batch : Nat),
      (state.futures future).batch? = some batch →
      state.openers[batch]? = some future
  known :
    ∀ delivery ∈ state.somes,
      delivery.batch < state.queue.handles.length
  /-- An accepted future that opened no range returns `None`. -/
  joined :
    ∀ future ∈ state.pushers,
      future ∉ state.openers →
      (∃ taken, state.call = some (future, taken)) ∨
        (state.futures future = .batched ∧ future ∈ state.nones)

/-- Off the program point of an opening push, the owner does not matter. -/
theorem Holds.of_owner
    {width : PointerWidth}
    {N : BufferSize width}
    {owner ownerAfter : Owner (Option Task)}
    {tasks : List Task}
    {deliveries : List (Delivery Task)}
    {opener batch : Nat}
    {handle : Handle}
    {future : Future Task}
    (holds :
      Holds N owner tasks deliveries opener batch handle future)
    (returning :
      future = .pushing →
      owner = .returning (.opened batch) →
      ownerAfter = .returning (.opened batch)) :
    Holds N ownerAfter tasks deliveries opener batch handle future := by
  cases future with
  | pushing =>
      obtain ⟨at_, rest⟩ := holds
      exact ⟨returning rfl at_, rest⟩
  | _ =>
      exact holds

/-- Tasks pushed later do not change what a future holds. -/
theorem Holds.of_tasks
    {width : PointerWidth}
    {N : BufferSize width}
    {owner : Owner (Option Task)}
    {tasks : List Task}
    {deliveries : List (Delivery Task)}
    {opener batch : Nat}
    {handle : Handle}
    {future : Future Task}
    (holds :
      Holds N owner tasks deliveries opener batch handle future)
    (notReturning : owner ≠ .returning (.opened batch))
    (within :
      handle.isUnbounded = false → handle.last ≤ tasks.length)
    (newest : List Task) :
    Holds N owner (tasks ++ newest) deliveries opener batch handle
      future := by
  have sliced
      {position : Nat}
      (bounded : handle.isUnbounded = false)
      (upTo : position ≤ handle.last) :
      slice ((tasks ++ newest).map some) ⟨handle.first, position⟩ =
        slice (tasks.map some) ⟨handle.first, position⟩ := by
    have := within bounded
    rw [List.map_append]
    refine slice_append ?_ _
    rw [List.length_map]
    exact Nat.le_trans upTo this
  cases future with
  | unbatched held =>
      exact holds
  | pushing =>
      exact (notReturning holds.1).elim
  | collecting held =>
      exact holds
  | copying held todo buffer =>
      obtain ⟨same, ⟨range, stage⟩, copied, undelivered⟩ := holds
      obtain ⟨position, begun, upTo, indices, shape⟩ := copied
      refine ⟨same, ⟨range, stage⟩,
        ⟨position, begun, upTo, indices, ?_⟩, undelivered⟩
      rw [sliced (by simp [Handle.isUnbounded, stage]) upTo]
      exact shape
  | releasing held buffer =>
      obtain ⟨same, stage, shape, undelivered⟩ := holds
      refine ⟨same, stage, ?_, undelivered⟩
      have bounded : handle.isUnbounded = false := by
        rcases stage with released | ⟨left, draining⟩
        · simp [Handle.isUnbounded, released]
        · simp [Handle.isUnbounded, draining]
      rw [rangeTasks, sliced bounded (Nat.le_refl _)]
      exact shape
  | batched =>
      obtain ⟨stage, delivered⟩ := holds
      refine ⟨stage, ?_⟩
      rw [rangeTasks,
        sliced (by simp [Handle.isUnbounded, stage]) (Nat.le_refl _)]
      exact delivered

namespace RangeInvariant

variable
    {width : PointerWidth}
    {N : BufferSize width}
    {task : Nat → Task}
    {state after : State Task}

theorem initial :
    RangeInvariant N (initial task) where
  holds := by simp [BatchCollect.initial, Queue.initial]
  held := by simp [BatchCollect.initial, Future.batch?]
  known := by simp [BatchCollect.initial]
  joined := by simp [BatchCollect.initial, State.pushers]

/-- A step of the owner that accepts no task and creates no range. -/
theorem of_same
    (invariant : RangeInvariant N state)
    (handles : after.queue.handles = state.queue.handles)
    (openers : after.openers = state.openers)
    (pushed : after.pushed = state.pushed)
    (call : after.call = state.call)
    (futures : after.futures = state.futures)
    (somes : after.somes = state.somes)
    (nones : state.nones ⊆ after.nones)
    (returning :
      ∀ batch,
        state.queue.owner = .returning (.opened batch) →
          after.queue.owner = .returning (.opened batch)) :
    RangeInvariant N after where
  holds := by
    intro batch opener handle found isOpener
    rw [handles] at found
    rw [openers] at isOpener
    rw [State.tasks, pushed, State.deliveries, somes, futures]
    exact (invariant.holds batch opener handle found isOpener).of_owner
      fun _ => returning batch
  held := by
    rw [futures, openers]
    exact invariant.held
  known := by
    rw [somes, handles]
    exact invariant.known
  joined := by
    intro future member notOpener
    rw [State.pushers, pushed] at member
    rw [openers] at notOpener
    rw [call, futures]
    exact (invariant.joined future member notOpener).imp_right
      fun joined => ⟨joined.1, nones joined.2⟩

/-- The `fetch_add` accepts a task. -/
theorem add
    (invariant : RangeInvariant N state)
    (phase : PhaseInvariant N state.queue)
    (count : state.pushed.length = state.queue.accepted)
    {index : Nat}
    {entry : Nat × Task}
    (at_ : state.queue.owner = .adding index)
    (called : state.call = some entry)
    (pushed : after.pushed = state.pushed ++ [entry])
    (handles : after.queue.handles = state.queue.handles)
    (openers : after.openers = state.openers)
    (call : after.call = state.call)
    (futures : after.futures = state.futures)
    (somes : after.somes = state.somes)
    (nones : after.nones = state.nones) :
    RangeInvariant N after := by
  have pushers : after.pushers = state.pushers ++ [entry.1] := by
    simp [State.pushers, pushed]
  have tasks : after.tasks = state.tasks ++ [entry.2] := by
    simp [State.tasks, pushed]
  constructor
  case holds =>
    intro batch opener handle found isOpener
    rw [handles] at found
    rw [openers] at isOpener
    rw [tasks, State.deliveries, somes, futures]
    have before := invariant.holds batch opener handle found isOpener
    refine (before.of_tasks ?_ ?_ [entry.2]).of_owner ?_
    · rw [at_]
      exact fun returning => by cases returning
    · intro bounded
      rw [State.tasks, List.length_map, count]
      exact (phase.bounded_positions (List.mem_of_getElem? found)
        bounded).2
    · rw [at_]
      exact fun _ returning => by cases returning
  case held =>
    rw [futures, openers]
    exact invariant.held
  case known =>
    rw [somes, handles]
    exact invariant.known
  case joined =>
    intro future member notOpener
    rw [openers] at notOpener
    rw [call, futures, nones]
    rw [pushers, List.mem_append, List.mem_singleton] at member
    rcases member with earlier | isNew
    · exact invariant.joined future earlier notOpener
    · left
      exact ⟨entry.2, by rw [called, isNew]⟩

/-- The owner creates the range of the push in progress. -/
theorem occupy
    (invariant : RangeInvariant N state)
    (pushes : PushInvariant N task state)
    {index baseSlot : Nat}
    {entry : Nat × Task}
    {created : Handle}
    (at_ : state.queue.owner = .occupying index baseSlot)
    (called : state.call = some entry)
    (first : created.first = state.queue.accepted - 1)
    (stage : created.stage = .unbounded)
    (handles : after.queue.handles = state.queue.handles ++ [created])
    (owner :
      after.queue.owner =
        .returning (.opened state.queue.handles.length))
    (openers : after.openers = state.openers ++ [entry.1])
    (pushed : after.pushed = state.pushed)
    (call : after.call = state.call)
    (futures : after.futures = state.futures)
    (somes : after.somes = state.somes)
    (nones : after.nones = state.nones) :
    RangeInvariant N after := by
  have isPushing : state.futures entry.1 = .pushing :=
    (pushes.pushing entry.1).mpr ⟨entry.2, called⟩
  have opened : state.openers.length = state.queue.handles.length :=
    pushes.callers.opened
  have newOpener :
      (state.openers ++ [entry.1])[state.queue.handles.length]? =
        some entry.1 := by
    rw [← opened]
    simp
  have nonempty : 0 < state.pushed.length := by
    rw [List.length_pos_iff]
    intro empty
    have ownerAt := pushes.callers.ownerAt
    change Callers.OwnerAt _ state.pushers _ state.queue.owner at ownerAt
    rw [at_, State.pushers, empty] at ownerAt
    obtain ⟨_, _, last, _⟩ := ownerAt
    cases last
  constructor
  case holds =>
    intro batch opener handle found isOpener
    rw [handles] at found
    rw [openers] at isOpener
    rw [State.tasks, pushed, State.deliveries, somes, futures, owner]
    rcases ListUpdate.getElem?_concat_cases found with
      earlier | ⟨isLast, isNew⟩
    · obtain ⟨inBounds, _⟩ := List.getElem?_eq_some_iff.mp earlier
      rw [List.getElem?_append_left (by rw [opened]; exact inBounds)]
        at isOpener
      refine (invariant.holds batch opener handle earlier
        isOpener).of_owner ?_
      rw [at_]
      exact fun _ returning => by cases returning
    · rw [isLast, newOpener] at isOpener
      cases isOpener
      rw [isPushing, isLast, isNew]
      refine ⟨rfl, stage, ?_, ?_⟩
      · rw [first, List.length_map, ← pushes.count]
        omega
      · rw [List.filter_eq_nil_iff]
        intro delivery member same
        have := invariant.known delivery member
        simp only [decide_eq_true_eq] at same
        omega
  case held =>
    intro future batch holding
    rw [futures] at holding
    have isOpener := invariant.held future batch holding
    obtain ⟨inBounds, _⟩ := List.getElem?_eq_some_iff.mp isOpener
    rw [openers, List.getElem?_append_left inBounds]
    exact isOpener
  case known =>
    intro delivery member
    rw [somes] at member
    have := invariant.known delivery member
    rw [handles, List.length_append]
    omega
  case joined =>
    intro future member notOpener
    rw [State.pushers, pushed] at member
    rw [openers, List.mem_append, not_or] at notOpener
    rw [call, futures, nones]
    exact invariant.joined future member notOpener.1

/-- A future that is not accepted yet moves its task into `push`. -/
theorem call
    (invariant : RangeInvariant N state)
    (callers : CallerInvariant task state.callers)
    {future : Nat}
    (idle : state.queue.owner = .idle)
    (noCall : state.call = none)
    (fresh : future ∉ state.pushers)
    (futures :
      after.futures = Function.update state.futures future .pushing)
    (handles : after.queue.handles = state.queue.handles)
    (openers : after.openers = state.openers)
    (pushed : after.pushed = state.pushed)
    (somes : after.somes = state.somes)
    (nones : after.nones = state.nones) :
    RangeInvariant N after := by
  have elsewhere {other : Nat} (member : other ∈ state.pushers) :
      after.futures other = state.futures other := by
    rw [futures, Function.update_of_ne]
    intro same
    exact fresh (same ▸ member)
  constructor
  case holds =>
    intro batch opener handle found isOpener
    rw [handles] at found
    rw [openers] at isOpener
    rw [State.tasks, pushed, State.deliveries, somes,
      elsewhere (callers.mem_pushers isOpener)]
    refine (invariant.holds batch opener handle found isOpener).of_owner ?_
    rw [idle]
    exact fun _ returning => by cases returning
  case held =>
    intro other batch holding
    rw [openers]
    refine invariant.held other batch ?_
    rw [futures] at holding
    by_cases same : other = future
    · rw [same, Function.update_self] at holding
      cases holding
    · rw [Function.update_of_ne same] at holding
      exact holding
  case known =>
    rw [somes, handles]
    exact invariant.known
  case joined =>
    intro other member notOpener
    rw [State.pushers, pushed] at member
    rw [openers] at notOpener
    right
    rw [elsewhere member, nones]
    rcases invariant.joined other member notOpener with
      ⟨taken, inCall⟩ | returned
    · rw [noCall] at inCall
      cases inCall
    · exact returned

/-- The push in progress returns. -/
theorem finish
    (invariant : RangeInvariant N state)
    (pushes : PushInvariant N task state)
    {future : Nat}
    {taken : Task}
    {admission : Admission}
    {stage : Future Task}
    (called : state.call = some (future, taken))
    (at_ : state.queue.owner = .returning admission)
    (resumes : Resumes future taken after.nones stage admission)
    (futures :
      after.futures = Function.update state.futures future stage)
    (handles : after.queue.handles = state.queue.handles)
    (openers : after.openers = state.openers)
    (pushed : after.pushed = state.pushed)
    (somes : after.somes = state.somes)
    (nones : state.nones ⊆ after.nones) :
    RangeInvariant N after := by
  have wasPushing : state.futures future = .pushing :=
    (pushes.pushing future).mpr ⟨taken, called⟩
  have caller := State.callers_call called
  have atFuture : after.futures future = stage := by
    rw [futures, Function.update_self]
  have elsewhere {other : Nat} (differs : other ≠ future) :
      after.futures other = state.futures other := by
    rw [futures, Function.update_of_ne differs]
  constructor
  case holds =>
    intro batch opener handle found isOpener
    rw [handles] at found
    rw [openers] at isOpener
    rw [State.tasks, pushed, State.deliveries, somes]
    have before := invariant.holds batch opener handle found isOpener
    by_cases same : opener = future
    · subst same
      rw [wasPushing] at before
      obtain ⟨returning, unbounded, _, undelivered⟩ := before
      rw [at_] at returning
      cases returning
      rw [atFuture, resumes]
      exact ⟨rfl, unbounded, undelivered⟩
    · rw [elsewhere same]
      refine before.of_owner fun isPushing => ?_
      obtain ⟨otherTaken, otherCalled⟩ :=
        (pushes.pushing opener).mp isPushing
      rw [called] at otherCalled
      cases otherCalled
      exact (same rfl).elim
  case held =>
    intro other batch holding
    rw [openers]
    by_cases same : other = future
    · subst same
      rw [atFuture] at holding
      cases admission with
      | queueFull =>
          rw [resumes] at holding
          cases holding
      | joined =>
          rw [resumes.1] at holding
          cases holding
      | opened created =>
          rw [resumes] at holding
          cases holding
          exact pushes.callers.opener_of_opened caller at_
    · rw [elsewhere same] at holding
      exact invariant.held other batch holding
  case known =>
    rw [somes, handles]
    exact invariant.known
  case joined =>
    intro other member notOpener
    rw [State.pushers, pushed] at member
    rw [openers] at notOpener
    right
    by_cases same : other = future
    · subst same
      rw [atFuture]
      cases admission with
      | queueFull =>
          exact (pushes.callers.fresh_of_refused caller at_ member).elim
      | joined =>
          exact resumes
      | opened created =>
          have isOpener : state.openers[created]? = some other :=
            pushes.callers.opener_of_opened caller at_
          exact (notOpener (List.mem_of_getElem? isOpener)).elim
    · rw [elsewhere same]
      rcases invariant.joined other member notOpener with
        ⟨otherTaken, inCall⟩ | ⟨isBatched, inNones⟩
      · rw [called] at inCall
        cases inCall
        exact (same rfl).elim
      · exact ⟨isBatched, nones inNones⟩

/-- A step of the future that opened a range, and of that range. -/
theorem of_batch
    (invariant : RangeInvariant N state)
    (callers : CallerInvariant task state.callers)
    (phase : PhaseInvariant N state.queue)
    {batch future : Nat}
    {new : Handle}
    {stage : Future Task}
    {returned : List (Delivery Task)}
    (isOpener : state.openers[batch]? = some future)
    (handles :
      after.queue.handles = state.queue.handles.set batch new)
    (futures :
      after.futures = Function.update state.futures future stage)
    (keeps : ∀ other, stage.batch? = some other → other = batch)
    (somes : after.somes = state.somes ++ returned)
    (ofBatch : ∀ delivery ∈ returned, delivery.batch = batch)
    (holds :
      Holds N state.queue.owner state.tasks
        (state.deliveries batch ++ returned) future batch new stage)
    (owner : after.queue.owner = state.queue.owner)
    (openers : after.openers = state.openers)
    (pushed : after.pushed = state.pushed)
    (call : after.call = state.call)
    (nones : after.nones = state.nones) :
    RangeInvariant N after := by
  have atFuture : after.futures future = stage := by
    rw [futures, Function.update_self]
  have elsewhere {other : Nat} (differs : other ≠ future) :
      after.futures other = state.futures other := by
    rw [futures, Function.update_of_ne differs]
  have inBounds : batch < state.queue.handles.length := by
    obtain ⟨handle, found⟩ := callers.exists_handle isOpener
    exact (List.getElem?_eq_some_iff.mp found).1
  have deliveriesHere :
      after.deliveries batch = state.deliveries batch ++ returned := by
    rw [State.deliveries, somes, List.filter_append]
    congr 1
    rw [List.filter_eq_self]
    intro delivery member
    simpa using ofBatch delivery member
  have deliveriesElsewhere {other : Nat} (differs : other ≠ batch) :
      after.deliveries other = state.deliveries other := by
    rw [State.deliveries, somes, List.filter_append]
    have none_ :
        returned.filter (fun delivery => delivery.batch = other) = [] := by
      rw [List.filter_eq_nil_iff]
      intro delivery member same
      rw [decide_eq_true_eq, ofBatch delivery member] at same
      exact differs same.symm
    rw [none_, List.append_nil, State.deliveries]
  constructor
  case holds =>
    intro other opener handle foundAfter otherOpener
    rw [handles] at foundAfter
    rw [openers] at otherOpener
    rw [State.tasks, pushed, owner]
    rcases ListUpdate.getElem?_set_cases foundAfter with
      ⟨isHere, isNew⟩ | ⟨differs, before⟩
    · subst isHere
      rw [isOpener] at otherOpener
      cases otherOpener
      rw [deliveriesHere, atFuture, isNew]
      exact holds
    · have otherFuture : opener ≠ future := by
        intro same
        rw [same] at otherOpener
        exact differs (callers.opener_unique phase otherOpener isOpener)
      rw [deliveriesElsewhere differs, elsewhere otherFuture]
      exact invariant.holds other opener handle before otherOpener
  case held =>
    intro other held holding
    rw [openers]
    by_cases same : other = future
    · rw [same, atFuture] at holding
      rw [keeps held holding, same]
      exact isOpener
    · rw [elsewhere same] at holding
      exact invariant.held other held holding
  case known =>
    intro delivery member
    rw [somes] at member
    rw [handles, List.length_set]
    rcases List.mem_append.mp member with earlier | isNew
    · exact invariant.known delivery earlier
    · rw [ofBatch delivery isNew]
      exact inBounds
  case joined =>
    intro other member notOpener
    rw [State.pushers, pushed] at member
    rw [openers] at notOpener
    have differs : other ≠ future := by
      intro same
      exact notOpener (same ▸ List.mem_of_getElem? isOpener)
    rw [call, nones, elsewhere differs]
    exact invariant.joined other member notOpener

/-- The owner's steps create the range of the push in progress. -/
theorem ownerMove
    (invariant : RangeInvariant N state)
    (pushes : PushInvariant N task state)
    (phase : PhaseInvariant N state.queue)
    {queue : Queue.State (Option Task) Nat}
    (moved : OwnerMove N state.queue queue) :
    RangeInvariant N
      { state with
        queue := queue
        pushed := state.pushed ++ state.accepting
        openers := state.openers ++ state.opening } := by
  have callAt := pushes.callAt
  cases moved with
  | add at_ =>
      rw [at_] at callAt
      obtain ⟨entry, called, _⟩ := callAt
      exact invariant.add phase pushes.count at_ called
        (by simp [State.accepting, at_, called]) rfl
        (by simp [State.opening, at_]) rfl rfl rfl rfl
  | occupy at_ =>
      obtain ⟨entry, called⟩ := pushes.exists_call at_
      exact invariant.occupy pushes at_ called rfl rfl rfl rfl
        (by simp [State.opening, at_, called])
        (by simp [State.accepting, at_]) rfl rfl rfl rfl
  | enterAtBoundary at_ _ | enterInside at_ _ | cachedFree at_ _
  | cachedBusy at_ _ | loadedFree at_ _ | loadedBusy at_ _
  | write at_ | replaceJoined at_ _ | replaceOpening at_ _ =>
      exact invariant.of_same rfl (by simp [State.opening, at_])
        (by simp [State.accepting, at_]) rfl rfl rfl
        (List.Subset.refl _) (by simp [at_])

/-! ### Steps of the future that holds a range -/

section Holder

variable
    {N : BufferSize .w64}
    {task : Nat → Task}
    {state : State Task}

/-- The `Collecting` poll bounds the range and slices the buffer. -/
theorem collect
    (small : N.size ≤ 1024)
    (invariant : RangeInvariant N state)
    (reachable : Reachable N task state)
    {future batch : Nat}
    {queue : Queue.State (Option Task) Nat}
    {handle : Handle}
    {range : CounterRange}
    (holding : state.futures future = .collecting batch)
    (stepped :
      Queue.step N state.queue (.setBounds batch) = some queue)
    (foundAfter : queue.handles[batch]? = some handle)
    (stage : handle.stage = .bounded range) :
    RangeInvariant N
      (State.setFuture { state with queue := queue } future
        (.copying batch (taskIndices N range) [])) := by
  have queueReachable := reachable.queue
  have queueAfter : Queue.Reachable N (fun _ => none) queue :=
    queueReachable.next trivial stepped
  have phase := queueReachable.phaseInvariant
  have phaseAfter := queueAfter.phaseInvariant
  have callers := reachable.pushInvariant.callers
  have isOpener := invariant.held future batch (by rw [holding]; rfl)
  have indices :=
    (queueAfter.occupancyInvariant small).liveInWindow.taskIndices_of_live
      phaseAfter (List.mem_of_getElem? foundAfter) stage
  have nonempty :=
    (phaseAfter.bounded_positions (List.mem_of_getElem? foundAfter)
      (by simp [Handle.isUnbounded, stage])).1
  obtain ⟨owner, _, _⟩ := (step_move stepped).frame rfl
  cases step_move stepped with
  | @setBounds _ old found wasUnbounded =>
      have before := invariant.holds batch future old found isOpener
      rw [holding] at before
      obtain ⟨_, _, undelivered⟩ := before
      have handles :
          (Queue.setBounds .w64 state.queue batch old).handles =
            state.queue.handles.set batch handle := by
        rcases ListUpdate.getElem?_set_cases foundAfter with
          ⟨_, isNew⟩ | ⟨differs, _⟩
        · rw [isNew]
          rfl
        · exact (differs rfl).elim
      refine invariant.of_batch callers phase isOpener handles rfl ?_
        (List.append_nil _).symm (by simp) ?_ owner rfl rfl rfl rfl
      · intro other keeps
        cases keeps
        rfl
      · rw [List.append_nil]
        refine ⟨rfl, ⟨range, stage⟩,
          ⟨handle.first, Nat.le_refl _, Nat.le_of_lt nonempty, indices,
            ?_⟩, undelivered⟩
        simp [slice]

/-- Copying a cell extends the `Vec` by the next task of the range. -/
theorem copy
    (small : N.size ≤ 1024)
    (invariant : RangeInvariant N state)
    (reachable : Reachable N task state)
    {future batch index : Nat}
    {todo : List Nat}
    {buffer : List (Option Task)}
    (holding :
      state.futures future = .copying batch (index :: todo) buffer) :
    RangeInvariant N
      (state.setFuture future
        (.copying batch todo
          (buffer ++ [state.queue.buffer index]))) := by
  have pushes := reachable.pushInvariant
  have phase := reachable.queue.phaseInvariant
  have occupancy := reachable.queue.occupancyInvariant small
  have callers := pushes.callers
  have isOpener := invariant.held future batch (by rw [holding]; rfl)
  have exists_ : ∃ handle, state.queue.handles[batch]? = some handle :=
    callers.exists_handle isOpener
  obtain ⟨handle, found⟩ := exists_
  have member := List.mem_of_getElem? found
  have before := invariant.holds batch future handle found isOpener
  rw [holding] at before
  obtain ⟨_, ⟨range, stage⟩, copied, undelivered⟩ := before
  obtain ⟨position, begun, upTo, indices, shape⟩ := copied
  have unfinished : position < handle.last := by
    by_contra atEnd
    rw [CircularBuffer.window_eq_nil_iff.mpr
      (Nat.le_of_not_lt atEnd)] at indices
    cases indices
  rw [CircularBuffer.window_cons unfinished] at indices
  obtain ⟨isIndex, isRest⟩ := List.cons_eq_cons.mp indices
  have live : handle.isLive = true := by
    simp [Handle.isLive, stage]
  have accepted : position < state.pushed.length := by
    have bound := (phase.bounded_positions member
      (by simp [Handle.isUnbounded, stage])).2
    rw [pushes.count]
    exact Nat.lt_of_lt_of_le unfinished bound
  have atPosition := List.getElem?_eq_getElem accepted
  have stored :
      state.queue.buffer index = some state.pushed[position].2 := by
    rw [isIndex]
    refine pushes.stored position _ atPosition ?_ fun admitted => ?_
    · have := occupancy.accepted_le_first_add member live
      omega
    · have := occupancy.accepted_lt_first_add admitted member live
      omega
  have task :
      (state.tasks.map some)[position]? =
        some (some state.pushed[position].2) := by
    simp [State.tasks, atPosition]
  refine invariant.of_batch callers phase isOpener
    (ListUpdate.set_of_getElem? found).symm rfl ?_ (List.append_nil _).symm
    (by simp) ?_ rfl rfl rfl rfl rfl
  · intro other keeps
    cases keeps
    rfl
  · rw [List.append_nil]
    refine ⟨rfl, ⟨range, stage⟩,
      ⟨position + 1, Nat.le_succ_of_le begun, unfinished, isRest, ?_⟩,
      undelivered⟩
    rw [slice_concat begun task, shape, stored]

/-- Releasing the range leaves its future with the whole `Vec`. -/
theorem release
    (invariant : RangeInvariant N state)
    (callers : CallerInvariant task state.callers)
    (phase : PhaseInvariant N state.queue)
    {future batch : Nat}
    {buffer : List (Option Task)}
    {queue : Queue.State (Option Task) Nat}
    (holding : state.futures future = .copying batch [] buffer)
    (stepped :
      Queue.step N state.queue (.deoccupyRegion batch) = some queue) :
    RangeInvariant N
      { state.setFuture future (.releasing batch buffer) with
        queue := queue } := by
  have isOpener := invariant.held future batch (by rw [holding]; rfl)
  obtain ⟨owner, _, _⟩ := (step_move stepped).frame rfl
  cases step_move stepped with
  | @deoccupyRegion _ handle range found wasBounded =>
      have before := invariant.holds batch future handle found isOpener
      rw [holding] at before
      obtain ⟨_, _, copied, undelivered⟩ := before
      obtain ⟨position, _, upTo, indices, shape⟩ := copied
      have atEnd : position = handle.last :=
        Nat.le_antisymm upTo
          (CircularBuffer.window_eq_nil_iff.mp indices.symm)
      obtain ⟨stage, handles, released⟩ :=
        deoccupyRegion_stage N state.queue batch handle range
      refine invariant.of_batch callers phase isOpener handles rfl ?_
        (List.append_nil _).symm (by simp) ?_ owner rfl rfl rfl rfl
      · intro other keeps
        cases keeps
        rfl
      · rw [List.append_nil]
        refine ⟨rfl, released, ?_, undelivered⟩
        rw [shape, atEnd]
        rfl

/-- The wake loop changes nothing but the range's own stage. -/
theorem steal
    (invariant : RangeInvariant N state)
    (callers : CallerInvariant task state.callers)
    (phase : PhaseInvariant N state.queue)
    {future batch : Nat}
    {buffer : List (Option Task)}
    {retry : Bool}
    {queue : Queue.State (Option Task) Nat}
    (holding : state.futures future = .releasing batch buffer)
    (stepped :
      Queue.step N state.queue (.steal batch retry) = some queue) :
    RangeInvariant N { state with queue := queue } := by
  have isOpener := invariant.held future batch (by rw [holding]; rfl)
  have unchanged :
      state.futures =
        Function.update state.futures future
          (.releasing batch buffer) := by
    rw [← holding, Function.update_eq_self]
  obtain ⟨owner, _, _⟩ := (step_move stepped).frame rfl
  cases step_move stepped with
  | retry found stage =>
      exact invariant
  | @steal _ batchLimit handle found wasDraining =>
      have before := invariant.holds batch future handle found isOpener
      rw [holding] at before
      obtain ⟨_, _, shape, undelivered⟩ := before
      obtain ⟨stage, handles, released⟩ :=
        steal_handles state.queue batch handle batchLimit
      refine invariant.of_batch callers phase isOpener handles unchanged
        ?_ (List.append_nil _).symm (by simp) ?_ owner rfl rfl rfl rfl
      · intro other keeps
        cases keeps
        rfl
      · rw [List.append_nil]
        exact ⟨rfl, released, shape, undelivered⟩

/-- The poll returns the tasks of its range. -/
theorem complete
    (invariant : RangeInvariant N state)
    (callers : CallerInvariant task state.callers)
    (phase : PhaseInvariant N state.queue)
    {future batch : Nat}
    {buffer : List (Option Task)}
    (holding : state.futures future = .releasing batch buffer)
    (released : state.hasReleased batch = true) :
    RangeInvariant N
      { state.setFuture future .batched with
        somes := state.somes ++ [⟨future, batch, buffer⟩] } := by
  have isOpener := invariant.held future batch (by rw [holding]; rfl)
  have exists_ : ∃ handle, state.queue.handles[batch]? = some handle :=
    callers.exists_handle isOpener
  obtain ⟨handle, found⟩ := exists_
  have stage : handle.stage = .released := by
    simpa [State.hasReleased, found] using released
  have before := invariant.holds batch future handle found isOpener
  rw [holding] at before
  obtain ⟨_, _, shape, undelivered⟩ := before
  refine invariant.of_batch callers phase isOpener
    (ListUpdate.set_of_getElem? found).symm rfl ?_ rfl (by simp) ?_ rfl rfl
    rfl rfl rfl
  · intro other keeps
    cases keeps
  · rw [undelivered, List.nil_append, shape]
    exact ⟨stage, rfl⟩

end Holder

/-- Every step keeps each range with the future that opened it. -/
theorem step
    {N : BufferSize .w64}
    (small : N.size ≤ 1024)
    (invariant : RangeInvariant N state)
    (reachable : Reachable N task state)
    {action : Action}
    (taken : BatchCollect.step N state action = some after) :
    RangeInvariant N after := by
  have pushes := reachable.pushInvariant
  have phase := reachable.queue.phaseInvariant
  have callers := pushes.callers
  cases action with
  | poll future =>
      simp only [BatchCollect.step] at taken
      split at taken
      · rename_i held holds noCall
        obtain ⟨queue, stepped, shape⟩ := onQueue_some taken
        subst shape
        obtain ⟨_, fresh⟩ := pushes.unbatched future held holds
        cases step_move stepped with
        | call at_ =>
            exact invariant.call callers at_ noCall fresh rfl rfl rfl rfl
              rfl rfl
      · cases taken
        exact invariant.of_same rfl rfl rfl rfl rfl rfl
          (List.subset_append_left _ _) (fun _ => id)
      · cases taken
  | owner =>
      obtain ⟨queue, stepped, shape⟩ := onQueue_some taken
      subst shape
      cases step_move stepped with
      | owner moved => exact invariant.ownerMove pushes phase moved
  | finish =>
      simp only [BatchCollect.step] at taken
      split at taken
      · rename_i future held called at_
        obtain ⟨queue, stepped, shape⟩ := onQueue_some taken
        subst shape
        cases step_move stepped with
        | register _ =>
            exact invariant.finish pushes called at_ rfl rfl rfl rfl rfl
              rfl (List.Subset.refl _)
      · rename_i future held called at_
        obtain ⟨queue, stepped, shape⟩ := onQueue_some taken
        subst shape
        cases step_move stepped with
        | finish _ =>
            exact invariant.finish pushes called at_ ⟨rfl, by simp⟩ rfl
              rfl rfl rfl rfl (List.subset_append_left _ _)
      · rename_i future held batch called at_
        obtain ⟨queue, stepped, shape⟩ := onQueue_some taken
        subst shape
        cases step_move stepped with
        | finish _ =>
            exact invariant.finish pushes called at_ rfl rfl rfl rfl rfl
              rfl (List.Subset.refl _)
      · cases taken
  | collect future =>
      simp only [BatchCollect.step] at taken
      split at taken
      · rename_i batch holding
        obtain ⟨queue, handle, range, stepped, found, stage, shape⟩ :=
          collect_some taken
        subst shape
        exact invariant.collect small reachable holding stepped found
          stage
      · cases taken
  | copy future =>
      simp only [BatchCollect.step] at taken
      split at taken <;> cases taken
      rename_i batch index todo buffer holding
      exact invariant.copy small reachable holding
  | release future =>
      simp only [BatchCollect.step] at taken
      split at taken
      · rename_i batch buffer holding
        obtain ⟨queue, stepped, shape⟩ := onQueue_some taken
        subst shape
        exact invariant.release callers phase holding stepped
      · cases taken
  | steal future retry =>
      simp only [BatchCollect.step] at taken
      split at taken
      · rename_i batch buffer holding
        obtain ⟨queue, stepped, shape⟩ := onQueue_some taken
        subst shape
        exact invariant.steal callers phase holding stepped
      · cases taken
  | complete future =>
      simp only [BatchCollect.step] at taken
      split at taken
      · rename_i batch buffer holding
        split at taken <;> cases taken
        rename_i released
        exact invariant.complete callers phase holding released
      · cases taken

end RangeInvariant

/-- In every reachable state each range is with the future that opened it. -/
theorem Reachable.rangeInvariant
    {N : BufferSize .w64}
    (small : N.size ≤ 1024)
    {task : Nat → Task}
    {state : State Task}
    (reachable : Reachable N task state) :
    RangeInvariant N state :=
  TransitionSystem.Reachable.invariant RangeInvariant.initial
    (fun earlier invariant _ taken => invariant.step small earlier taken)
    reachable

end StackQueue.BatchCollect
