import StackQueue.TaskWords

namespace StackQueue.TaskQueue

open Queue

/-!
# Batches and the positions they process

`BatchInvariant` says where each batch stands within its range: the cells it
still has to visit are those of the range's last positions, in order, and no
task at these positions has been touched.  A task between the `fetch_or` and
the `fetch_xor` of its resolution belongs to the batch that is within
`resolve_unchecked` for it.
-/

variable {Task Value : Type}

/-- The tasks at these positions have not been touched. -/
def Untouched
    (enqueuers : List Nat)
    (resolutions : Nat → Resolution)
    (first last : Nat) :
    Prop :=
  ∀ (position future : Nat),
    first ≤ position →
    position < last →
    enqueuers[position]? = some future →
    resolutions future = .untouched

/-- How far a task has been processed at a point of `resolve_unchecked`. -/
def ResolvePoint.resolution : ResolvePoint → Resolution
  | .fetchOr => .visited
  | .write => .setting
  | .wake => .stored
  | .fetchXor => .woken

/-- The range of a handle is bounded and not released. -/
def IsBounded (handle : Handle) : Prop :=
  ∃ range, handle.stage = .bounded range

/-- Where a batch stands within the range of its handle. -/
def BatchAt
    {width : PointerWidth}
    (N : BufferSize width)
    (enqueuers : List Nat)
    (resolutions : Nat → Resolution)
    (handle : Handle) :
    Batch Value → Prop
  | .unspawned | .pending =>
      handle.stage = .unbounded
  | .assigned todo | .visiting _ todo =>
      IsBounded handle ∧
        ∃ position,
          handle.first ≤ position ∧
            position ≤ handle.last ∧
            todo =
              CircularBuffer.window N.size position handle.last ∧
            Untouched enqueuers resolutions position handle.last
  | .resolving _ todo cell _ point =>
      IsBounded handle ∧
        ∃ position future,
          handle.first ≤ position ∧
            position < handle.last ∧
            cell = position % N.size ∧
            todo =
              CircularBuffer.window N.size (position + 1)
                handle.last ∧
            enqueuers[position]? = some future ∧
            resolutions future = point.resolution ∧
            Untouched enqueuers resolutions (position + 1) handle.last
  | .releasing =>
      handle.stage = .released ∨ ∃ left, handle.stage = .draining left
  | .finished =>
      handle.stage = .released

/-- The batches, their ranges and the tasks they resolve. -/
structure BatchInvariant
    {width : PointerWidth}
    (N : BufferSize width)
    (state : State Task Value) : Prop where
  batches :
    ∀ (batch : Nat) (handle : Handle),
      state.queue.handles[batch]? = some handle →
      BatchAt N state.enqueuers state.resolutions handle
        (state.batches batch)
  unspawned :
    ∀ batch,
      state.queue.handles.length ≤ batch →
      state.batches batch = .unspawned
  spawning :
    ∀ batch,
      state.queue.owner = .returning (.opened batch) →
      state.batches batch = .unspawned
  /-- A task beyond all bounded ranges has not been touched. -/
  beyond :
    ∀ (position future : Nat),
      state.enqueuers[position]? = some future →
      (∀ handle ∈ state.queue.handles,
        handle.isUnbounded = false → handle.last ≤ position) →
      state.resolutions future = .untouched
  /-- A task that is being resolved has a resolver. -/
  resolving :
    ∀ future,
      (state.resolutions future).isResolving = true →
      ∃ batch method todo cell value point,
        state.batches batch = .resolving method todo cell value point ∧
          (state.queue.buffer cell).rx = some future

theorem IsBounded.notUnbounded
    {handle : Handle}
    (bounded : IsBounded handle) :
    handle.isUnbounded = false := by
  obtain ⟨range, stage⟩ := bounded
  simp [Handle.isUnbounded, stage]

theorem IsBounded.isLive
    {handle : Handle}
    (bounded : IsBounded handle) :
    handle.isLive = true := by
  obtain ⟨range, stage⟩ := bounded
  simp [Handle.isLive, stage]

/-- A batch depends on the tasks of its own bounded range only. -/
theorem BatchAt.of_same
    {width : PointerWidth}
    {N : BufferSize width}
    {enqueuers enqueuersAfter : List Nat}
    {resolutions resolutionsAfter : Nat → Resolution}
    {handle : Handle}
    {batch : Batch Value}
    (batchAt : BatchAt N enqueuers resolutions handle batch)
    (same :
      IsBounded handle →
      ∀ position,
        handle.first ≤ position →
        position < handle.last →
        enqueuersAfter[position]? = enqueuers[position]? ∧
          ∀ future,
            enqueuers[position]? = some future →
            resolutionsAfter future = resolutions future) :
    BatchAt N enqueuersAfter resolutionsAfter handle batch := by
  have untouched
      {position : Nat}
      (bounded : IsBounded handle)
      (begun : handle.first ≤ position)
      (before :
        Untouched enqueuers resolutions position handle.last) :
      Untouched enqueuersAfter resolutionsAfter position handle.last := by
    intro index future fromHere below found
    obtain ⟨sameFuture, sameResolution⟩ :=
      same bounded index (Nat.le_trans begun fromHere) below
    rw [sameFuture] at found
    rw [sameResolution future found]
    exact before index future fromHere below found
  cases batch with
  | unspawned | pending | releasing | finished =>
      exact batchAt
  | assigned todo | visiting method todo =>
      obtain ⟨bounded, position, begun, upTo, cells, rest⟩ := batchAt
      exact ⟨bounded, position, begun, upTo, cells,
        untouched bounded begun rest⟩
  | resolving method todo cell value point =>
      obtain ⟨bounded, position, future, begun, below, isCell, cells,
        found, resolution, rest⟩ := batchAt
      obtain ⟨sameFuture, sameResolution⟩ :=
        same bounded position begun below
      refine ⟨bounded, position, future, begun, below, isCell, cells, ?_,
        ?_, untouched bounded (Nat.le_succ_of_le begun) rest⟩
      · rw [sameFuture]
        exact found
      · rw [sameResolution future found]
        exact resolution

namespace BatchInvariant

variable
    {width : PointerWidth}
    {N : BufferSize width}
    {task : Nat → Task}
    {state after : State Task Value}

theorem initial :
    BatchInvariant N (TaskQueue.initial task : State Task Value) := by
  constructor <;>
    simp [TaskQueue.initial, Queue.initial, State.enqueuers,
      Resolution.isResolving]

/-- A step that leaves the batches, their ranges and their tasks alone. -/
theorem of_same
    (invariant : BatchInvariant N state)
    (handles : after.queue.handles = state.queue.handles)
    (batches : after.batches = state.batches)
    (enqueued : after.enqueued = state.enqueued)
    (resolutions : after.resolutions = state.resolutions)
    (pointers :
      ∀ batch method todo cell value point,
        state.batches batch = .resolving method todo cell value point →
        (after.queue.buffer cell).rx = (state.queue.buffer cell).rx)
    (returning :
      ∀ batch,
        after.queue.owner = .returning (.opened batch) →
        state.queue.owner = .returning (.opened batch)) :
    BatchInvariant N after where
  batches := by
    rw [handles, batches, State.enqueuers, enqueued, resolutions]
    exact invariant.batches
  unspawned := by
    rw [handles, batches]
    exact invariant.unspawned
  spawning := by
    intro batch at_
    rw [batches]
    exact invariant.spawning batch (returning batch at_)
  beyond := by
    rw [handles, State.enqueuers, enqueued, resolutions]
    exact invariant.beyond
  resolving := by
    intro future isResolving
    rw [resolutions] at isResolving
    obtain ⟨batch, method, todo, cell, value, point, holds, pointer⟩ :=
      invariant.resolving future isResolving
    refine ⟨batch, method, todo, cell, value, point, ?_, ?_⟩
    · rw [batches]
      exact holds
    · rw [pointers batch method todo cell value point holds]
      exact pointer

/-- The `fetch_add` accepts a task. -/
theorem add
    (invariant : BatchInvariant N state)
    (enqueue : EnqueueInvariant N task state)
    (phase : PhaseInvariant N state.queue)
    {entry : Nat × Task}
    (untouched : state.resolutions entry.1 = .untouched)
    (handles : after.queue.handles = state.queue.handles)
    (batches : after.batches = state.batches)
    (enqueued : after.enqueued = state.enqueued ++ [entry])
    (resolutions : after.resolutions = state.resolutions)
    (buffer : after.queue.buffer = state.queue.buffer)
    (notReturning :
      ∀ batch, after.queue.owner ≠ .returning (.opened batch)) :
    BatchInvariant N after := by
  have enqueuers := State.enqueuers_concat enqueued
  have length := enqueue.length_enqueuers
  constructor
  case batches =>
    intro batch handle found
    rw [handles] at found
    rw [enqueuers, resolutions, batches]
    refine (invariant.batches batch handle found).of_same ?_
    intro bounded position _ below
    have upTo :=
      (phase.bounded_positions (List.mem_of_getElem? found)
        bounded.notUnbounded).2
    refine ⟨List.getElem?_append_left ?_, fun _ _ => rfl⟩
    omega
  case unspawned =>
    rw [handles, batches]
    exact invariant.unspawned
  case spawning =>
    exact fun batch returning => (notReturning batch returning).elim
  case beyond =>
    intro position future found isBeyond
    rw [enqueuers] at found
    rw [handles] at isBeyond
    rw [resolutions]
    rcases ListUpdate.getElem?_concat_cases found with
      earlier | ⟨_, isNew⟩
    · exact invariant.beyond position future earlier isBeyond
    · rw [isNew]
      exact untouched
  case resolving =>
    intro future isResolving
    rw [resolutions] at isResolving
    rw [batches, buffer]
    exact invariant.resolving future isResolving

/-- The owner creates a range. -/
theorem occupy
    (invariant : BatchInvariant N state)
    {created : Handle}
    (stage : created.stage = .unbounded)
    (handles : after.queue.handles = state.queue.handles ++ [created])
    (owner :
      after.queue.owner =
        .returning (.opened state.queue.handles.length))
    (batches : after.batches = state.batches)
    (enqueued : after.enqueued = state.enqueued)
    (resolutions : after.resolutions = state.resolutions)
    (buffer : after.queue.buffer = state.queue.buffer) :
    BatchInvariant N after := by
  have enqueuers := State.enqueuers_congr enqueued
  constructor
  case batches =>
    intro batch handle found
    rw [handles] at found
    rw [enqueuers, resolutions, batches]
    rcases ListUpdate.getElem?_concat_cases found with
      earlier | ⟨isLast, isNew⟩
    · exact invariant.batches batch handle earlier
    · rw [isLast, invariant.unspawned _ (Nat.le_refl _), isNew]
      exact stage
  case unspawned =>
    intro batch outside
    rw [handles, List.length_append] at outside
    rw [batches]
    exact invariant.unspawned batch (by omega)
  case spawning =>
    intro batch returning
    rw [owner] at returning
    cases returning
    rw [batches]
    exact invariant.unspawned _ (Nat.le_refl _)
  case beyond =>
    intro position future found isBeyond
    rw [enqueuers] at found
    rw [resolutions]
    refine invariant.beyond position future found fun handle member => ?_
    refine isBeyond handle ?_
    rw [handles]
    exact List.mem_append_left _ member
  case resolving =>
    intro future isResolving
    rw [resolutions] at isResolving
    rw [batches, buffer]
    exact invariant.resolving future isResolving

/-- The batch of a range that was opened is spawned. -/
theorem spawn
    (invariant : BatchInvariant N state)
    {batch : Nat}
    (at_ : state.queue.owner = .returning (.opened batch))
    (exists_ : batch < state.queue.handles.length)
    (idle : after.queue.owner = .idle)
    (handles : after.queue.handles = state.queue.handles)
    (batches :
      after.batches = Function.update state.batches batch .pending)
    (enqueued : after.enqueued = state.enqueued)
    (resolutions : after.resolutions = state.resolutions)
    (buffer : after.queue.buffer = state.queue.buffer) :
    BatchInvariant N after := by
  have enqueuers := State.enqueuers_congr enqueued
  have wasUnspawned := invariant.spawning batch at_
  constructor
  case batches =>
    intro other handle found
    rw [handles] at found
    have before := invariant.batches other handle found
    rw [enqueuers, resolutions, batches]
    by_cases same : other = batch
    · rw [same, wasUnspawned] at before
      rw [same, Function.update_self]
      exact before
    · rw [Function.update_of_ne same]
      exact before
  case unspawned =>
    intro other outside
    rw [handles] at outside
    rw [batches, Function.update_of_ne (by omega)]
    exact invariant.unspawned other outside
  case spawning =>
    intro other returning
    rw [idle] at returning
    cases returning
  case beyond =>
    rw [handles, enqueuers, resolutions]
    exact invariant.beyond
  case resolving =>
    intro future isResolving
    rw [resolutions] at isResolving
    obtain ⟨other, method, todo, cell, value, point, holds, pointer⟩ :=
      invariant.resolving future isResolving
    have differs : other ≠ batch := by
      intro same
      rw [same, wasUnspawned] at holds
      cases holds
    refine ⟨other, method, todo, cell, value, point, ?_, ?_⟩
    · rw [batches, Function.update_of_ne differs]
      exact holds
    · rw [buffer]
      exact pointer

/-- A step of one batch, on the tasks of its own bounded range. -/
theorem of_batch
    (invariant : BatchInvariant N state)
    (phase : PhaseInvariant N state.queue)
    {batch : Nat}
    {old new : Handle}
    {next : Batch Value}
    (found : state.queue.handles[batch]? = some old)
    (spawned : state.batches batch ≠ .unspawned)
    (handles :
      after.queue.handles = state.queue.handles.set batch new)
    (batches :
      after.batches = Function.update state.batches batch next)
    (keepsEnd :
      old.isUnbounded = false →
      new.isUnbounded = false ∧ new.last = old.last)
    (elsewhere :
      ∀ (position future : Nat),
        state.enqueuers[position]? = some future →
        (IsBounded old →
          old.first ≤ position →
          old.last ≤ position) →
        after.resolutions future = state.resolutions future)
    (batchAt :
      BatchAt N state.enqueuers after.resolutions new next)
    (resolving :
      ∀ future,
        (after.resolutions future).isResolving = true →
        (∃ method todo cell value point,
          next = .resolving method todo cell value point ∧
            (state.queue.buffer cell).rx = some future) ∨
          ((state.resolutions future).isResolving = true ∧
            ∀ method todo cell value point,
              state.batches batch =
                .resolving method todo cell value point →
              (state.queue.buffer cell).rx ≠ some future))
    (pointers :
      ∀ cell,
        (after.queue.buffer cell).rx = (state.queue.buffer cell).rx)
    (owner : after.queue.owner = state.queue.owner)
    (enqueued : after.enqueued = state.enqueued) :
    BatchInvariant N after := by
  have enqueuers := State.enqueuers_congr enqueued
  obtain ⟨inBounds, _⟩ := List.getElem?_eq_some_iff.mp found
  constructor
  case batches =>
    intro other handle foundAfter
    rw [handles] at foundAfter
    rw [enqueuers, batches]
    rcases ListUpdate.getElem?_set_cases foundAfter with
      ⟨isHere, isNew⟩ | ⟨differs, before⟩
    · rw [isHere, Function.update_self, isNew]
      exact batchAt
    · rw [Function.update_of_ne differs]
      refine (invariant.batches other handle before).of_same ?_
      intro bounded position begun below
      refine ⟨rfl, fun future atPosition => ?_⟩
      refine elsewhere position future atPosition
        fun oldBounded oldBegun => ?_
      by_contra oldBelow
      exact differs
        (phase.bounded_unique before found bounded.notUnbounded
          oldBounded.notUnbounded ⟨begun, below⟩
          ⟨oldBegun, Nat.lt_of_not_le oldBelow⟩)
  case unspawned =>
    intro other outside
    rw [handles, List.length_set] at outside
    rw [batches, Function.update_of_ne (by omega)]
    exact invariant.unspawned other outside
  case spawning =>
    intro other returning
    rw [owner] at returning
    have wasUnspawned := invariant.spawning other returning
    have differs : other ≠ batch := by
      intro same
      rw [same] at wasUnspawned
      exact spawned wasUnspawned
    rw [batches, Function.update_of_ne differs]
    exact wasUnspawned
  case beyond =>
    intro position future atPosition isBeyond
    rw [enqueuers] at atPosition
    have wasBeyond :
        ∀ handle ∈ state.queue.handles,
          handle.isUnbounded = false → handle.last ≤ position := by
      intro handle member isBounded
      obtain ⟨other, foundBefore⟩ := List.getElem?_of_mem member
      by_cases same : batch = other
      · rw [← same, found] at foundBefore
        cases foundBefore
        obtain ⟨newBounded, sameEnd⟩ := keepsEnd isBounded
        rw [← sameEnd]
        refine isBeyond new ?_ newBounded
        rw [handles]
        exact List.mem_set inBounds new
      · refine isBeyond handle ?_ isBounded
        rw [handles]
        refine List.mem_of_getElem? (i := other) ?_
        rw [List.getElem?_set_ne same]
        exact foundBefore
    rw [elsewhere position future atPosition
      fun bounded _ =>
        wasBeyond old (List.mem_of_getElem? found) bounded.notUnbounded]
    exact invariant.beyond position future atPosition wasBeyond
  case resolving =>
    intro future isResolving
    rcases resolving future isResolving with
      ⟨method, todo, cell, value, point, isNext, pointer⟩ |
        ⟨wasResolving, notHere⟩
    · refine ⟨batch, method, todo, cell, value, point, ?_, ?_⟩
      · rw [batches, Function.update_self]
        exact isNext
      · rw [pointers]
        exact pointer
    · obtain ⟨other, method, todo, cell, value, point, holds, pointer⟩ :=
        invariant.resolving future wasResolving
      have differs : other ≠ batch := by
        intro same
        rw [same] at holds
        exact notHere method todo cell value point holds pointer
      refine ⟨other, method, todo, cell, value, point, ?_, ?_⟩
      · rw [batches, Function.update_of_ne differs]
        exact holds
      · rw [pointers]
        exact pointer

/-- A step of one batch that touches no task. -/
theorem of_quiet
    (invariant : BatchInvariant N state)
    (phase : PhaseInvariant N state.queue)
    {batch : Nat}
    {old new : Handle}
    {next : Batch Value}
    (found : state.queue.handles[batch]? = some old)
    (spawned : state.batches batch ≠ .unspawned)
    (notResolving :
      ∀ method todo cell value point,
        state.batches batch ≠ .resolving method todo cell value point)
    (handles :
      after.queue.handles = state.queue.handles.set batch new)
    (batches :
      after.batches = Function.update state.batches batch next)
    (keepsEnd :
      old.isUnbounded = false →
      new.isUnbounded = false ∧ new.last = old.last)
    (batchAt :
      BatchAt N state.enqueuers state.resolutions new next)
    (buffer : after.queue.buffer = state.queue.buffer)
    (owner : after.queue.owner = state.queue.owner)
    (enqueued : after.enqueued = state.enqueued)
    (resolutions : after.resolutions = state.resolutions) :
    BatchInvariant N after := by
  refine invariant.of_batch phase found spawned handles batches
    keepsEnd ?_ ?_ ?_ ?_ owner enqueued
  · rw [resolutions]
    exact fun _ _ _ _ => rfl
  · rw [resolutions]
    exact batchAt
  · intro future isResolving
    rw [resolutions] at isResolving
    exact Or.inr ⟨isResolving, fun method todo cell value point holds =>
      (notResolving method todo cell value point holds).elim⟩
  · rw [buffer]
    exact fun _ => rfl

end BatchInvariant

end StackQueue.TaskQueue
