import StackQueue.TaskResolve

namespace StackQueue.TaskQueue

open Queue

/-!
# Values and receivers

What has been resolved stays resolved: the resolution of a task only advances.
Each task is resolved with one value, each receiver's slot is written at most
once and by the resolver of its own task, and a poll that takes a value takes
the one that was written there.
-/

variable {Task Value : Type}

/-- The steps of one task through its resolution. -/
inductive Resolution.Advances : Resolution → Resolution → Prop where
  | visit : Advances .untouched .visited
  | fetchOr : Advances .visited .setting
  | discard : Advances .visited .discarded
  | write : Advances .setting .stored
  | wake : Advances .stored .woken
  | fetchXor : Advances .woken .set

theorem Resolution.Advances.isWoken
    {before after : Resolution}
    (advances : Advances before after)
    (woken : before.isWoken = true) :
    after.isWoken = true := by
  cases advances <;> first | rfl | cases woken

theorem Resolution.Advances.ne_untouched
    {before after : Resolution}
    (advances : Advances before after) :
    after ≠ .untouched := by
  cases advances <;> exact fun same => by cases same

theorem Resolution.Advances.isPending
    {before after : Resolution}
    (advances : Advances before after)
    (pending : after.isPending = true) :
    before.isPending = true := by
  cases advances <;> first | rfl | cases pending

namespace ResolveInvariant

variable
    {width : PointerWidth}
    {program : Program Task Value}
    {N : BufferSize width}
    {task : Nat → Task}
    {state after : State Task Value}

/-- The next cell to visit designates a task that nobody has touched. -/
theorem visiting_task
    (invariant : ResolveInvariant N state)
    (enqueue : EnqueueInvariant N task state)
    (phase : PhaseInvariant N state.queue)
    (window : state.queue.LiveInWindow N)
    {batch cell : Nat}
    {method : Method}
    {todo : List Nat}
    (visiting : state.batches batch = .visiting method (cell :: todo)) :
    ∃ future,
      (state.queue.buffer cell).rx = some future ∧
        state.resolutions future = .untouched := by
  obtain ⟨_, _, future, current, untouched, _, _⟩ :=
    invariant.batches.visiting_current enqueue phase window visiting
  exact ⟨future, current.pointer, untouched⟩

/-- The cell being resolved designates the task being resolved. -/
theorem resolving_task
    (invariant : ResolveInvariant N state)
    (enqueue : EnqueueInvariant N task state)
    (window : state.queue.LiveInWindow N)
    {batch cell : Nat}
    {method : Method}
    {todo : List Nat}
    {value : Option Value}
    {point : ResolvePoint}
    (resolving :
      state.batches batch = .resolving method todo cell value point) :
    ∃ future,
      (state.queue.buffer cell).rx = some future ∧
        state.resolutions future = point.resolution := by
  obtain ⟨_, _, future, current, resolution, _, _⟩ :=
    invariant.batches.resolving_current enqueue window resolving
  exact ⟨future, current.pointer, resolution⟩

/-- The resolution of a task only advances. -/
theorem advances
    (invariant : ResolveInvariant N state)
    (enqueue : EnqueueInvariant N task state)
    (phase : PhaseInvariant N state.queue)
    (window : state.queue.LiveInWindow N)
    {action : Action Value}
    (moved : Move program N state action after) :
    after.resolutions = state.resolutions ∨
      ∃ future next,
        (state.resolutions future).Advances next ∧
          after.resolutions =
            Function.update state.resolutions future next := by
  cases moved with
  | call _ _ _ | ready _ _ | idlePoll _ | owner _ | refuse _ _ | join _ _
  | spawn _ _ | assign _ _ _ _ _ | invoke _ | release _ _ _ _ | retry _
  | steal _ _ _ | complete _ _ | dropBatched _ _ | dropUnbatched _ _
  | dropReceived _ | spin _ _ | dropReturn _ _ =>
      exact Or.inl rfl
  | visitMap visiting | visitDrop visiting =>
      obtain ⟨future, pointer, untouched⟩ :=
        invariant.visiting_task enqueue phase window visiting
      right
      refine ⟨future, .visited, untouched ▸ .visit, ?_⟩
      exact State.updateCell_mark_resolutions
        TaskRef.takeTaskUnchecked_rx pointer
  | visitWith visiting =>
      obtain ⟨future, pointer, untouched⟩ :=
        invariant.visiting_task enqueue phase window visiting
      right
      refine ⟨future, .visited, untouched ▸ .visit,
        State.updateCell_mark_resolutions (fun _ => ?_) pointer⟩
      split <;> rfl
  | resolve resolving moved =>
      obtain ⟨future, pointer, resolution⟩ :=
        invariant.resolving_task enqueue window resolving
      right
      cases moved with
      | setting _ =>
          exact ⟨future, .setting, resolution ▸ .fetchOr,
            State.updateCell_mark_resolutions (TaskRef.updateState_rx _)
              pointer⟩
      | discard _ =>
          exact ⟨future, .discarded, resolution ▸ .discard,
            State.updateCell_mark_resolutions (TaskRef.updateState_rx _)
              pointer⟩
      | write _ =>
          exact ⟨future, .stored, resolution ▸ .write,
            State.mark_resolutions pointer⟩
      | wake _ =>
          exact ⟨future, .woken, resolution ▸ .wake,
            State.mark_resolutions pointer⟩
      | fetchXor =>
          exact ⟨future, .set, resolution ▸ .fetchXor,
            State.updateCell_mark_resolutions (TaskRef.updateState_rx _)
              pointer⟩

/-- A task whose value has not been passed had not been before. -/
theorem isPending_of_isPending
    (invariant : ResolveInvariant N state)
    (enqueue : EnqueueInvariant N task state)
    (phase : PhaseInvariant N state.queue)
    (window : state.queue.LiveInWindow N)
    {action : Action Value}
    (moved : Move program N state action after)
    {future : Nat}
    (pending : (after.resolutions future).isPending = true) :
    (state.resolutions future).isPending = true := by
  rcases invariant.advances enqueue phase window moved with
    same | ⟨marked, next, advances, resolutions⟩
  · rw [same] at pending
    exact pending
  · by_cases here : future = marked
    · rw [here] at pending ⊢
      rw [resolutions, Function.update_self] at pending
      exact advances.isPending pending
    · rw [resolutions, Function.update_of_ne here] at pending
      exact pending

/-- A task that nobody has touched was not touched before. -/
theorem untouched_of_untouched
    (invariant : ResolveInvariant N state)
    (enqueue : EnqueueInvariant N task state)
    (phase : PhaseInvariant N state.queue)
    (window : state.queue.LiveInWindow N)
    {action : Action Value}
    (moved : Move program N state action after)
    {future : Nat}
    (untouched : after.resolutions future = .untouched) :
    state.resolutions future = .untouched := by
  rcases invariant.advances enqueue phase window moved with
    same | ⟨marked, next, advances, resolutions⟩
  · rw [same] at untouched
    exact untouched
  · by_cases here : future = marked
    · rw [here, resolutions, Function.update_self] at untouched
      exact absurd untouched advances.ne_untouched
    · rw [resolutions, Function.update_of_ne here] at untouched
      exact untouched

/-- A receiver that has been woken stays woken. -/
theorem isWoken_of_isWoken
    (invariant : ResolveInvariant N state)
    (enqueue : EnqueueInvariant N task state)
    (phase : PhaseInvariant N state.queue)
    (window : state.queue.LiveInWindow N)
    {action : Action Value}
    (moved : Move program N state action after)
    {future : Nat}
    (woken : (state.resolutions future).isWoken = true) :
    (after.resolutions future).isWoken = true := by
  rcases invariant.advances enqueue phase window moved with
    same | ⟨marked, next, advances, resolutions⟩
  · rw [same]
    exact woken
  · by_cases here : future = marked
    · rw [here] at woken ⊢
      rw [resolutions, Function.update_self]
      exact advances.isWoken woken
    · rw [resolutions, Function.update_of_ne here]
      exact woken

end ResolveInvariant

/-- The values on their way from the batches into the receivers. -/
structure ValueInvariant (state : State Task Value) : Prop where
  once :
    (state.passed.map Prod.fst).Nodup
  passed :
    ∀ entry ∈ state.passed,
      (state.resolutions entry.1).isPending = false
  /-- The resolver is about to write the value it was called with. -/
  carried :
    ∀ batch method todo cell value,
      state.batches batch = .resolving method todo cell value .write →
      ∃ future,
        (state.queue.buffer cell).rx = some future ∧
          (future, value) ∈ state.passed
  stored :
    ∀ entry ∈ state.stored,
      entry ∈ state.passed ∧
        (state.resolutions entry.1).isStored = true
  storedOnce :
    (state.stored.map Prod.fst).Nodup
  /-- A receiver that was written holds the value that was stored. -/
  slots :
    ∀ future receiver,
      (state.futures future).receiver? = some receiver →
      (state.resolutions future).isStored = true →
      (future, receiver.value) ∈ state.stored
  returned :
    ∀ entry ∈ state.returned, entry ∈ state.stored

/-- The resolution of no task passes a `fetch_or` or a write. -/
def SameProgress (before after : Nat → Resolution) : Prop :=
  ∀ future,
    (after future).isPending = (before future).isPending ∧
      (after future).isStored = (before future).isStored

theorem SameProgress.of_update
    {before after : Nat → Resolution}
    {future : Nat}
    {next : Resolution}
    (updated : after = Function.update before future next)
    (pending : next.isPending = (before future).isPending)
    (stored : next.isStored = (before future).isStored) :
    SameProgress before after := by
  intro other
  by_cases same : other = future
  · rw [same, updated, Function.update_self]
    exact ⟨pending, stored⟩
  · rw [updated, Function.update_of_ne same]
    exact ⟨rfl, rfl⟩

namespace ValueInvariant

variable
    {width : PointerWidth}
    {program : Program Task Value}
    {N : BufferSize width}
    {task : Nat → Task}
    {state after : State Task Value}

theorem initial :
    ValueInvariant (TaskQueue.initial task : State Task Value) := by
  constructor <;> simp [TaskQueue.initial, Future.receiver?]

/-- A step that neither passes a value nor writes one. -/
theorem of_frame
    (invariant : ValueInvariant state)
    (progress : SameProgress state.resolutions after.resolutions)
    (writing :
      ∀ batch method todo cell value,
        after.batches batch = .resolving method todo cell value .write →
        state.batches batch = .resolving method todo cell value .write ∧
          (after.queue.buffer cell).rx = (state.queue.buffer cell).rx)
    (receivers :
      ∀ future receiver,
        (after.futures future).receiver? = some receiver →
        (state.resolutions future).isStored = true →
        ∃ old,
          (state.futures future).receiver? = some old ∧
            old.value = receiver.value)
    (returned :
      ∀ entry ∈ after.returned,
        entry ∈ state.returned ∨ entry ∈ state.stored)
    (passed : after.passed = state.passed)
    (stored : after.stored = state.stored) :
    ValueInvariant after := by
  constructor
  case once =>
    rw [passed]
    exact invariant.once
  case passed =>
    rw [passed]
    intro entry member
    rw [(progress entry.1).1]
    exact invariant.passed entry member
  case carried =>
    intro batch method todo cell value isWriting
    obtain ⟨wasWriting, pointer⟩ :=
      writing batch method todo cell value isWriting
    rw [passed, pointer]
    exact invariant.carried batch method todo cell value wasWriting
  case stored =>
    rw [stored, passed]
    intro entry member
    rw [(progress entry.1).2]
    exact invariant.stored entry member
  case storedOnce =>
    rw [stored]
    exact invariant.storedOnce
  case slots =>
    intro future receiver holds isStored
    rw [(progress future).2] at isStored
    obtain ⟨old, held, sameValue⟩ :=
      receivers future receiver holds isStored
    rw [stored, ← sameValue]
    exact invariant.slots future old held isStored
  case returned =>
    rw [stored]
    intro entry member
    rcases returned entry member with earlier | isStored
    · exact invariant.returned entry earlier
    · exact isStored

/-- A `fetch_or` decides what becomes of the value it was called with. -/
theorem pass
    (invariant : ValueInvariant state)
    {batch cell future : Nat}
    {value : Option Value}
    {next : Resolution}
    {batchAfter : Batch Value}
    (pointer : (state.queue.buffer cell).rx = some future)
    (visited : state.resolutions future = .visited)
    (notPending : next.isPending = false)
    (notStored : next.isStored = false)
    (resolutions :
      after.resolutions = Function.update state.resolutions future next)
    (batches :
      after.batches = Function.update state.batches batch batchAfter)
    (writing :
      ∀ method todo other carried,
        batchAfter = .resolving method todo other carried .write →
        other = cell ∧ carried = value)
    (pointers :
      ∀ other,
        (after.queue.buffer other).rx = (state.queue.buffer other).rx)
    (passed : after.passed = (state.pass cell value).passed)
    (futures : after.futures = state.futures)
    (stored : after.stored = state.stored)
    (returned : after.returned = state.returned) :
    ValueInvariant after := by
  have passedAfter : after.passed = state.passed ++ [(future, value)] := by
    rw [passed, State.pass, pointer]
    rfl
  have differs {entry : Nat × Option Value} (member : entry ∈ state.passed) :
      entry.1 ≠ future := by
    intro same
    have isPassed := invariant.passed entry member
    rw [same, visited] at isPassed
    cases isPassed
  constructor
  case once =>
    rw [passedAfter, List.map_append, List.nodup_append]
    refine ⟨invariant.once, by simp, ?_⟩
    intro other member last isLast same
    obtain ⟨entry, inPassed, isOther⟩ := List.mem_map.mp member
    rw [List.map_singleton, List.mem_singleton] at isLast
    rw [← isOther, isLast] at same
    exact differs inPassed same
  case passed =>
    rw [passedAfter, resolutions]
    intro entry member
    rcases List.mem_append.mp member with earlier | isNew
    · rw [Function.update_of_ne (differs earlier)]
      exact invariant.passed entry earlier
    · rw [List.mem_singleton.mp isNew, Function.update_self]
      exact notPending
  case carried =>
    intro other method todo otherCell carried isWriting
    rw [passedAfter, pointers]
    by_cases here : other = batch
    · rw [here, batches, Function.update_self] at isWriting
      obtain ⟨isCell, isValue⟩ := writing _ _ _ _ isWriting
      rw [isCell, isValue]
      exact ⟨future, pointer, by simp⟩
    · rw [batches, Function.update_of_ne here] at isWriting
      obtain ⟨otherFuture, designates, member⟩ :=
        invariant.carried _ _ _ _ _ isWriting
      exact ⟨otherFuture, designates, List.mem_append_left _ member⟩
  case stored =>
    rw [stored, passedAfter, resolutions]
    intro entry member
    obtain ⟨inPassed, isStored⟩ := invariant.stored entry member
    refine ⟨List.mem_append_left _ inPassed, ?_⟩
    rw [Function.update_of_ne (differs inPassed)]
    exact isStored
  case storedOnce =>
    rw [stored]
    exact invariant.storedOnce
  case slots =>
    rw [futures, stored, resolutions]
    intro other receiver holds isStored
    by_cases same : other = future
    · rw [same, Function.update_self, notStored] at isStored
      cases isStored
    · rw [Function.update_of_ne same] at isStored
      exact invariant.slots other receiver holds isStored
  case returned =>
    rw [returned, stored]
    exact invariant.returned

/-- The resolver writes the value into the receiver of its task. -/
theorem write
    (invariant : ValueInvariant state)
    {batch cell rx : Nat}
    {method : Method}
    {todo : List Nat}
    {value : Option Value}
    (resolving :
      state.batches batch = .resolving method todo cell value .write)
    (pointer : (state.queue.buffer cell).rx = some rx)
    (setting : state.resolutions rx = .setting)
    (resolutions :
      after.resolutions = Function.update state.resolutions rx .stored)
    (batches :
      after.batches =
        Function.update state.batches batch
          (.resolving method todo cell value .wake))
    (futures :
      after.futures =
        Function.update state.futures rx
          ((state.futures rx).store value))
    (stored : after.stored = state.stored ++ [(rx, value)])
    (buffer : after.queue.buffer = state.queue.buffer)
    (passed : after.passed = state.passed)
    (returned : after.returned = state.returned) :
    ValueInvariant after := by
  obtain ⟨carrier, designates, isPassed⟩ :=
    invariant.carried _ _ _ _ _ resolving
  have same : carrier = rx := by
    have pointers := designates.symm.trans pointer
    cases pointers
    rfl
  subst same
  have differs {entry : Nat × Option Value} (member : entry ∈ state.stored) :
      entry.1 ≠ carrier := by
    intro here
    have isStored := (invariant.stored entry member).2
    rw [here, setting] at isStored
    cases isStored
  constructor
  case once =>
    rw [passed]
    exact invariant.once
  case passed =>
    rw [passed, resolutions]
    intro entry member
    by_cases here : entry.1 = carrier
    · rw [here, Function.update_self]
      rfl
    · rw [Function.update_of_ne here]
      exact invariant.passed entry member
  case carried =>
    intro other otherMethod otherTodo otherCell otherValue isWriting
    rw [buffer, passed]
    by_cases here : other = batch
    · rw [here, batches, Function.update_self] at isWriting
      cases isWriting
    · rw [batches, Function.update_of_ne here] at isWriting
      exact invariant.carried _ _ _ _ _ isWriting
  case stored =>
    rw [stored, passed, resolutions]
    intro entry member
    rcases List.mem_append.mp member with earlier | isNew
    · rw [Function.update_of_ne (differs earlier)]
      exact invariant.stored entry earlier
    · rw [List.mem_singleton.mp isNew, Function.update_self]
      exact ⟨isPassed, rfl⟩
  case storedOnce =>
    rw [stored, List.map_append, List.nodup_append]
    refine ⟨invariant.storedOnce, by simp, ?_⟩
    intro other member last isLast same
    obtain ⟨entry, inStored, isOther⟩ := List.mem_map.mp member
    rw [List.map_singleton, List.mem_singleton] at isLast
    rw [← isOther, isLast] at same
    exact differs inStored same
  case slots =>
    rw [stored, resolutions, futures]
    intro other receiver holds isStored
    by_cases here : other = carrier
    · rw [here, Function.update_self] at holds
      have written : receiver.value = value := by
        rw [Future.receiver?_store] at holds
        obtain ⟨_, _, shape⟩ := Option.map_eq_some_iff.mp holds
        rw [← shape]
      rw [here, written]
      simp
    · rw [Function.update_of_ne here] at holds isStored
      exact List.mem_append_left _
        (invariant.slots other receiver holds isStored)
  case returned =>
    rw [returned, stored]
    exact fun entry member =>
      List.mem_append_left _ (invariant.returned entry member)

/-- A step that leaves the futures and the batches alone. -/
theorem of_same
    (invariant : ValueInvariant state)
    (resolutions : after.resolutions = state.resolutions)
    (batches : after.batches = state.batches)
    (pointers :
      ∀ batch method todo cell value,
        state.batches batch = .resolving method todo cell value .write →
        (after.queue.buffer cell).rx = (state.queue.buffer cell).rx)
    (futures : after.futures = state.futures)
    (returned : after.returned = state.returned)
    (passed : after.passed = state.passed)
    (stored : after.stored = state.stored) :
    ValueInvariant after := by
  refine invariant.of_frame ?_ ?_ ?_ ?_ passed stored
  · rw [resolutions]
    exact fun _ => ⟨rfl, rfl⟩
  · rw [batches]
    exact fun batch method todo cell value writing =>
      ⟨writing, pointers batch method todo cell value writing⟩
  · rw [futures]
    exact fun _ receiver holds _ => ⟨receiver, holds, rfl⟩
  · rw [returned]
    exact fun _ member => Or.inl member

/-- A step of one future. -/
theorem of_future
    (invariant : ValueInvariant state)
    {future : Nat}
    {stage : Future Task Value}
    (futures :
      after.futures = Function.update state.futures future stage)
    (receivers :
      ∀ receiver,
        stage.receiver? = some receiver →
        (state.resolutions future).isStored = true →
        ∃ old,
          (state.futures future).receiver? = some old ∧
            old.value = receiver.value)
    (returned :
      ∀ entry ∈ after.returned,
        entry ∈ state.returned ∨ entry ∈ state.stored)
    (resolutions : after.resolutions = state.resolutions)
    (batches : after.batches = state.batches)
    (pointers :
      ∀ batch method todo cell value,
        state.batches batch = .resolving method todo cell value .write →
        (after.queue.buffer cell).rx = (state.queue.buffer cell).rx)
    (passed : after.passed = state.passed)
    (stored : after.stored = state.stored) :
    ValueInvariant after := by
  refine invariant.of_frame ?_ ?_ ?_ returned passed stored
  · rw [resolutions]
    exact fun _ => ⟨rfl, rfl⟩
  · rw [batches]
    exact fun batch method todo cell value writing =>
      ⟨writing, pointers batch method todo cell value writing⟩
  · intro other receiver holds isStored
    by_cases same : other = future
    · rw [same] at holds isStored ⊢
      rw [futures, Function.update_self] at holds
      exact receivers receiver holds isStored
    · rw [futures, Function.update_of_ne same] at holds
      exact ⟨receiver, holds, rfl⟩

/-- A step of one batch to a point at which it is not about to write. -/
theorem of_batch
    (invariant : ValueInvariant state)
    {batch : Nat}
    {next : Batch Value}
    (batches :
      after.batches = Function.update state.batches batch next)
    (notWriting :
      ∀ method todo cell value,
        next ≠ .resolving method todo cell value .write)
    (progress : SameProgress state.resolutions after.resolutions)
    (pointers :
      ∀ cell,
        (after.queue.buffer cell).rx = (state.queue.buffer cell).rx)
    (futures : after.futures = state.futures)
    (returned : after.returned = state.returned)
    (passed : after.passed = state.passed)
    (stored : after.stored = state.stored) :
    ValueInvariant after := by
  refine invariant.of_frame progress ?_ ?_ ?_ passed stored
  · intro other method todo cell value writing
    by_cases same : other = batch
    · rw [same, batches, Function.update_self] at writing
      exact (notWriting method todo cell value writing).elim
    · rw [batches, Function.update_of_ne same] at writing
      exact ⟨writing, pointers cell⟩
  · rw [futures]
    exact fun _ receiver holds _ => ⟨receiver, holds, rfl⟩
  · rw [returned]
    exact fun _ member => Or.inl member

/-- The owner's steps keep the values. -/
theorem ownerMove
    (invariant : ValueInvariant state)
    (resolve : ResolveInvariant N state)
    (enqueue : EnqueueInvariant N task state)
    (phase : PhaseInvariant N state.queue)
    (window : state.queue.LiveInWindow N)
    (free : state.queue.WritesFreeCell N)
    {queue : Queue.State (TaskRef Task) Nat}
    (moved : OwnerMove N state.queue queue) :
    ValueInvariant { state.progress with queue := queue } := by
  cases moved with
  | @write _ index at_ =>
      have callAt := enqueue.callAt
      rw [at_] at callAt
      obtain ⟨call, called, written, holds⟩ := callAt
      have fresh := (enqueue.unbatched _ _ holds).2
      have futures :
          state.progress.futures =
            Function.update state.futures call.future
              (.batched ⟨index, none, call.waker⟩) := by
        simp [State.progress, at_, called]
      refine invariant.of_future futures ?_ (fun _ => Or.inl) rfl rfl ?_
        rfl rfl
      · intro receiver _ isStored
        rw [resolve.words.notEnqueued _ fresh] at isStored
        cases isStored
      · intro batch method todo cell value writing
        have differs :=
          resolve.ne_of_writing enqueue phase window free at_ writing
        exact congrArg TaskRef.rx
          (Function.update_of_ne differs _ state.queue.buffer)
  | add at_ | occupy at_ | enterAtBoundary at_ _ | enterInside at_ _
  | cachedFree at_ _ | cachedBusy at_ _ | loadedFree at_ _
  | loadedBusy at_ _ | replaceJoined at_ _ | replaceOpening at_ _ =>
      exact invariant.of_same rfl rfl (fun _ _ _ _ _ _ => rfl)
        (by simp [State.progress, at_]) rfl rfl rfl

/-- The accesses of `resolve_unchecked` keep the values. -/
theorem resolveMove
    (invariant : ValueInvariant state)
    (resolve : ResolveInvariant N state)
    (enqueue : EnqueueInvariant N task state)
    (window : state.queue.LiveInWindow N)
    {batch cell : Nat}
    {method : Method}
    {todo : List Nat}
    {value : Option Value}
    {point : ResolvePoint}
    (resolving :
      state.batches batch = .resolving method todo cell value point)
    (moved :
      ResolveMove state batch method todo cell value point after) :
    ValueInvariant after := by
  obtain ⟨future, pointer, resolution⟩ :=
    resolve.resolving_task enqueue window resolving
  have marked (update : Nat → Nat) (next : Resolution) :
      ((state.updateCell cell (TaskRef.updateState update)).mark cell
          next).resolutions =
        Function.update state.resolutions future next :=
    State.updateCell_mark_resolutions (TaskRef.updateState_rx update)
      pointer
  have pointers (update : Nat → Nat) (other : Nat) :
      ((state.queue.updateCell cell (TaskRef.updateState update)).buffer
          other).rx =
        (state.queue.buffer other).rx :=
    EnqueueInvariant.updateCell_rx state.queue cell
      (TaskRef.updateState_rx update) other
  cases moved with
  | setting alive =>
      refine invariant.pass pointer resolution rfl rfl (marked _ .setting)
        rfl ?_ (pointers _) rfl rfl rfl rfl
      intro _ _ _ _ same
      cases same
      exact ⟨rfl, rfl⟩
  | discard dropped =>
      refine invariant.pass pointer resolution rfl rfl
        (marked _ .discarded) rfl ?_ (pointers _) rfl rfl rfl rfl
      intro _ _ _ _ same
      cases same
  | write designates =>
      have same := designates.symm.trans pointer
      cases same
      exact invariant.write resolving pointer resolution
        (State.mark_resolutions pointer) rfl rfl rfl rfl rfl rfl
  | wake _ =>
      refine invariant.of_batch rfl (fun _ _ _ _ same => by cases same)
        (.of_update (State.mark_resolutions pointer) ?_ ?_)
        (fun _ => rfl) rfl rfl rfl rfl
      · rw [resolution]
        rfl
      · rw [resolution]
        rfl
  | fetchXor =>
      refine invariant.of_batch rfl (fun _ _ _ _ same => by cases same)
        (.of_update (marked _ .set) ?_ ?_) (pointers _) rfl rfl rfl rfl
      · rw [resolution]
        rfl
      · rw [resolution]
        rfl

/-- The visit to a cell keeps the values. -/
theorem visit
    (invariant : ValueInvariant state)
    (resolve : ResolveInvariant N state)
    (enqueue : EnqueueInvariant N task state)
    (phase : PhaseInvariant N state.queue)
    (window : state.queue.LiveInWindow N)
    {batch cell : Nat}
    {method : Method}
    {todo : List Nat}
    {next : Batch Value}
    {update : TaskRef Task → TaskRef Task}
    (visiting : state.batches batch = .visiting method (cell :: todo))
    (notWriting :
      ∀ method todo cell value,
        next ≠ .resolving method todo cell value .write)
    (samePointer : ∀ ref, (update ref).rx = ref.rx)
    (queue : after.queue = state.queue.updateCell cell update)
    (resolutions :
      after.resolutions =
        ((state.updateCell cell update).mark cell .visited).resolutions)
    (batches :
      after.batches = Function.update state.batches batch next)
    (futures : after.futures = state.futures)
    (returned : after.returned = state.returned)
    (passed : after.passed = state.passed)
    (stored : after.stored = state.stored) :
    ValueInvariant after := by
  obtain ⟨future, pointer, untouched⟩ :=
    resolve.visiting_task enqueue phase window visiting
  have marked :
      ((state.updateCell cell update).mark cell .visited).resolutions =
        Function.update state.resolutions future .visited :=
    State.updateCell_mark_resolutions samePointer pointer
  refine invariant.of_batch batches notWriting
    (.of_update (resolutions.trans marked) ?_ ?_) ?_ futures returned
    passed stored
  · rw [untouched]
    rfl
  · rw [untouched]
    rfl
  · rw [queue]
    exact EnqueueInvariant.updateCell_rx state.queue cell samePointer

/-- Every step by a future that was woken keeps the values. -/
theorem move
    (invariant : ValueInvariant state)
    (resolve : ResolveInvariant N state)
    (enqueue : EnqueueInvariant N task state)
    (phase : PhaseInvariant N state.queue)
    (window : state.queue.LiveInWindow N)
    {action : Action Value}
    (writesFree : WritesFree N state action)
    (pollsWoken : PollsWoken state action)
    (moved : Move program N state action after) :
    ValueInvariant after := by
  cases moved with
  | call _ _ _ | idlePoll _ | refuse _ _ | join _ _ | retry _ =>
      exact invariant.of_same rfl rfl (fun _ _ _ _ _ _ => rfl) rfl rfl rfl
        rfl
  | @ready future _ receiver outside holds =>
      refine invariant.of_future rfl (fun _ held => by cases held) ?_ rfl
        rfl (fun _ _ _ _ _ _ => rfl) rfl rfl
      intro entry member
      refine (List.mem_append.mp member).imp_right fun isNew => ?_
      rw [List.mem_singleton.mp isNew]
      refine invariant.slots future receiver
        (Future.receiver?_of_batched holds) ?_
      exact Resolution.isStored_of_isWoken (pollsWoken receiver holds)
  | owner moved =>
      exact invariant.ownerMove resolve enqueue phase window writesFree
        moved
  | spawn _ _ | assign _ _ _ _ _ | invoke _ | release _ _ _ _
  | complete _ _ =>
      exact invariant.of_batch rfl (fun _ _ _ _ same => by cases same)
        (fun _ => ⟨rfl, rfl⟩) (fun _ => rfl) rfl rfl rfl rfl
  | visitMap visiting =>
      exact invariant.visit resolve enqueue phase window visiting
        (fun _ _ _ _ same => by cases same) TaskRef.takeTaskUnchecked_rx
        rfl rfl rfl rfl rfl rfl rfl
  | visitDrop visiting =>
      exact invariant.visit resolve enqueue phase window visiting
        (fun _ _ _ _ same => by cases same) TaskRef.takeTaskUnchecked_rx
        rfl rfl rfl rfl rfl rfl rfl
  | visitWith visiting =>
      refine invariant.visit resolve enqueue phase window visiting
        (fun _ _ _ _ same => by cases same) (fun _ => ?_) rfl rfl rfl rfl
        rfl rfl rfl
      split <;> rfl
  | resolve resolving moved =>
      exact invariant.resolveMove resolve enqueue window resolving moved
  | steal releasing found draining =>
      obtain ⟨_, buffer, _⟩ :=
        (Queue.Move.frame (.steal found draining :
          Queue.Move N state.queue _ _) rfl)
      exact invariant.of_same rfl rfl
        (fun _ _ _ cell _ _ =>
          congrArg (fun buffer => (buffer cell).rx) buffer)
        rfl rfl rfl rfl
  | @dropBatched future receiver outside holds =>
      refine invariant.of_future rfl ?_ (fun _ => Or.inl) rfl rfl
        (fun _ _ _ cell _ _ =>
          EnqueueInvariant.updateCell_rx state.queue receiver.state
            (TaskRef.updateState_rx _) cell) rfl rfl
      intro held isReceiver _
      cases isReceiver
      exact ⟨receiver, Future.receiver?_of_batched holds, rfl⟩
  | dropUnbatched _ _ | dropReceived _ | dropReturn _ _ =>
      exact invariant.of_future rfl (fun _ held => by cases held)
        (fun _ => Or.inl) rfl rfl (fun _ _ _ _ _ _ => rfl) rfl rfl
  | @spin future seen receiver holds waits =>
      refine invariant.of_future rfl ?_ (fun _ => Or.inl) rfl rfl
        (fun _ _ _ _ _ _ => rfl) rfl rfl
      intro held isReceiver _
      cases isReceiver
      exact ⟨receiver, Future.receiver?_of_dropping holds, rfl⟩

end ValueInvariant

/-- Along a run that polls woken futures only and writes no live cell. -/
theorem Reachable.valueInvariant
    {width : PointerWidth}
    {program : Program Task Value}
    {N : BufferSize width}
    {allowed : State Task Value → Action Value → Prop}
    (writesFree :
      ∀ state action, allowed state action → WritesFree N state action)
    (pollsWoken :
      ∀ state action, allowed state action → PollsWoken state action)
    {task : Nat → Task}
    {state : State Task Value}
    (reachable : Reachable program N allowed task state) :
    ValueInvariant state :=
  TransitionSystem.Reachable.invariant ValueInvariant.initial
    (fun earlier invariant permitted taken =>
      invariant.move (Reachable.resolveInvariant writesFree pollsWoken earlier)
        (Reachable.enqueueInvariant earlier)
        (Queue.Reachable.phaseInvariant (Reachable.queue earlier))
        (Reachable.liveInWindow writesFree earlier)
        (writesFree _ _ permitted) (pollsWoken _ _ permitted)
        (step_move taken))
    reachable

end StackQueue.TaskQueue
