import StackQueue.QueueCapacity
import StackQueue.TaskDelivery
import StackQueue.TaskProgress
import StackQueue.TaskStrikes

namespace StackQueue.TaskQueue

open Queue IntervalChain TransitionSystem

/-!
# Answers where everything is settled

With batches consumed by `map`, the steps of a queue do not only come to an
end: where they end, every task that was accepted has been mapped and resolved
once, and a future that waits has been woken and holds its own answer.
-/

variable {Task Value : Type}

/-- Every accepted task has been mapped, and its answer is where it belongs. -/
structure AllAnswered
    (program : Program Task Value)
    (task : Nat → Task)
    (state : State Task Value) : Prop where
  settled : Settled state
  /-- `op` was applied to each accepted task once. -/
  applied :
    (state.applied.map Prod.snd).Perm (state.tasks.map some)
  /-- Each accepted task was resolved once, with its own answer. -/
  resolved :
    state.passed.Perm
      (state.enqueued.map fun entry =>
        (entry.1, some (program.op entry.2)))
  /--
  A future that waits for its answer has been woken and holds it, unless a
  drop of another future has interfered and the answer is discarded.
  -/
  waiting :
    ∀ future receiver,
      state.futures future = .batched receiver →
      (state.notified future = true ∧
          receiver.value = some (program.op (task future))) ∨
        (state.resolutions future = .discarded ∧ ¬ NoInterference state)
  /-- So every drop has returned, unless it spins on the word of another. -/
  dropping :
    ∀ future receiver seen,
      state.futures future = .dropping receiver seen →
      ¬ NoInterference state
  /-- No range is live: the whole buffer is free again. -/
  vacant : state.queue.Vacant

/-- The items of a list, put together by their keys, are the same items. -/
theorem perm_flatten_keys
    {Item : Type}
    {bound : Nat}
    {entries : List (Nat × Item)}
    (known : ∀ entry ∈ entries, entry.1 < bound) :
    (entries.map Prod.snd).Perm
      ((List.range bound).map fun key =>
        (entries.filter fun entry => entry.1 = key).map
          Prod.snd).flatten := by
  induction bound generalizing entries with
  | zero =>
      have empty : entries = [] := by
        apply List.eq_nil_iff_forall_not_mem.mpr
        exact fun entry member => absurd (known entry member) (by simp)
      simp [empty]
  | succ bound inductionHypothesis =>
      let newest := entries.filter fun entry => entry.1 = bound
      let older := entries.filter fun entry => !decide (entry.1 = bound)
      have split : (older ++ newest).Perm entries :=
        List.perm_append_comm.trans (List.filter_append_perm _ entries)
      have below : ∀ entry ∈ older, entry.1 < bound := by
        intro entry member
        obtain ⟨isEntry, differs⟩ := List.mem_filter.mp member
        have upTo := known entry isEntry
        have notLast : entry.1 ≠ bound := by simpa using differs
        omega
      have sameKeys :
          ∀ key ∈ List.range bound,
            (older.filter fun entry => entry.1 = key).map Prod.snd =
              (entries.filter fun entry => entry.1 = key).map
                Prod.snd := by
        intro key member
        have inRange := List.mem_range.mp member
        congr 1
        rw [List.filter_filter]
        apply List.filter_congr
        intro entry _
        by_cases isKey : entry.1 = key
        · simp [isKey, Nat.ne_of_lt inRange]
        · simp [isKey]
      have sorted := inductionHypothesis below
      rw [List.map_congr_left sameKeys] at sorted
      rw [List.range_succ, List.map_append, List.flatten_append,
        List.map_singleton, List.flatten_singleton]
      have images := (split.map Prod.snd).symm
      rw [List.map_append] at images
      exact images.trans (sorted.append_right _)

section Answers

variable
    {width : PointerWidth}
    {program : Program Task Value}
    {N : BufferSize width}
    {task : Nat → Task}
    {state : State Task Value}

/-- Nothing is being resolved where everything is settled. -/
theorem Settled.not_resolving
    (settled : Settled state)
    (batches : BatchInvariant N state)
    {batch cell : Nat}
    {method : Method}
    {todo : List Nat}
    {value : Option Value}
    {point : ResolvePoint} :
    state.batches batch ≠ .resolving method todo cell value point := by
  intro resolving
  have spawned : state.batches batch ≠ .unspawned := by
    simp [resolving]
  obtain ⟨handle, found⟩ := batches.exists_handle spawned
  obtain ⟨inBounds, _⟩ := List.getElem?_eq_some_iff.mp found
  have finished := settled.finished batch inBounds
  rw [resolving] at finished
  cases finished

/-- Every range has been released there. -/
theorem Settled.released
    (settled : Settled state)
    (batches : BatchInvariant N state)
    {batch : Nat}
    {handle : Handle}
    (found : state.queue.handles[batch]? = some handle) :
    handle.stage = .released := by
  obtain ⟨inBounds, _⟩ := List.getElem?_eq_some_iff.mp found
  have batchAt := batches.batches batch handle found
  rw [settled.finished batch inBounds] at batchAt
  exact batchAt

/-- The ranges there are those of the handles, all of them bounded. -/
theorem Settled.ranges
    (settled : Settled state)
    (batches : BatchInvariant N state) :
    state.queue.ranges =
      state.queue.handles.map fun handle =>
        ⟨handle.first, handle.last⟩ := by
  have notOpening : state.queue.isOpening = false := by
    simp [Queue.State.isOpening, settled.idle]
  rw [Queue.State.ranges, notOpening, if_neg (by decide), List.append_nil]
  apply List.map_congr_left
  intro handle member
  obtain ⟨batch, found⟩ := List.mem_iff_getElem?.mp member
  apply Handle.span_of_bounded
  simp [Handle.isUnbounded, settled.released batches found]

/-- No range is live there. -/
theorem Settled.vacant
    (settled : Settled state)
    (batches : BatchInvariant N state) :
    state.queue.Vacant := by
  constructor
  case noneOpening =>
    simp [Queue.State.isOpening, settled.idle]
  case noneLive =>
    rw [Queue.State.liveStarts, List.map_eq_nil_iff,
      List.filter_eq_nil_iff]
    intro handle member
    obtain ⟨batch, found⟩ := List.mem_iff_getElem?.mp member
    simp [Handle.isLive, settled.released batches found]

/-- Every accepted task has been passed to `resolve_unchecked` there. -/
theorem Settled.mem_resolved
    (settled : Settled state)
    (batches : BatchInvariant N state)
    (enqueue : EnqueueInvariant N task state)
    (phase : PhaseInvariant N state.queue)
    (passed : PassedInvariant state)
    {future : Nat}
    (member : future ∈ state.enqueuers) :
    future ∈ state.resolved := by
  obtain ⟨position, atPosition⟩ := List.mem_iff_getElem?.mp member
  have accepted := enqueue.accepted_of_enqueuer atPosition
  obtain ⟨batch, ⟨interval, isRange, begun, below⟩, _⟩ :=
    phase.partition.exactlyOneRange position accepted
  rw [settled.ranges batches, List.getElem?_map] at isRange
  obtain ⟨handle, found, ends⟩ := Option.map_eq_some_iff.mp isRange
  subst ends
  obtain ⟨inBounds, _⟩ := List.getElem?_eq_some_iff.mp found
  have nothingLeft : (state.batches batch).left? = some 0 := by
    rw [settled.finished batch inBounds]
    rfl
  exact
    passed batch 0 position future handle found nothingLeft begun below
      atPosition

/-- No task was resolved that was not accepted. -/
theorem ResolveInvariant.mem_enqueuers
    (invariant : ResolveInvariant N state)
    (values : ValueInvariant state)
    {entry : Nat × Option Value}
    (member : entry ∈ state.passed) :
    entry.1 ∈ state.enqueuers := by
  by_contra outside
  have notPending := values.passed entry member
  rw [invariant.words.notEnqueued _ outside] at notPending
  cases notPending

/-- What was resolved there are the accepted tasks, each with its answer. -/
theorem Settled.resolved
    (settled : Settled state)
    (invariant : ResolveInvariant N state)
    (enqueue : EnqueueInvariant N task state)
    (phase : PhaseInvariant N state.queue)
    (values : ValueInvariant state)
    (answers : AnswerInvariant program task state)
    (passed : PassedInvariant state) :
    state.passed.Perm
      (state.enqueued.map fun entry =>
        (entry.1, some (program.op entry.2))) := by
  have answersOnce :
      (state.enqueued.map fun entry =>
        (entry.1, some (program.op entry.2))).Nodup := by
    apply List.Nodup.of_map Prod.fst
    rw [List.map_map]
    exact enqueue.distinct
  rw [List.perm_ext_iff_of_nodup values.once.of_map answersOnce]
  rintro ⟨future, value⟩
  constructor
  · intro member
    obtain ⟨entry, isEntry, isFuture⟩ :=
      List.mem_map.mp (invariant.mem_enqueuers values member)
    have isAnswer := answers.passed (future, value) member
    refine List.mem_map.mpr ⟨entry, isEntry, ?_⟩
    simp only at isFuture isAnswer
    rw [enqueue.ownTasks entry isEntry, isFuture, isAnswer]
  · intro member
    obtain ⟨entry, isEntry, isAnswer⟩ := List.mem_map.mp member
    have isEnqueued : entry.1 ∈ state.enqueuers :=
      List.mem_map_of_mem isEntry
    obtain ⟨other, isPassed, isFuture⟩ :=
      List.mem_map.mp
        (settled.mem_resolved invariant.batches enqueue phase passed
          isEnqueued)
    have same : other = (future, value) := by
      rw [← isAnswer, enqueue.ownTasks entry isEntry, ← isFuture,
        ← answers.passed other isPassed]
    rw [← same]
    exact isPassed

/-- What `op` was applied to there are the accepted tasks. -/
theorem Settled.applied
    (settled : Settled state)
    (batches : BatchInvariant N state)
    (enqueue : EnqueueInvariant N task state)
    (phase : PhaseInvariant N state.queue)
    (applied : AppliedInvariant state) :
    (state.applied.map Prod.snd).Perm (state.tasks.map some) := by
  have perBatch :
      ((List.range state.queue.handles.length).map state.appliedIn) =
        state.queue.ranges.map (slice (state.tasks.map some)) := by
    apply List.ext_getElem
    · rw [settled.ranges batches]
      simp
    · intro batch inRange _
      have inBounds : batch < state.queue.handles.length := by
        simpa using inRange
      have found := List.getElem?_eq_getElem inBounds
      have isRange :=
        PhaseInvariant.ranges_getElem? found
      have isComplete :=
        applied.isComplete batches isRange
          (Or.inr (settled.finished batch inBounds))
      obtain ⟨_, shape⟩ := List.getElem?_eq_some_iff.mp isRange
      rw [List.getElem_map, List.getElem_map, List.getElem_range, shape,
        isComplete]
      simp only [slice, List.map_take, List.map_drop]
  have chain := phase.ranges_chain
  have whole :
      slice (state.tasks.map some) ⟨0, state.queue.accepted⟩ =
        state.tasks.map some := by
    rw [← enqueue.count]
    simp [slice, State.tasks]
  have sorted := perm_flatten_keys applied.known
  change
    (state.applied.map Prod.snd).Perm
      ((List.range state.queue.handles.length).map
        state.appliedIn).flatten at sorted
  rw [perBatch, flatten_slices_between chain, whole] at sorted
  exact sorted

/-- A future that waits there has been woken and holds its answer. -/
theorem Settled.waiting
    (settled : Settled state)
    (invariant : ResolveInvariant N state)
    (enqueue : EnqueueInvariant N task state)
    (phase : PhaseInvariant N state.queue)
    (values : ValueInvariant state)
    (answers : AnswerInvariant program task state)
    (passed : PassedInvariant state)
    (notified : NotifiedInvariant state)
    {future : Nat}
    {receiver : Receiver Value}
    (holds : state.futures future = .batched receiver) :
    (state.notified future = true ∧
        receiver.value = some (program.op (task future))) ∨
      (state.resolutions future = .discarded ∧ ¬ NoInterference state) := by
  have isReceiver := Future.receiver?_of_batched holds
  have isEnqueued : future ∈ state.enqueuers := by
    rcases enqueue.receivers future receiver isReceiver with
      ⟨position, atPosition, _⟩ | ⟨_, adding⟩
    · exact List.mem_of_getElem? atPosition
    · rw [settled.idle] at adding
      cases adding
  have notPending : (state.resolutions future).isPending = false := by
    obtain ⟨entry, isPassed, isFuture⟩ :=
      List.mem_map.mp
        (settled.mem_resolved invariant.batches enqueue phase passed
          isEnqueued)
    rw [← isFuture]
    exact values.passed entry isPassed
  have notResolving : (state.resolutions future).isResolving ≠ true := by
    intro isResolving
    obtain ⟨batch, method, todo, cell, value, point, resolving, _⟩ :=
      invariant.batches.resolving future isResolving
    exact settled.not_resolving invariant.batches resolving
  cases resolution : state.resolutions future with
  | untouched | visited =>
      rw [resolution] at notPending
      cases notPending
  | setting | stored | woken =>
      rw [resolution] at notResolving
      exact (notResolving rfl).elim
  | set =>
      have isStored : (state.resolutions future).isStored = true := by
        rw [resolution]
        rfl
      have isWoken : (state.resolutions future).isWoken = true := by
        rw [resolution]
        rfl
      have wasStored := values.slots future receiver isReceiver isStored
      have wasPassed := (values.stored _ wasStored).1
      exact
        Or.inl ⟨notified future receiver holds isWoken,
          answers.passed _ wasPassed⟩
  | discarded =>
      refine Or.inr ⟨rfl, fun noInterference => ?_⟩
      have begun := noInterference.discarded future resolution
      rw [holds] at begun
      cases begun

/-- A drop that has not returned there spins for nobody. -/
theorem Settled.dropping
    (settled : Settled state)
    (batches : BatchInvariant N state)
    {future seen : Nat}
    {receiver : Receiver Value}
    (holds : state.futures future = .dropping receiver seen) :
    ¬ NoInterference state := by
  intro noInterference
  obtain ⟨isOn, stillOn⟩ := settled.drops future receiver seen holds
  obtain ⟨batch, method, todo, value, point, resolving, _⟩ :=
    noInterference.spinning future receiver seen holds isOn stillOn
  exact settled.not_resolving batches resolving

/-- Where everything is settled, everything is answered. -/
theorem Reachable.allAnswered
    (safe : N.IsSafe)
    (reachable : Reachable program N MapsBatches task state)
    (settled : Settled state) :
    AllAnswered program task state := by
  have ownWaker :
      ∀ (state : State Task Value) (action : Action Value),
        MapsBatches state action → OwnWaker state action :=
    fun _ _ permitted => permitted.1
  have disciplined := Reachable.disciplined_of_safe safe ownWaker reachable
  have invariant := Reachable.resolveInvariant_of_disciplined disciplined
  have enqueue := Reachable.enqueueInvariant reachable
  have phase := Queue.Reachable.phaseInvariant (Reachable.queue reachable)
  have values : ValueInvariant state :=
    Reachable.valueInvariant (fun _ _ permitted => permitted.2.1)
      (fun _ _ permitted => permitted.2.2) disciplined
  have answers := Reachable.answerInvariant disciplined
  have applied := Reachable.appliedInvariant disciplined
  have passed := Reachable.passedInvariant disciplined
  have notified := Reachable.notifiedInvariant ownWaker disciplined
  constructor
  case settled => exact settled
  case applied =>
    exact settled.applied invariant.batches enqueue phase applied
  case resolved =>
    exact settled.resolved invariant enqueue phase values answers passed
  case waiting =>
    intro future receiver holds
    exact
      settled.waiting invariant enqueue phase values answers passed notified
        holds
  case dropping =>
    intro future receiver seen holds
    exact settled.dropping invariant.batches holds
  case vacant =>
    exact settled.vacant invariant.batches

/-- A future that is enqueued stays enqueued. -/
theorem mem_enqueuers_of_run
    {internal : State Task Value → Action Value → Prop}
    {after : State Task Value}
    {trace : List (State Task Value × Action Value)}
    {future : Nat}
    (member : future ∈ state.enqueuers)
    (internalRun :
      InternalRun (step program N) internal state trace after) :
    future ∈ after.enqueuers := by
  let isEnqueued (state : State Task Value) : Prop :=
    future ∈ state.enqueuers
  have kept
      {before later : State Task Value}
      {action : Action Value}
      (wasEnqueued : isEnqueued before)
      (_ : internal before action)
      (taken : step program N before action = some later) :
      isEnqueued later := by
    obtain ⟨position, atPosition⟩ := List.mem_iff_getElem?.mp wasEnqueued
    exact
      List.mem_of_getElem? ((step_move taken).enqueuer_kept atPosition)
  have atStart : isEnqueued state := member
  have atEnd : isEnqueued after :=
    internalRun.invariant kept atStart
  exact atEnd

end Answers

/-! ## Every run that is left to itself -/

/-- An internal step, where batches are consumed by `map`. -/
def MapsOn
    (state : State Task Value)
    (action : Action Value) :
    Prop :=
  IsInternal state action ∧ MapsBatches state action

/--
In a safe buffer, when futures are polled with their own wakers, and polled
again only when woken, and batches are consumed by `map`: left to themselves,
the threads of a queue get to a state where nothing is left to do; and
wherever nothing is left to do, every task that was accepted has been mapped
and resolved exactly once, every future that waits has been woken and holds
the answer to its own task, and the buffer is free again.  Only a drop that
interferes with the word of another task, by a receiver that has become stale,
can discard an answer or hang.
-/
theorem internal_runs_answer
    {width : PointerWidth}
    (program : Program Task Value)
    (N : BufferSize width)
    (safe : N.IsSafe)
    (task : Nat → Task)
    (state : State Task Value)
    (reachable : Reachable program N MapsBatches task state) :
    (∀ trace after,
      InternalRun (step program N) MapsOn state trace after →
      trace.length ≤ state.work N ∧
        (∀ future ∈ state.enqueuers, future ∈ after.enqueuers) ∧
        (AtRest (step program N) MapsOn after →
          AllAnswered program task after)) ∧
      ∃ trace after,
        InternalRun (step program N) MapsOn state trace after ∧
          AllAnswered program task after := by
  have ownWaker :
      ∀ (state : State Task Value) (action : Action Value),
        MapsBatches state action → OwnWaker state action :=
    fun _ _ permitted => permitted.1
  have settles :
      Settles (step program N) MapsOn
        (Reachable program N MapsBatches task) (State.work N) :=
    Reachable.settles safe ownWaker (fun _ _ mapsOn => mapsOn.1)
      fun _ _ mapsOn => mapsOn.2
  have answered
      {trace : List (State Task Value × Action Value)}
      {after : State Task Value}
      (run : InternalRun (step program N) MapsOn state trace after)
      (resting : AtRest (step program N) MapsOn after) :
      AllAnswered program task after := by
    have later := run.invariant settles.kept reachable
    apply Reachable.allAnswered safe later
    rw [← Reachable.atRest_iff_settled safe ownWaker
      (fun _ _ mapsOn => mapsOn.1) (fun _ _ => And.intro) later]
    exact resting
  constructor
  · intro trace after run
    have bounded := settles.length_add_work_le reachable run
    refine ⟨Nat.le_trans (Nat.le_add_right _ _) bounded, ?_,
      answered run⟩
    intro future member
    exact mem_enqueuers_of_run member run
  · obtain ⟨trace, after, run, resting⟩ :=
      settles.exists_atRest reachable
    exact ⟨trace, after, run, answered run resting⟩

/-- From there the first task is answered, though its future is dropped. -/
theorem internal_runs_answer_droppedWaiting :
    ∃ state : State Nat Nat,
      (Reachable increment smallestBuffer MapsBatches id state ∧
        state.enqueued = [(0, 0)] ∧
        state.passed = []) ∧
        (∀ trace after,
          InternalRun (step increment smallestBuffer) MapsOn state trace
            after →
          trace.length ≤ state.work smallestBuffer ∧
            (∀ future ∈ state.enqueuers, future ∈ after.enqueuers) ∧
            (AtRest (step increment smallestBuffer) MapsOn after →
              AllAnswered increment id after)) ∧
        ∃ trace after,
          InternalRun (step increment smallestBuffer) MapsOn state trace
              after ∧
            AllAnswered increment id after := by
  have performed :
      ((TransitionSystem.executeWhere (step increment smallestBuffer)
          MapsBatches (initial id) droppedWaiting).map fun state =>
        (state.enqueued, state.passed)) =
        some ([(0, 0)], []) := by
    decide +kernel
  obtain ⟨state, reached, shape⟩ := Option.map_eq_some_iff.mp performed
  simp only [Prod.mk.injEq] at shape
  have reachable :
      Reachable increment smallestBuffer MapsBatches id state :=
    TransitionSystem.Reachable.start.executeWhere reached
  exact ⟨state, ⟨reachable, shape.1, shape.2⟩,
    internal_runs_answer increment smallestBuffer smallestBuffer_isSafe id
      state reachable⟩

end StackQueue.TaskQueue
