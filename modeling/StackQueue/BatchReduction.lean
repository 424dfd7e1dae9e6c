import StackQueue.ReduceRanges

namespace StackQueue.BatchReduce

open Queue IntervalChain RangeTasks RangeConsumers
open Callers (CallerInvariant)

/-!
# What `batch_reduce` returns

Each range is reduced by the future whose push opened it and by no other: the
result is what that future's reducer returns for the tasks of the range, run on
them alone and from its own start, however the polls of all futures and the
pushes interleave.  The exception is a range around whose end the index counter
wraps: its iterator yields nothing, so the reducer runs on no task.  Every
other poll of an accepted future returns `None`.
-/

variable {width : PointerWidth} {Task Result Control : Type}

/-- The result of a poll that returned `Ready(Some(_))`. -/
structure IsReduction
    (width : PointerWidth)
    (act : Control → Reducers.Step Task Result Control)
    (reducer : Nat → Control)
    (state : State Task Result Control)
    (delivery : Delivery Result) : Prop where
  /-- The future's push opened the range. -/
  opener : state.openers[delivery.batch]? = some delivery.future
  /-- It is the only poll that returns a result for the range. -/
  only : state.deliveries delivery.batch = [delivery]
  /-- Its own task is the first of the range. -/
  ownTask :
    ∀ handle,
      state.base.queue.handles[delivery.batch]? = some handle →
      state.pushers[handle.first]? = some delivery.future
  /--
  The reducer ran on the tasks that the range yields, and the range is
  released.
  -/
  reduced :
    ∃ handle,
      state.base.queue.handles[delivery.batch]? = some handle ∧
        handle.stage = .released ∧
        Reducers.Runs act (reducer delivery.future)
          (yielded width state.base.pushed handle) delivery.result

/-- What `batch_reduce` promises of a state. -/
structure Reduced
    (N : BufferSize width)
    (needsDrop : Bool)
    (act : Control → Reducers.Step Task Result Control)
    (task : Nat → Task)
    (reducer : Nat → Control)
    (state : State Task Result Control) : Prop where
  results :
    ∀ delivery ∈ state.somes,
      IsReduction width act reducer state delivery
  /-- No reducer is given the bits of a cell without a task. -/
  defined : ∀ future, state.futures future ≠ .undefined
  /-- The accepted tasks are those the futures were created with. -/
  ownTasks : state.base.pushed = state.pushers.map task
  /-- No future's task is accepted twice. -/
  acceptedOnce : state.pushers.Nodup
  /-- No future opens two ranges. -/
  openersDistinct : state.openers.Nodup
  /-- An accepted future that opened no range returns `None`, and only that. -/
  othersReturnNone :
    ∀ future ∈ state.pushers,
      future ∉ state.openers →
      (state.call = some future ∨ future ∈ state.nones) ∧
        ∀ delivery ∈ state.somes, delivery.future ≠ future
  /-- A future that was not accepted has its task, or was dropped with it. -/
  refusedKeepTask :
    ∀ future,
      future ∉ state.pushers →
      state.futures future =
          .unbatched (task future) (reducer future) ∨
        state.call = some future ∨
        state.futures future = .dropped
  /-- A future that is through with its range has released it. -/
  finished :
    ∀ (batch opener : Nat),
      state.openers[batch]? = some opener →
      (state.futures opener = .batched ∨
        state.futures opener = .dropped) →
      state.base.holders batch = .finished false
  /-- Each accepted task is taken out of the buffer at most once. -/
  accounts : Accounts N needsDrop state.base

section Results

variable
    {N : BufferSize width}
    {needsDrop : Bool}
    {act : Control → Reducers.Step Task Result Control}
    {task : Nat → Task}
    {reducer : Nat → Control}
    {state : State Task Result Control}

/-- A range with a result is released, and the result is its reduction. -/
theorem RangeInvariant.delivered
    (invariant : RangeInvariant width act reducer state)
    (base : HolderInvariant N needsDrop state.base)
    {batch opener : Nat}
    {handle : Handle}
    (found : state.base.queue.handles[batch]? = some handle)
    (isOpener : state.openers[batch]? = some opener)
    (some_ : state.deliveries batch ≠ []) :
    handle.stage = .released ∧
      ∃ result,
        Reducers.Runs act (reducer opener)
            (yielded width state.base.pushed handle) result ∧
          state.deliveries batch = [⟨opener, batch, result⟩] := by
  have holds := invariant.holds batch opener handle found isOpener
  cases at_ : state.futures opener with
  | batched | dropped =>
      rw [at_] at holds
      obtain ⟨finished, none_ | ⟨result, runs, shape⟩⟩ := holds
      · exact (some_ none_).elim
      · have holding := base.held batch handle found
        rw [finished] at holding
        exact ⟨holding.1, result, runs, shape⟩
  | unbatched held kept | undefined =>
      rw [at_] at holds
      exact holds.elim
  | pushing kept | reducing held control | returning held result =>
      rw [at_] at holds
      exact (some_ holds.2.2.2).elim
  | collecting held kept =>
      rw [at_] at holds
      exact (some_ holds.2.2.2.2).elim
  | discarding held =>
      rw [at_] at holds
      exact (some_ holds.2.2).elim

/-- Each poll that returned a result reduced the range it opened. -/
theorem RangeInvariant.isReduction
    (invariant : RangeInvariant width act reducer state)
    (callers : CallerInvariant task state.callers)
    (base : HolderInvariant N needsDrop state.base)
    {delivery : Delivery Result}
    (member : delivery ∈ state.somes) :
    IsReduction width act reducer state delivery := by
  have inBounds := invariant.known delivery member
  have found := List.getElem?_eq_getElem inBounds
  obtain ⟨opener, isOpener⟩ := callers.exists_opener found
  have among : delivery ∈ state.deliveries delivery.batch :=
    List.mem_filter.mpr ⟨member, decide_eq_true rfl⟩
  obtain ⟨released, result, runs, shape⟩ :=
    invariant.delivered base found isOpener (List.ne_nil_of_mem among)
  have same := among
  rw [shape, List.mem_singleton] at same
  have isFuture : delivery.future = opener :=
    congrArg Delivery.future same
  have isResult : delivery.result = result :=
    congrArg Delivery.result same
  constructor
  case opener =>
    rw [isFuture]
    exact isOpener
  case only =>
    rw [shape, ← same]
  case ownTask =>
    intro handle atBatch
    rw [isFuture]
    exact (callers.openers _ handle atBatch).symm.trans isOpener
  case reduced =>
    refine ⟨_, found, released, ?_⟩
    rw [isFuture, isResult]
    exact runs

/-- No reducer finds a cell without a task. -/
theorem RangeInvariant.defined
    (invariant : RangeInvariant width act reducer state)
    (pushes : PushInvariant task reducer state)
    (future : Nat) :
    state.futures future ≠ .undefined := by
  intro undefined
  have accepted : future ∈ state.pushers := by
    apply pushes.mem_pushers
    · rw [undefined]
      rfl
    · rw [undefined]
      intro dropped
      cases dropped
  by_cases opens : future ∈ state.openers
  · obtain ⟨batch, isOpener⟩ := List.mem_iff_getElem?.mp opens
    obtain ⟨_, _, holds⟩ :=
      invariant.exists_holds pushes.callers isOpener
    rw [undefined] at holds
    exact holds
  · rcases invariant.joined future accepted opens with
      called | ⟨_, batched | dropped⟩
    · obtain ⟨kept, pushing⟩ := (pushes.pushing future).mpr called
      rw [undefined] at pushing
      cases pushing
    · rw [undefined] at batched
      cases batched
    · rw [undefined] at dropped
      cases dropped

end Results

/--
In every reachable state of a safe buffer, whatever the reducers do, the
results returned are the reductions of what the ranges yield by the futures
that opened them, and all accepted tasks are accounted for.
-/
theorem batch_reduce_reduces
    (N : BufferSize width)
    (safe : N.IsSafe)
    (needsDrop : Bool)
    (act : Control → Reducers.Step Task Result Control)
    (task : Nat → Task)
    (reducer : Nat → Control)
    (state : State Task Result Control)
    (reachable : Reachable N needsDrop act task reducer state) :
    Reduced N needsDrop act task reducer state := by
  have pushes := Reachable.pushInvariant reachable
  have callers := pushes.callers
  have invariant := Reachable.rangeInvariant safe reachable
  have baseRun := Reachable.base reachable
  have base := RangeTasks.Reachable.holderInvariant safe baseRun
  have queue := RangeTasks.Reachable.queue baseRun
  have phase := queue.phaseInvariant
  constructor
  case results =>
    exact fun delivery member =>
      invariant.isReduction callers base member
  case defined => exact invariant.defined pushes
  case ownTasks => exact callers.ownTasks
  case acceptedOnce => exact callers.distinct
  case openersDistinct => exact callers.openers_nodup phase
  case othersReturnNone =>
    intro future member notOpener
    refine ⟨?_, ?_⟩
    · exact (invariant.joined future member notOpener).imp_right And.left
    · intro delivery returned same
      have opener :=
        (invariant.isReduction callers base returned).opener
      rw [same] at opener
      exact notOpener (List.mem_of_getElem? opener)
  case refusedKeepTask => exact pushes.waiting
  case finished =>
    intro batch opener isOpener through
    obtain ⟨_, _, holds⟩ := invariant.exists_holds callers isOpener
    rcases through with batched | dropped
    · rw [batched] at holds
      exact holds.1
    · rw [dropped] at holds
      exact holds.1
  case accounts =>
    exact RangeTasks.Reachable.accounts safe baseRun

/-- Two tasks in one range, reduced to their sum by the first one's future. -/
def sumRun : List Action :=
  [.poll 0, .owner, .owner, .owner, .owner, .owner, .owner, .finish,
    .poll 1, .owner, .owner, .owner, .owner, .finish,
    .collect 0, .next 0, .next 0, .next 0, .reduce 0,
    .release 0, .steal 0 false, .complete 0, .poll 0]

/-- After that run the sum has been returned once, and `None` twice. -/
theorem batch_reduce_reduces_sum :
    ∃ state : State Nat Nat (Nat × Bool),
      TransitionSystem.execute
          (step smallestBuffer true (Reducers.fold (· + ·)))
          (initial (fun future => future + 10) fun _ => (0, false))
          sumRun =
        some state ∧
      (state.somes.map Delivery.result, state.nones) = ([21], [1, 0]) ∧
      Reduced smallestBuffer true (Reducers.fold (· + ·))
        (fun future => future + 10) (fun _ => (0, false)) state := by
  have performed :
      (TransitionSystem.execute
          (step smallestBuffer true (Reducers.fold (· + ·)))
          (initial (fun future => future + 10) fun _ => (0, false))
          sumRun).map
          (fun state : State Nat Nat (Nat × Bool) =>
            (state.somes.map Delivery.result, state.nones)) =
        some ([21], [1, 0]) := by
    decide +kernel
  obtain ⟨state, reached, results⟩ := Option.map_eq_some_iff.mp performed
  exact ⟨state, reached, results,
    batch_reduce_reduces smallestBuffer smallestBuffer_isSafe true
      (Reducers.fold (· + ·)) (fun future => future + 10)
      (fun _ => (0, false)) state
      (TransitionSystem.Reachable.start.execute reached)⟩

/-! ## Sums -/

/--
The accepted tasks that are in no result: those of the ranges that have given
none, and those that no iterator reaches because the counter wrapped.
-/
def State.unreduced
    (width : PointerWidth)
    (state : State Task Result Control) :
    List Task :=
  (state.base.queue.handles.mapIdx fun batch handle =>
      if (state.deliveries batch).isEmpty ∨ Wraps width handle then
        slice state.base.pushed (handle.span state.base.queue.covered)
      else
        []).flatten ++
    state.base.pushed.drop state.base.queue.covered

section Sums

variable
    {Amount : Type}
    [AddCommMonoid Amount]
    {N : BufferSize width}
    {needsDrop : Bool}
    {value : Task → Amount}
    {state : State Task Amount (Amount × Bool)}

/-- A range's result and its unreduced tasks make up its tasks. -/
theorem RangeInvariant.sum_range
    (invariant :
      RangeInvariant width
        (Reducers.fold fun sum item => sum + value item)
        (fun _ => (0, false)) state)
    {task : Nat → Task}
    (callers : CallerInvariant task state.callers)
    (base : HolderInvariant N needsDrop state.base)
    {batch : Nat}
    {handle : Handle}
    (found : state.base.queue.handles[batch]? = some handle) :
    ((state.deliveries batch).map Delivery.result).sum +
        ((if (state.deliveries batch).isEmpty ∨ Wraps width handle then
            slice state.base.pushed
              (handle.span state.base.queue.covered)
          else
            []).map value).sum =
      ((slice state.base.pushed
          (handle.span state.base.queue.covered)).map value).sum := by
  cases shape : state.deliveries batch with
  | nil =>
      simp
  | cons first rest =>
      obtain ⟨opener, isOpener⟩ := callers.exists_opener found
      have some_ : state.deliveries batch ≠ [] := by
        rw [shape]
        exact List.cons_ne_nil first rest
      obtain ⟨released, result, runs, delivered⟩ :=
        invariant.delivered base found isOpener some_
      have isSum :
          result =
            ((yielded width state.base.pushed handle).map value).sum := by
        rw [Reducers.runs_fold_iff.mp runs, Reducers.foldl_add_eq_sum,
          zero_add]
      have bounded : handle.isUnbounded = false := by
        simp [Handle.isUnbounded, released]
      rw [← shape, delivered, isSum, Handle.span_of_bounded bounded,
        yielded]
      by_cases wraps : Wraps width handle
      · simp [wraps]
      · simp [wraps]

/--
With reducers that add up what they are given, the results returned and the
accepted tasks that are in no result add up to all accepted tasks, at every
point of every run of a safe buffer.
-/
theorem batch_reduce_conserves
    (N : BufferSize width)
    (safe : N.IsSafe)
    (needsDrop : Bool)
    (value : Task → Amount)
    (task : Nat → Task)
    (state : State Task Amount (Amount × Bool))
    (reachable :
      Reachable N needsDrop
        (Reducers.fold fun sum item => sum + value item) task
        (fun _ => (0, false)) state) :
    (state.somes.map Delivery.result).sum +
        ((state.unreduced width).map value).sum =
      (state.base.pushed.map value).sum := by
  have callers := (Reachable.pushInvariant reachable).callers
  have invariant := Reachable.rangeInvariant safe reachable
  have baseRun := Reachable.base reachable
  have base := RangeTasks.Reachable.holderInvariant safe baseRun
  have phase := (RangeTasks.Reachable.queue baseRun).phaseInvariant
  have covered :
      (state.base.queue.handles.mapIdx fun _ handle =>
          ((slice state.base.pushed
            (handle.span state.base.queue.covered)).map value).sum).sum =
        ((state.base.pushed.take state.base.queue.covered).map
          value).sum := by
    rw [← flatten_spans phase, Reducers.sum_flatten_mapIdx]
  have results :
      (state.base.queue.handles.mapIdx fun batch _ =>
          ((state.deliveries batch).map Delivery.result).sum).sum =
        (state.somes.map Delivery.result).sum :=
    Reducers.sum_mapIdx_filter invariant.known Delivery.result
  have split :=
    Reducers.sum_mapIdx_add fun _ _ found =>
      invariant.sum_range callers base found
  rw [covered, results] at split
  rw [State.unreduced, List.map_append, List.sum_append, ← add_assoc,
    Reducers.sum_flatten_mapIdx, split, ← List.sum_append,
    ← List.map_append, List.take_append_drop]

/-- After a further push the sum and the pushed task make up all tasks. -/
theorem batch_reduce_conserves_sum :
    ∃ state : State Nat Nat (Nat × Bool),
      TransitionSystem.execute
          (step smallestBuffer true
            (Reducers.fold fun sum item => sum + id item))
          (initial (fun future => future + 10) fun _ => (0, false))
          (sumRun ++ [.poll 2, .owner, .owner, .owner, .owner, .owner]) =
        some state ∧
      (state.somes.map Delivery.result, state.unreduced .w64) =
        ([21], [12]) ∧
      (state.somes.map Delivery.result).sum +
          ((state.unreduced .w64).map id).sum =
        (state.base.pushed.map id).sum := by
  have performed :
      (TransitionSystem.execute
          (step smallestBuffer true
            (Reducers.fold fun sum item => sum + id item))
          (initial (fun future => future + 10) fun _ => (0, false))
          (sumRun ++
            [.poll 2, .owner, .owner, .owner, .owner, .owner])).map
          (fun state : State Nat Nat (Nat × Bool) =>
            (state.somes.map Delivery.result, state.unreduced .w64)) =
        some ([21], [12]) := by
    decide +kernel
  obtain ⟨state, reached, results⟩ := Option.map_eq_some_iff.mp performed
  exact ⟨state, reached, results,
    batch_reduce_conserves smallestBuffer smallestBuffer_isSafe true id
      (fun future => future + 10) state
      (TransitionSystem.Reachable.start.execute reached)⟩

end Sums

end StackQueue.BatchReduce
