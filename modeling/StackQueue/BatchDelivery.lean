import StackQueue.BatchRanges

namespace StackQueue.BatchCollect

open Queue IntervalChain
open Callers (CallerInvariant)

/-!
# `batch_collect` delivers every task exactly once

Once no future holds a range, every range but one that is still being opened
has been returned by the future that opened it.  Their tasks, joined in the
order of the ranges, are the accepted tasks, because the ranges form a chain.
-/

variable {Task : Type}

namespace State

/-- No future is in the `Collecting` state or within its `Collecting` poll. -/
def Quiescent (state : State Task) : Prop :=
  ∀ future, (state.futures future).batch? = none

/-- The `Vec`s returned so far, joined in the order of their ranges. -/
def collected (state : State Task) : List (Option Task) :=
  ((List.range state.queue.handles.length).map fun batch =>
    (state.deliveries batch).flatMap Delivery.tasks).flatten

/-- The push in progress opens a range that it has not returned yet. -/
def isOpening (state : State Task) : Bool :=
  match state.queue.owner with
  | .returning (.opened _) => true
  | _ => state.queue.isOpening

/--
The tasks accepted by `push`, in the order of acceptance.  A push that joins a
range accepts its task at the `fetch_add`, one that opens a range when it
returns that range.
-/
def acceptedTasks (state : State Task) : List Task :=
  if state.isOpening then state.tasks.dropLast else state.tasks

end State

/-- What `batch_collect` promises of a state. -/
structure Delivered
    (task : Nat → Task)
    (state : State Task) : Prop where
  /-- The returned `Vec`s are the accepted tasks, in order. -/
  inOrder :
    state.Quiescent →
    state.collected = state.acceptedTasks.map some
  /-- Every accepted task is the one its future was created with. -/
  ownTasks :
    ∀ entry ∈ state.pushed, entry.2 = task entry.1
  /-- No future's task is accepted twice. -/
  acceptedOnce :
    state.pushers.Nodup
  /-- A future that was not accepted still has its task. -/
  refusedKeepTask :
    ∀ future,
      future ∉ state.pushers →
      state.futures future = .unbatched (task future) ∨
        state.call = some (future, task future)
  /-- No future opens two ranges. -/
  openersDistinct :
    state.openers.Nodup
  /-- Only the future whose push opened a range returns its tasks. -/
  openerOnly :
    ∀ delivery ∈ state.somes,
      state.openers[delivery.batch]? = some delivery.future
  /-- At most one poll returns the tasks of a range. -/
  atMostOnce :
    ∀ batch, (state.deliveries batch).length ≤ 1
  /-- The future that opened a range has returned its tasks. -/
  openerReturns :
    state.Quiescent →
    ∀ (batch opener : Nat),
      state.openers[batch]? = some opener →
      state.queue.owner ≠ .returning (.opened batch) →
      ∃ tasks, state.deliveries batch = [⟨opener, batch, tasks⟩]
  /-- Every other accepted future has returned `None`, and only that. -/
  othersReturnNone :
    ∀ future ∈ state.pushers,
      future ∉ state.openers →
      ((∃ taken, state.call = some (future, taken)) ∨
          future ∈ state.nones) ∧
        ∀ delivery ∈ state.somes, delivery.future ≠ future

/-! ## The tasks of the ranges, joined -/

/-- The positions of a range whose tasks have been returned. -/
def returnedSpan (handle : Handle) : Interval :=
  ⟨handle.first,
    if handle.isUnbounded then handle.first else handle.last⟩

namespace RangeInvariant

variable
    {width : PointerWidth}
    {N : BufferSize width}
    {task : Nat → Task}
    {state : State Task}

/-- Every poll that returned tasks was made by the range's opener. -/
theorem deliveries_cases
    (invariant : RangeInvariant N state)
    {batch opener : Nat}
    {handle : Handle}
    (found : state.queue.handles[batch]? = some handle)
    (isOpener : state.openers[batch]? = some opener) :
    state.deliveries batch = [] ∨
      state.deliveries batch =
        [⟨opener, batch, rangeTasks state.tasks handle⟩] := by
  have holds := invariant.holds batch opener handle found isOpener
  cases holding : state.futures opener with
  | unbatched held =>
      rw [holding] at holds
      exact holds.elim
  | pushing | copying held todo buffer | releasing held buffer =>
      rw [holding] at holds
      exact Or.inl holds.2.2.2
  | collecting held =>
      rw [holding] at holds
      exact Or.inl holds.2.2
  | batched =>
      rw [holding] at holds
      exact Or.inr holds.2

/-- A range that no future holds was returned, or is being returned. -/
theorem quiescent_cases
    (invariant : RangeInvariant N state)
    (quiescent : state.Quiescent)
    {batch opener : Nat}
    {handle : Handle}
    (found : state.queue.handles[batch]? = some handle)
    (isOpener : state.openers[batch]? = some opener) :
    (state.queue.owner = .returning (.opened batch) ∧
        handle.stage = .unbounded ∧
        handle.first + 1 = state.tasks.length ∧
        state.deliveries batch = []) ∨
      (handle.stage = .released ∧
        state.deliveries batch =
          [⟨opener, batch, rangeTasks state.tasks handle⟩]) := by
  have holds := invariant.holds batch opener handle found isOpener
  have none_ := quiescent opener
  cases holding : state.futures opener with
  | unbatched held =>
      rw [holding] at holds
      exact holds.elim
  | pushing =>
      rw [holding] at holds
      exact Or.inl holds
  | batched =>
      rw [holding] at holds
      exact Or.inr holds
  | collecting held | copying held todo buffer
  | releasing held buffer =>
      rw [holding] at none_
      cases none_

/-- In a quiescent state each range's `Vec` holds what was returned of it. -/
theorem collected_eq
    (invariant : RangeInvariant N state)
    (callers : CallerInvariant task state.callers)
    (quiescent : state.Quiescent) :
    state.collected =
      ((state.queue.handles.map returnedSpan).map
        (slice (state.tasks.map some))).flatten := by
  rw [State.collected]
  congr 1
  apply List.ext_getElem
  · simp
  · intro batch inRange inHandles
    have inBounds : batch < state.queue.handles.length := by
      simpa using inRange
    have found := List.getElem?_eq_getElem inBounds
    obtain ⟨opener, isOpener⟩ := callers.exists_opener found
    simp only [List.getElem_map, List.getElem_range]
    rcases invariant.quiescent_cases quiescent found isOpener with
      ⟨_, stage, _, none_⟩ | ⟨stage, returned⟩
    · simp [none_, returnedSpan, Handle.isUnbounded, stage, slice]
    · simp [returned, returnedSpan, Handle.isUnbounded, stage, rangeTasks]

/-- The range being returned by the push in progress is not bounded. -/
theorem unbounded_of_returning
    (invariant : RangeInvariant N state)
    (pushes : PushInvariant N task state)
    {batch : Nat}
    (at_ : state.queue.owner = .returning (.opened batch)) :
    state.queue.hasUnbounded = true := by
  have ownerAt := pushes.callers.ownerAt
  change Callers.OwnerAt _ _ _ state.queue.owner at ownerAt
  rw [at_] at ownerAt
  obtain ⟨caller, inCall, _, isOpener⟩ := ownerAt
  obtain ⟨⟨future, taken⟩, called, same⟩ :=
    Option.map_eq_some_iff.mp inCall
  cases same
  obtain ⟨handle, found⟩ := pushes.callers.exists_handle isOpener
  have holds := invariant.holds batch future handle found isOpener
  rw [(pushes.pushing future).mpr ⟨taken, called⟩] at holds
  obtain ⟨_, stage, _, _⟩ := holds
  rw [Queue.State.hasUnbounded, List.any_eq_true]
  exact ⟨handle, List.mem_of_getElem? found, by
    simp [Handle.isUnbounded, stage]⟩

/-- The joined `Vec`s are the accepted tasks. -/
theorem collected_eq_acceptedTasks
    (invariant : RangeInvariant N state)
    (pushes : PushInvariant N task state)
    (phase : PhaseInvariant N state.queue)
    (quiescent : state.Quiescent) :
    state.collected = state.acceptedTasks.map some := by
  have length : state.tasks.length = state.queue.accepted := by
    rw [State.tasks, List.length_map, pushes.count]
  rw [invariant.collected_eq pushes.callers quiescent]
  cases unbounded : state.queue.hasUnbounded with
  | false =>
      have spans :
          state.queue.handles.map returnedSpan = state.queue.spans := by
        refine List.map_congr_left fun handle member => ?_
        have bounded : handle.isUnbounded = false := by
          simpa using List.any_eq_false.mp unbounded handle member
        simp [returnedSpan, Handle.span, bounded]
      have notReturning (batch : Nat) :
          state.queue.owner ≠ .returning (.opened batch) := by
        intro at_
        rw [invariant.unbounded_of_returning pushes at_] at unbounded
        cases unbounded
      have opening : state.isOpening = state.queue.isOpening := by
        unfold State.isOpening
        split
        · rename_i batch at_
          exact (notReturning batch at_).elim
        · rfl
      have accepted := phase.accepted_eq
      rw [spans, flatten_slices_between phase.chain, slice,
        State.acceptedTasks, opening]
      simp only [List.drop_zero, Nat.sub_zero, ← List.map_take]
      congr 1
      cases isOpening : state.queue.isOpening with
      | true =>
          rw [isOpening, if_pos rfl] at accepted
          rw [if_pos rfl, List.dropLast_eq_take]
          congr 1
          omega
      | false =>
          rw [isOpening, if_neg (by decide), Nat.add_zero] at accepted
          rw [if_neg (by decide), ← accepted, ← length,
            List.take_length]
  | true =>
      obtain ⟨earlier, last, shape, isUnbounded, allBounded⟩ :=
        exists_concat_of_unbounded phase.onlyLast unbounded
      have found : state.queue.handles[earlier.length]? = some last := by
        simp [shape]
      obtain ⟨opener, isOpener⟩ := pushes.callers.exists_opener found
      have chain := phase.chain
      rw [Queue.State.spans, shape, List.map_append, List.map_cons,
        List.map_nil, chain_concat] at chain
      have spans :
          earlier.map returnedSpan =
            earlier.map (Handle.span state.queue.covered) := by
        refine List.map_congr_left fun handle member => ?_
        have bounded : handle.isUnbounded = false := by
          simpa using List.any_eq_false.mp allBounded handle member
        simp [returnedSpan, Handle.span, bounded]
      rcases invariant.quiescent_cases quiescent found isOpener with
        ⟨at_, stage, first, _⟩ | ⟨stage, _⟩
      · have opening : state.isOpening = true := by
          rw [State.isOpening, at_]
        have notReturned :
            (([last].map returnedSpan).map
              (slice (state.tasks.map some))).flatten = [] := by
          simp [returnedSpan, isUnbounded, slice]
        have start :
            (Handle.span state.queue.covered last).first =
              state.tasks.length - 1 := by
          rw [← first]
          rfl
        rw [shape, List.map_append, List.map_append, List.flatten_append,
          spans, flatten_slices_between chain.1, notReturned, start,
          State.acceptedTasks, if_pos opening, List.dropLast_eq_take]
        simp only [List.append_nil, slice, List.drop_zero, Nat.sub_zero,
          ← List.map_take]
      · simp [Handle.isUnbounded, stage] at isUnbounded

end RangeInvariant

/--
In every reachable state of a queue of at most 1024 cells, `batch_collect`
has delivered the accepted tasks exactly once and in order.
-/
theorem delivers_exactly_once
    (N : BufferSize .w64)
    (small : N.size ≤ 1024)
    (task : Nat → Task)
    (state : State Task)
    (reachable : Reachable N task state) :
    Delivered task state := by
  have pushes := reachable.pushInvariant
  have callers := pushes.callers
  have ranges := reachable.rangeInvariant small
  have phase := reachable.queue.phaseInvariant
  have openerOnly :
      ∀ delivery ∈ state.somes,
        state.openers[delivery.batch]? = some delivery.future := by
    intro delivery member
    have inBounds := ranges.known delivery member
    have found := List.getElem?_eq_getElem inBounds
    obtain ⟨opener, isOpener⟩ := callers.exists_opener found
    have here : delivery ∈ state.deliveries delivery.batch := by
      simpa [State.deliveries] using member
    rcases ranges.deliveries_cases found isOpener with none_ | one
    · rw [none_] at here
      cases here
    · rw [one, List.mem_singleton] at here
      have byOpener : delivery.future = opener :=
        congrArg Delivery.future here
      rw [byOpener]
      exact isOpener
  constructor
  case inOrder =>
    exact ranges.collected_eq_acceptedTasks pushes phase
  case ownTasks =>
    exact pushes.ownTasks
  case acceptedOnce =>
    exact callers.distinct
  case refusedKeepTask =>
    exact pushes.waiting
  case openersDistinct =>
    exact callers.openers_nodup phase
  case openerOnly =>
    exact openerOnly
  case atMostOnce =>
    intro batch
    by_cases inBounds : batch < state.queue.handles.length
    · have found := List.getElem?_eq_getElem inBounds
      obtain ⟨opener, isOpener⟩ := callers.exists_opener found
      rcases ranges.deliveries_cases found isOpener with none_ | one
      · simp [none_]
      · simp [one]
    · have none_ : state.deliveries batch = [] := by
        rw [State.deliveries, List.filter_eq_nil_iff]
        intro delivery member same
        have := ranges.known delivery member
        simp only [decide_eq_true_eq] at same
        omega
      simp [none_]
  case openerReturns =>
    intro quiescent batch opener isOpener notReturning
    obtain ⟨handle, found⟩ := callers.exists_handle isOpener
    rcases ranges.quiescent_cases quiescent found isOpener with
      ⟨at_, _⟩ | ⟨_, returned⟩
    · exact (notReturning at_).elim
    · exact ⟨_, returned⟩
  case othersReturnNone =>
    intro future member notOpener
    refine ⟨(ranges.joined future member notOpener).imp_right
      fun returned => returned.2, ?_⟩
    intro delivery isDelivery same
    have isOpener := openerOnly delivery isDelivery
    rw [same] at isOpener
    exact notOpener (List.mem_of_getElem? isOpener)

/-- Two futures: the second joins the range of the first, which collects. -/
def twoFuturesRun : List Action :=
  [.poll 0, .owner, .owner, .owner, .owner, .owner, .owner, .finish,
    .poll 1, .owner, .owner, .owner, .owner, .finish,
    .collect 0, .copy 0, .copy 0, .release 0, .steal 0 false,
    .complete 0]

/-- After that run the first future has returned both tasks, in order. -/
theorem delivers_exactly_once_twoFutures :
    ∃ state : State Nat,
      TransitionSystem.execute (step smallestBuffer)
          (initial fun future => 10 + future) twoFuturesRun =
        some state ∧
      state.collected = [some 10, some 11] ∧
      state.nones = [1] ∧
      Delivered (fun future => 10 + future) state := by
  have performed :
      ((TransitionSystem.execute (step smallestBuffer)
          (initial fun future => 10 + future) twoFuturesRun).map
        fun state => (state.collected, state.nones)) =
        some ([some 10, some 11], [1]) := by
    decide +kernel
  obtain ⟨state, reached, results⟩ := Option.map_eq_some_iff.mp performed
  simp only [Prod.mk.injEq] at results
  exact ⟨state, reached, results.1, results.2,
    delivers_exactly_once smallestBuffer (by decide) _ state
      (TransitionSystem.Reachable.start.execute reached)⟩

end StackQueue.BatchCollect
