import StackQueue.RangeHolders

namespace StackQueue.RangeTasks

open Queue IntervalChain RangeConsumers

/-!
# Accounts of the ranges

What a run of a safe buffer has come to: no access of any holder has found
anything but the tasks of its range in order, so no task is moved out or
dropped twice and no cell is read that holds none; a `BoundedRange` shows
exactly its tasks for as long as it is held; and once every range has been
released nothing is left over, unless the index counter wrapped under a
destructor.
-/

variable {width : PointerWidth} {Task : Type}

/-- Everything moved out or dropped so far, by ranges, oldest range first. -/
def State.allTaken (state : State Task) : List (Option Task) :=
  (state.queue.handles.mapIdx fun batch _ => state.taken batch).flatten

/-- What a run has done with one range. -/
structure RangeAccount
    (N : BufferSize width)
    (needsDrop : Bool)
    (state : State Task)
    (batch : Nat)
    (handle : Handle) : Prop where
  /-- `as_slices` and `iter` show the tasks of the range. -/
  viewed :
    ∀ range,
      state.holders batch = .bounded range →
      (taskIndices N range).map state.queue.buffer =
        tasksOf state.pushed handle
  /-- Nothing is taken from a range before it is bounded. -/
  untouched : handle.isUnbounded = true → state.taken batch = []
  /-- The tasks are taken from the first one on. -/
  inOrder :
    handle.isUnbounded = false →
    state.taken batch <+: tasksOf state.pushed handle
  /-- `to_vec` returns all of them. -/
  copied :
    state.holders batch = .finished true →
    state.taken batch = tasksOf state.pushed handle
  /-- Destructors miss none exactly if the counter has not wrapped. -/
  destroyed :
    state.holders batch = .finished false →
    needsDrop = true →
    (state.taken batch = tasksOf state.pushed handle ↔
      ¬ Wraps width handle)

/-- The range has been released with nothing left in it. -/
def State.IsSettled
    (width : PointerWidth)
    (needsDrop : Bool)
    (state : State Task)
    (batch : Nat)
    (handle : Handle) :
    Prop :=
  state.holders batch = .finished true ∨
    (state.holders batch = .finished false ∧
      needsDrop = true ∧
      ¬ Wraps width handle)

/-- What a run has done with all its tasks. -/
structure Accounts
    (N : BufferSize width)
    (needsDrop : Bool)
    (state : State Task) : Prop where
  ranges :
    ∀ (batch : Nat) (handle : Handle),
      state.queue.handles[batch]? = some handle →
      RangeAccount N needsDrop state batch handle
  /-- No accepted task is taken twice, and nothing else is. -/
  once : state.allTaken.Sublist (state.pushed.map some)
  /-- Once every range is settled every accepted task has been taken. -/
  complete :
    state.queue.owner = .idle →
    (∀ (batch : Nat) (handle : Handle),
      state.queue.handles[batch]? = some handle →
      state.IsSettled width needsDrop batch handle) →
    state.allTaken = state.pushed.map some

/-! ## One range -/

section Ranges

variable
    {N : BufferSize width}
    {needsDrop : Bool}
    {state : State Task}
    {batch : Nat}
    {handle : Handle}

theorem tasksOf_ne_nil
    (call : CallInvariant N state)
    (phase : PhaseInvariant N state.queue)
    (member : handle ∈ state.queue.handles)
    (bounded : handle.isUnbounded = false) :
    tasksOf state.pushed handle ≠ [] := by
  obtain ⟨nonempty, upTo⟩ := phase.bounded_positions member bounded
  have count := call.contents.count
  intro empty
  have length := congrArg List.length empty
  rw [tasksOf, tasksUpTo, slice, List.length_take, List.length_drop,
    count, List.length_nil] at length
  change min (handle.last - handle.first)
    (state.queue.accepted - handle.first) = 0 at length
  omega

theorem TakenUpTo.isPrefix
    {tasks : List Task}
    {taken : List (Option Task)}
    {position : Nat}
    (taking : TakenUpTo tasks handle taken position) :
    taken <+: tasksOf tasks handle := by
  rw [taking.shape]
  exact slice_prefix_of_le _ taking.upTo

/-- What was taken from a bounded range is a prefix of its tasks. -/
theorem HolderAt.isPrefix
    {tasks : List Task}
    {taken : List (Option Task)}
    {holder : Holder}
    (holds : HolderAt N needsDrop tasks handle taken holder) :
    taken <+: tasksOf tasks handle := by
  cases holder with
  | unbounded | bounded range =>
      rw [holds.2]
      exact List.nil_prefix
  | copying range todo =>
      obtain ⟨_, position, taking, _⟩ := holds
      exact taking.isPrefix
  | iterating iter | dropping iter =>
      obtain ⟨position, taking, _⟩ := holds
      exact taking.isPrefix
  | releasing copied | finished copied =>
      obtain ⟨position, taking⟩ := holds.2.some_
      exact taking.isPrefix

/-- An unbounded range is one that its code has not used yet. -/
theorem HolderAt.isUnbounded_iff
    {tasks : List Task}
    {taken : List (Option Task)}
    {holder : Holder}
    (holds : HolderAt N needsDrop tasks handle taken holder) :
    handle.isUnbounded = true ↔ holder = .unbounded := by
  have stageOf : handle.isUnbounded = true ↔ handle.stage = .unbounded := by
    simp [Handle.isUnbounded]
  rw [stageOf]
  cases holder with
  | unbounded =>
      simp [holds.1]
  | bounded range | copying range todo =>
      simp [holds.1]
  | iterating iter | dropping iter =>
      obtain ⟨position, _, counts⟩ := holds
      simp [counts.stage]
  | releasing copied =>
      obtain ⟨released | ⟨left, draining⟩, _⟩ := holds
      · simp [released]
      · simp [draining]
  | finished copied =>
      simp [holds.1]

theorem HolderAt.taken_of_unbounded
    {tasks : List Task}
    {taken : List (Option Task)}
    {holder : Holder}
    (holds : HolderAt N needsDrop tasks handle taken holder)
    (unbounded : handle.isUnbounded = true) :
    taken = [] := by
  have isUnbounded := holds.isUnbounded_iff.mp unbounded
  rw [isUnbounded] at holds
  exact holds.2

/-- A range that its code has begun to use is bounded. -/
theorem HolderInvariant.bounded
    (invariant : HolderInvariant N needsDrop state)
    (found : state.queue.handles[batch]? = some handle)
    (begun : state.holders batch ≠ .unbounded) :
    handle.isUnbounded = false := by
  rw [Bool.eq_false_iff]
  intro unbounded
  exact begun
    ((invariant.held batch handle found).isUnbounded_iff.mp unbounded)

theorem rangeAccount
    (invariant : HolderInvariant N needsDrop state)
    (call : CallInvariant N state)
    (phase : PhaseInvariant N state.queue)
    (window : state.queue.LiveInWindow N)
    (found : state.queue.handles[batch]? = some handle) :
    RangeAccount N needsDrop state batch handle := by
  have holding := invariant.held batch handle found
  have member := List.mem_of_getElem? found
  constructor
  case viewed =>
    intro range held
    rw [held] at holding
    exact call.contents.slices_of_live window phase member holding.1
  case untouched =>
    exact holding.taken_of_unbounded
  case inOrder =>
    exact fun _ => holding.isPrefix
  case copied =>
    intro held
    rw [held] at holding
    exact holding.2.copied_ rfl
  case destroyed =>
    intro held needed
    rw [held] at holding
    obtain ⟨stage, outcome⟩ := holding
    have bounded : handle.isUnbounded = false := by
      simp [Handle.isUnbounded, stage]
    constructor
    · intro all wraps
      rw [outcome.wrapped rfl wraps] at all
      exact tasksOf_ne_nil call phase member bounded all.symm
    · exact outcome.dropped rfl needed

end Ranges

/-! ## What an iterator yields -/

instance (width : PointerWidth) (handle : Handle) :
    Decidable (Wraps width handle) :=
  inferInstanceAs (Decidable (_ ≤ _))

/-- The tasks that the iterator of a range yields, if it is not stopped. -/
def yielded
    (width : PointerWidth)
    (tasks : List Task)
    (handle : Handle) :
    List Task :=
  if Wraps width handle then
    []
  else
    slice tasks ⟨handle.first, handle.last⟩

theorem yielded_append
    {tasks : List Task}
    {handle : Handle}
    (within : handle.last ≤ tasks.length)
    (newest : List Task) :
    yielded width (tasks ++ newest) handle =
      yielded width tasks handle := by
  rw [yielded, slice_append (by exact within), yielded]

/-- What a range yields is a matter of its two ends. -/
theorem yielded_of_ends
    {handle other : Handle}
    (first : other.first = handle.first)
    (last : other.last = handle.last)
    (tasks : List Task) :
    yielded width tasks other = yielded width tasks handle := by
  cases handle
  cases other
  cases first
  cases last
  rfl

section Yields

variable
    {N : BufferSize width}
    {needsDrop : Bool}
    {state : State Task}
    {batch : Nat}
    {handle : Handle}
    {iter : BufferIter}

/-- The counter of an iterator, and the position it has come to. -/
theorem HolderInvariant.iterates
    (invariant : HolderInvariant N needsDrop state)
    (found : state.queue.handles[batch]? = some handle)
    (held : state.holders batch = .iterating iter) :
    ∃ position,
      TakenUpTo state.pushed handle (state.taken batch) position ∧
        CountsTo handle iter position := by
  have holding := invariant.held batch handle found
  rw [held] at holding
  exact holding

theorem TakenUpTo.length
    {tasks : List Task}
    {taken : List (Option Task)}
    {position : Nat}
    (taking : TakenUpTo tasks handle taken position)
    (within : handle.last ≤ tasks.length) :
    taken.length = position - handle.first := by
  have upTo := taking.upTo
  rw [taking.shape, tasksUpTo, slice, List.length_take, List.length_drop,
    List.length_map]
  exact Nat.min_eq_left (Nat.sub_le_sub_right (Nat.le_trans upTo within) _)

/-- While its counter is below the end, an iterator finds its next task. -/
theorem yields_item
    (invariant : HolderInvariant N needsDrop state)
    (call : CallInvariant N state)
    (phase : PhaseInvariant N state.queue)
    (window : state.queue.LiveInWindow N)
    (found : state.queue.handles[batch]? = some handle)
    (held : state.holders batch = .iterating iter)
    (more : iter.current < iter.range.stop) :
    ∃ task,
      state.queue.buffer (iter.current &&& (N.size - 1)) = some task ∧
        (yielded width state.pushed handle).drop
            (state.taken batch).length =
          task ::
            (yielded width state.pushed handle).drop
              ((state.taken batch).length + 1) := by
  obtain ⟨position, taking, counts⟩ := invariant.iterates found held
  have member := List.mem_of_getElem? found
  have bounded : handle.isUnbounded = false := by
    simp [Handle.isUnbounded, counts.stage]
  have live : handle.isLive = true := by
    simp [Handle.isLive, counts.stage]
  obtain ⟨unfinished, isIndex, next⟩ :=
    counts.next phase window member taking.begun more
  have count : state.pushed.length = state.queue.accepted := by
    rw [← call.contents.count, List.length_map]
  have within : handle.last ≤ state.pushed.length := by
    rw [count]
    exact (phase.bounded_positions member bounded).2
  have accepted : position < state.pushed.length :=
    Nat.lt_of_lt_of_le unfinished within
  have atPosition := List.getElem?_eq_getElem accepted
  have forward : ¬ Wraps width handle := by
    intro wraps
    have begins :=
      next.moved (Nat.lt_succ_of_le taking.begun)
    have range := phase.counters handle member iter.range counts.stage
    change iter.range.start < iter.range.stop at begins
    rw [range] at begins
    exact absurd wraps (Nat.not_le_of_lt begins)
  refine ⟨state.pushed[position], ?_, ?_⟩
  · rw [isIndex]
    refine call.contents.of_live window member live taking.begun ?_
    rw [List.getElem?_map, atPosition]
    rfl
  · have length := taking.length within
    have here :
        (yielded width state.pushed handle)[(state.taken batch).length]? =
          some state.pushed[position] := by
      rw [yielded, if_neg forward, getElem?_slice, length,
        if_pos (Nat.sub_lt_sub_right taking.begun unfinished),
        Nat.add_sub_cancel' taking.begun]
      exact atPosition
    obtain ⟨inBounds, shape⟩ := List.getElem?_eq_some_iff.mp here
    rw [List.drop_eq_getElem_cons inBounds, shape]

/-- At its end, an iterator has yielded every task that it can. -/
theorem yields_none
    (invariant : HolderInvariant N needsDrop state)
    (call : CallInvariant N state)
    (phase : PhaseInvariant N state.queue)
    (window : state.queue.LiveInWindow N)
    (found : state.queue.handles[batch]? = some handle)
    (held : state.holders batch = .iterating iter)
    (exhausted : ¬ iter.current < iter.range.stop) :
    (yielded width state.pushed handle).drop
        (state.taken batch).length =
      [] := by
  obtain ⟨position, taking, counts⟩ := invariant.iterates found held
  have member := List.mem_of_getElem? found
  have bounded : handle.isUnbounded = false := by
    simp [Handle.isUnbounded, counts.stage]
  have count : state.pushed.length = state.queue.accepted := by
    rw [← call.contents.count, List.length_map]
  have within : handle.last ≤ state.pushed.length := by
    rw [count]
    exact (phase.bounded_positions member bounded).2
  obtain ⟨_, everything⟩ :=
    counts.atEnd phase window member taking.begun taking.upTo
  rw [List.drop_eq_nil_iff, yielded]
  split
  · exact Nat.zero_le _
  · rename_i forward
    rw [taking.length within, everything exhausted forward, slice,
      List.length_take]
    exact Nat.min_le_left _ _

end Yields

/-! ## All ranges -/

/-- Lists that are parts of others, one by one, are so when joined. -/
theorem flatten_mapIdx_sublist
    {Item Part : Type}
    {items : List Item}
    {parts wholes : Nat → Item → List Part}
    (each :
      ∀ (i : Nat) (item : Item),
        items[i]? = some item →
        (parts i item).Sublist (wholes i item)) :
    (items.mapIdx parts).flatten.Sublist
      (items.mapIdx wholes).flatten := by
  induction items generalizing parts wholes with
  | nil =>
      exact List.Sublist.refl _
  | cons item rest inductionHypothesis =>
      rw [List.mapIdx_cons, List.mapIdx_cons, List.flatten_cons,
        List.flatten_cons]
      apply List.Sublist.append
      · exact each 0 item rfl
      · exact inductionHypothesis fun i later found =>
          each (i + 1) later found

section Runs

variable
    {N : BufferSize width}
    {needsDrop : Bool}
    {state : State Task}

/-- The slices of all ranges, joined, are what they cover. -/
theorem flatten_spans
    {Item : Type}
    (phase : PhaseInvariant N state.queue)
    (items : List Item) :
    (state.queue.handles.mapIdx fun _ handle =>
        slice items (handle.span state.queue.covered)).flatten =
      items.take state.queue.covered := by
  have joined := flatten_slices_between phase.chain items
  rw [Queue.State.spans, List.map_map] at joined
  have same :
      (state.queue.handles.mapIdx fun _ handle =>
          slice items (handle.span state.queue.covered)) =
        state.queue.handles.map
          (slice items ∘ Handle.span state.queue.covered) := by
    apply List.ext_getElem?
    intro i
    rw [List.getElem?_mapIdx, List.getElem?_map]
    rfl
  rw [same, joined]
  rfl

/-- What was taken from a range is part of the tasks it covers. -/
theorem HolderInvariant.taken_sublist
    (invariant : HolderInvariant N needsDrop state)
    {batch : Nat}
    {handle : Handle}
    (found : state.queue.handles[batch]? = some handle) :
    (state.taken batch).Sublist
      (slice (state.pushed.map some)
        (handle.span state.queue.covered)) := by
  have holding := invariant.held batch handle found
  cases unbounded : handle.isUnbounded with
  | true =>
      rw [holding.taken_of_unbounded unbounded]
      exact List.nil_sublist _
  | false =>
      rw [Handle.span_of_bounded unbounded]
      exact holding.isPrefix.sublist

/-- A settled range gave all the tasks it covers. -/
theorem taken_of_settled
    {batch : Nat}
    {handle : Handle}
    (holding :
      HolderAt N needsDrop state.pushed handle (state.taken batch)
        (state.holders batch))
    (settled : state.IsSettled width needsDrop batch handle) :
    state.taken batch =
      slice (state.pushed.map some)
        (handle.span state.queue.covered) := by
  have outcome :
      handle.stage = .released ∧
        state.taken batch = tasksOf state.pushed handle := by
    rcases settled with copied | ⟨destroyed, needed, forward⟩
    · rw [copied] at holding
      exact ⟨holding.1, holding.2.copied_ rfl⟩
    · rw [destroyed] at holding
      exact ⟨holding.1, holding.2.dropped rfl needed forward⟩
  have bounded : handle.isUnbounded = false := by
    simp [Handle.isUnbounded, outcome.1]
  rw [outcome.2, Handle.span_of_bounded bounded]
  rfl

/-- The accounts of all ranges add up to the queue's. -/
theorem Reachable.accounts
    (safe : N.IsSafe)
    (reachable : Reachable N needsDrop state) :
    Accounts N needsDrop state := by
  have call := Reachable.callInvariant reachable
  have invariant := Reachable.holderInvariant safe reachable
  have phase := (Reachable.queue reachable).phaseInvariant
  have window := (Reachable.queue reachable).liveInWindow safe
  have count := call.contents.count
  constructor
  case ranges =>
    intro batch handle found
    exact rangeAccount invariant call phase window found
  case once =>
    have each :
        ∀ (batch : Nat) (handle : Handle),
          state.queue.handles[batch]? = some handle →
          (state.taken batch).Sublist
            (slice (state.pushed.map some)
              (handle.span state.queue.covered)) :=
      fun _ _ found => invariant.taken_sublist found
    have covered := flatten_mapIdx_sublist each
    rw [flatten_spans phase] at covered
    exact covered.trans (List.take_sublist _ _)
  case complete =>
    intro idle settled
    have covered : state.queue.covered = state.queue.accepted := by
      rw [Queue.State.covered, idle]
    rw [State.allTaken]
    have all :
        (state.queue.handles.mapIdx fun batch _ => state.taken batch) =
          state.queue.handles.mapIdx fun _ handle =>
            slice (state.pushed.map some)
              (handle.span state.queue.covered) := by
      apply List.ext_getElem?
      intro batch
      rw [List.getElem?_mapIdx, List.getElem?_mapIdx]
      cases found : state.queue.handles[batch]? with
      | none => rfl
      | some handle =>
          rw [Option.map_some, Option.map_some,
            taken_of_settled (invariant.held batch handle found)
              (settled batch handle found)]
    rw [all, flatten_spans phase, covered, ← count, List.take_length]

end Runs

/--
In every reachable state of a safe buffer, whatever the code that holds the
ranges does, the tasks moved out or dropped are accepted tasks, each once and
in order, and none is left over once every range is settled.
-/
theorem ranges_accounted
    (N : BufferSize width)
    (safe : N.IsSafe)
    (needsDrop : Bool)
    (state : State Task)
    (reachable : Reachable N needsDrop state) :
    Accounts N needsDrop state :=
  Reachable.accounts safe reachable

/-- One range is iterated over and dropped half-way, the next one copied. -/
def twoRangesRun : List (Action Nat) :=
  [.push 10, .owner, .owner, .owner, .owner, .owner, .owner, .finish none,
    .push 11, .owner, .owner, .owner, .owner, .finish none,
    .intoBounded 0, .intoIter 0, .next 0,
    .push 12, .owner, .owner, .owner, .owner, .owner, .finish none,
    .drop 0, .dropCell 0, .release 0, .complete 0,
    .intoBounded 1, .toVec 1, .copy 1, .release 1, .steal 1 false,
    .complete 1]

/-- After that run all three tasks have been taken, in order. -/
theorem ranges_accounted_twoRanges :
    ∃ state : State Nat,
      TransitionSystem.execute (step smallestBuffer true) initial
          twoRangesRun =
        some state ∧
      state.allTaken = [some 10, some 11, some 12] ∧
      Accounts smallestBuffer true state := by
  have performed :
      ((TransitionSystem.execute (step smallestBuffer true) initial
          twoRangesRun).map State.allTaken) =
        some [some 10, some 11, some 12] := by
    decide +kernel
  obtain ⟨state, reached, results⟩ := Option.map_eq_some_iff.mp performed
  exact ⟨state, reached, results,
    ranges_accounted smallestBuffer smallestBuffer_isSafe true state
      (TransitionSystem.Reachable.start.execute reached)⟩

end StackQueue.RangeTasks
